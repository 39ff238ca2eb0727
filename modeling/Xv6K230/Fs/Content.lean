import Xv6K230.Fs.Mapping
import Xv6K230.Lib.Laws

/-! # Reading and writing files

A write changes one file and leaves the copy in the table and the inode on the disk equal;
a read of a file without holes changes nothing.
-/

namespace Xv6K230.Fs

open Prog
open Function (update_apply update_eq_self update_idem update_of_ne update_self)

variable {E : Stop → Prop} {s t u : FsState} {m : Nat → Dinode} {ip : Ip} {i a bn : Nat} {d d' : Dinode} {f g : Nat → UInt8}

lemma FsState.nodes_of_live (h : s.Live m i) : s.nodes m i = (m i).node s.disk := if_pos h

lemma Intact.setData (h : Intact m s) (hLive : s.Live m i) (hbn : bn < 268) (hSlot : slotAt s.disk (m i) (fileSlot bn) = a)
    (ha : a ≠ 0) (x : Block) :
    Intact m (s.setBlock a x) ∧ (s.setBlock a x).inode = s.inode ∧
    (∀ j q, s.Live m j → slotAt (s.setBlock a x).disk (m j) q = slotAt s.disk (m j) q) ∧
    (s.setBlock a x).nodes m = Function.update (s.nodes m) i { s.nodes m i with
      data := fun off => if off / 1024 = bn then x.get (off % 1024) else (s.nodes m i).data off } := by
  have hPlace : s.place m none (some (i, fileSlot bn)) = some a :=
    FsState.place_some_iff.mpr ⟨hLive, fileSlot_lt hbn, hSlot, ha⟩
  have hUsed := h.used hPlace
  have hOther : ∀ {j q b}, (j, q) ≠ (i, fileSlot bn) → s.place m none (some (j, q)) = some b →
      (s.setBlock a x).disk b = s.disk b := by
    intro j q b hne hp
    apply FsState.setBlock_disk_of_ne
    rintro rfl
    exact hne (Option.some.inj (h.owned.placed.inj hp hPlace))
  have hInd : ∀ j b, s.place m none (some (j, 12)) = some b → (s.setBlock a x).disk b = s.disk b := by
    grind [fileSlot_ne]
  have hSlots : ∀ j q, s.Live m j → slotAt (s.setBlock a x).disk (m j) q = slotAt s.disk (m j) q := by
    intro j q hj
    apply slotAt_congr
    intro hne
    exact hInd j _ (FsState.place_some_iff.mpr ⟨hj, by decide, rfl, hne⟩)
  refine ⟨?_, ?_, hSlots, ?_⟩
  · apply h.frame (t := s.setBlock a x) rfl rfl _ hInd h.cached
    apply FsState.bit_congr (s := s) (t := s.setBlock a x) rfl
    intro c _ hc
    have hLow := hUsed.1
    exact FsState.setBlock_disk_of_ne _ (by omega)
  · apply FsState.inode_congr (t := s.setBlock a x) h.ok rfl
    intro c hc
    have hLow := hUsed.1
    have hMeta := s.sb.bmapstart_lt_nmeta
    exact FsState.setBlock_disk_of_ne _ (by omega)
  · funext j
    by_cases hj : j = i
    · subst hj
      have hLive' : (s.setBlock a x).Live m j := hLive
      rw [update_self, FsState.nodes_of_live hLive', FsState.nodes_of_live hLive]
      unfold Dinode.node
      congr 1
      funext off
      unfold dataAt
      simp only [hSlots j _ hLive]
      by_cases hOff : off < 268 * 1024 ∧ slotAt s.disk (m j) (fileSlot (off / 1024)) ≠ 0
      · rw [if_pos hOff]
        by_cases hBlock : off / 1024 = bn
        · rw [if_pos hBlock, hBlock, hSlot, FsState.setBlock_disk_same]
        · rw [if_neg hBlock, if_pos hOff]
          congr 1
          apply hOther (q := fileSlot (off / 1024)) (j := j)
          · intro he
            exact hBlock (fileSlot_inj (congrArg Prod.snd he))
          · exact FsState.place_some_iff.mpr ⟨hLive, fileSlot_lt (by omega), rfl, hOff.2⟩
      · grind
    · rw [update_of_ne hj]
      unfold FsState.nodes
      by_cases hLiveJ : s.Live m j
      · rw [if_pos hLiveJ, if_pos (show (s.setBlock a x).Live m j from hLiveJ)]
        apply FsState.node_congr hLiveJ
        intro q b hp
        exact hOther (fun he => hj (congrArg Prod.fst he)) hp
      · rw [if_neg hLiveJ, if_neg (show ¬ (s.setBlock a x).Live m j from hLiveJ)]

structure Written (m : Nat → Dinode) (ip : Ip) (i : Nat) (s t : FsState) (d : Dinode) (f : Nat → UInt8) : Prop where
  sb : t.sb = s.sb
  entries : t.entries = s.entries
  inode : t.inode = s.inode
  attr : d = { m i with addrs := d.addrs }
  intact : Intact (Function.update m i d) t
  nodes : t.nodes (Function.update m i d) = Function.update (s.nodes m) i { s.nodes m i with data := f }
  keeps : ∀ q < nslots, slotAt s.disk (m i) q ≠ 0 → slotAt t.disk d q = slotAt s.disk (m i) q
  others : ∀ j q, j ≠ i → s.Live m j → q < nslots → slotAt t.disk (m j) q = slotAt s.disk (m j) q

namespace Written

lemma of_mapped (h : Mapped m ip i s t d) : Written m ip i s t d (s.nodes m i).data where
  sb := h.sb
  entries := h.entries
  inode := h.inode
  attr := h.attr
  intact := h.intact
  nodes := by rw [h.nodes, update_eq_self]
  keeps := h.keeps
  others := h.others

lemma trans (h : Written m ip i s t d f) (h' : Written (Function.update m i d) ip i t u d' g) : Written m ip i s u d' g where
  sb := h'.sb.trans h.sb
  entries := h'.entries.trans h.entries
  inode := h'.inode.trans h.inode
  attr := by
    have hd := h'.attr
    rw [update_self] at hd
    rw [hd, h.attr]
  intact := by
    have hi := h'.intact
    rwa [update_idem] at hi
  nodes := by
    have hn := h'.nodes
    rw [update_idem, h.nodes, update_idem, update_self] at hn
    exact hn
  keeps := by
    intro q hq hne
    have hk := h'.keeps q hq
    rw [update_self, h.keeps q hq hne] at hk
    exact hk hne
  others := by
    intro j q hj hLive hq
    have hm : Function.update m i d j = m j := update_of_ne hj ..
    have ho := h'.others j q hj (hLive.congr h.sb (by rw [hm])) hq
    rw [hm] at ho
    exact ho.trans (h.others j q hj hLive hq)

lemma loaded (h : Written m ip i s t d f) (hip : Loaded s ip i) : Loaded t ip i := hip.of_entries h.entries

lemma withLh (h : Written m ip i s t d f) (l : List Nat) : Written m ip i s (t.withLh l) d f where
  sb := h.sb
  entries := h.entries
  inode := h.inode
  attr := h.attr
  intact := h.intact.withLh l
  nodes := h.nodes
  keeps := h.keeps
  others := h.others

lemma of_setData (hm : Mapped m ip i s t d) (hip : Loaded s ip i) (hbn : bn < 268) (hSlot : slotAt t.disk d (fileSlot bn) = a)
    (ha : a ≠ 0) (x : Block) : Written m ip i s (t.setBlock a x) d
      fun off => if off / 1024 = bn then x.get (off % 1024) else (s.nodes m i).data off := by
  have hd : Function.update m i d i = d := update_self ..
  obtain ⟨hIntact, hInode, hSlots, hNodes⟩ := hm.intact.setData (hm.intact.live (hm.loaded hip)) hbn (by rwa [hd]) ha x
  rw [hm.nodes] at hNodes
  have hOwn := fun q => hSlots i q (hm.intact.live (hm.loaded hip))
  rw [hd] at hOwn
  exact {
    sb := hm.sb
    entries := hm.entries
    inode := hInode.trans hm.inode
    attr := hm.attr
    intact := hIntact
    nodes := hNodes
    keeps := fun q hq hne => (hOwn q).trans (hm.keeps q hq hne)
    others := by
      intro j q hj hLive hq
      have hmj : Function.update m i d j = m j := update_of_ne hj ..
      have hs := hSlots j q (hLive.congr hm.sb (by rw [hmj]))
      rw [hmj] at hs
      exact hs.trans (hm.others j q hj hLive hq) }

end Written

/-- The bytes of a file with `l` written at `off`. -/
def overwrite (data : Nat → UInt8) (off : Nat) (l : Text) (x : Nat) : UInt8 :=
  if off ≤ x ∧ x < off + l.length then l.getD (x - off) 0 else data x

lemma overwrite_block {off : Nat} {l : Text} (hm : Mapped m ip i s t d) (hip : Loaded s ip i)
    (hSlot : slotAt t.disk d (fileSlot (off / 1024)) = a) (ha : a ≠ 0) (hFits : off % 1024 + l.length ≤ 1024)
    (hMax : off / 1024 < 268) :
    (fun x => if x / 1024 = off / 1024 then ((t.disk a).write (off % 1024) l).get (x % 1024) else (s.nodes m i).data x) =
      overwrite (s.nodes m i).data off l := by
  have hd : Function.update m i d i = d := update_self ..
  have hData : (s.nodes m i).data = dataAt t.disk d := by
    rw [← congrFun hm.nodes i, FsState.nodes_of_live (hm.intact.live (hm.loaded hip)), hd]
    rfl
  funext x
  unfold overwrite
  by_cases hBlock : x / 1024 = off / 1024
  · rw [if_pos hBlock, Bytes.get_write _ _ _ (by omega)]
    by_cases hIn : off ≤ x ∧ x < off + l.length
    · rw [if_pos hIn, if_pos (by omega)]
      congr 1
      omega
    · rw [if_neg hIn, if_neg (by omega), hData, dataAt, hBlock, hSlot]
      rw [if_pos ⟨by omega, ha⟩]
  · rw [if_neg hBlock, if_neg (by omega)]

/-! ## The loop of a write -/

def Supplies (src : CopyIn) (byte : Nat → UInt8) : Prop :=
  ∀ k l, (src k l).2 = true → (src k l).1.take l = (List.range l).map fun j => byte (k + j)

/-- The bytes `g` of a file turn into `f` when a write of `n` bytes, of which `tot` have been
written, goes on at `off` and ends with `r`. -/
structure Moved (src : CopyIn) (n tot off : Nat) (r : Nat × Nat) (g f : Nat → UInt8) : Prop where
  low : tot ≤ r.1
  high : r.1 ≤ max n tot
  offset : r.2 = off + (r.1 - tot)
  below : ∀ x < off, f x = g x
  above : ∀ x, off + (n - tot) ≤ x → f x = g x
  bytes : ∀ byte, Supplies src byte → ∀ k, tot ≤ k → k < r.1 → f (off + (k - tot)) = byte k

namespace Moved

variable {src : CopyIn} {n tot off k : Nat} {r : Nat × Nat} {l : Text}

lemma refl (src : CopyIn) (n tot off : Nat) (g : Nat → UInt8) : Moved src n tot off (tot, off) g g where
  low := le_refl _
  high := le_max_right ..
  offset := by simp
  below := fun _ _ => rfl
  above := fun _ _ => rfl
  bytes := fun _ _ k hLow hHigh => absurd hHigh (not_lt.mpr hLow)

lemma failed (hLength : l.length ≤ k) (hk : k ≤ n - tot) : Moved src n tot off (tot, off) g (overwrite g off l) where
  low := le_refl _
  high := le_max_right ..
  offset := by simp
  below := fun x hx => if_neg (by omega)
  above := fun x hx => if_neg (by omega)
  bytes := fun _ _ k hLow hHigh => absurd hHigh (not_lt.mpr hLow)

lemma step (hLength : l.length ≤ k) (hk : 0 < k ∧ k ≤ n - tot) (hl : l = (src tot k).1.take k) (hOk : (src tot k).2 = true)
    (h : Moved src n (tot + k) (off + k) r (overwrite g off l) f) : Moved src n tot off r g f where
  low := by
    have := h.low
    omega
  high := by
    have := h.high
    omega
  offset := by
    have := h.low
    rw [h.offset]
    omega
  below := fun x hx => (h.below x (by omega)).trans (if_neg (by omega))
  above := fun x hx => (h.above x (by omega)).trans (if_neg (by omega))
  bytes := by
    intro byte hByte j hLow hHigh
    by_cases hj : j < tot + k
    · have hList : l = (List.range k).map fun j => byte (tot + j) := hl.trans (hByte tot k hOk)
      have hCount : l.length = k := by simp [hList]
      rw [h.below _ (by omega), overwrite, if_pos (by omega), Nat.add_sub_cancel_left, hList,
        List.getD_eq_getElem _ _ (by simp; omega)]
      simp only [List.getElem_map, List.getElem_range]
      congr 1
      omega
    · have hRest := h.bytes byte hByte j (by omega) hHigh
      rwa [show off + k + (j - (tot + k)) = off + (j - tot) by omega] at hRest

end Moved

/-- Where the first copy of a write of `n` bytes fails, if `tot` bytes are written and it goes on at `off`. -/
def firstFailure (src : CopyIn) (n : Nat) : (fuel tot off : Nat) → Option Nat
  | 0, _, _ => none
  | fuel + 1, tot, off =>
    if tot < n then
      if (src tot (min (n - tot) (bsize - off % bsize))).2 then
        firstFailure src n fuel (tot + min (n - tot) (bsize - off % bsize)) (off + min (n - tot) (bsize - off % bsize))
      else some tot
    else none

/-- What the copy at byte `tot` of the write leaves in the block if it fails. -/
def leftover (src : CopyIn) (n tot off : Nat) : Text :=
  (src tot (min (n - tot) (bsize - off % bsize))).1.take (min (n - tot) (bsize - off % bsize))

/-- Why the loop of a write ends with `r`, and what it did to the bytes `g` of the file from there on: a copy
has failed halfway, no block was left, or everything is written. -/
inductive Ends (src : CopyIn) (n fuel tot off : Nat) (s : FsState) (d : Dinode) (r : Nat × Nat) (t : FsState)
    (g f : Nat → UInt8) : Prop where
  | copy (failure : firstFailure src n fuel tot off = some r.1) (bytes : ∀ x, r.2 ≤ x → f x = overwrite g r.2 (leftover src n r.1 r.2) x)
  | space (short : r.1 < n) (failure : ∀ k, firstFailure src n fuel tot off = some k → r.1 ≤ k)
      (slot : slotAt s.disk d (fileSlot (r.2 / 1024)) = 0) (full : t.NoneFree) (bytes : ∀ x, r.2 ≤ x → f x = g x)
  | done (all : n ≤ r.1) (failure : firstFailure src n fuel tot off = none) (bytes : ∀ x, r.2 ≤ x → f x = g x)

lemma firstFailure_le {src : CopyIn} {n k : Nat} : ∀ (fuel : Nat) {tot off : Nat},
    firstFailure src n fuel tot off = some k → tot ≤ k
  | 0, _, _, h => by cases h
  | fuel + 1, tot, off, h => by
    unfold firstFailure at h
    split at h
    · split at h
      · have := firstFailure_le fuel h
        omega
      · cases h
        exact le_rfl
    · cases h

section

variable {src : CopyIn} {n fuel tot off k : Nat} {r : Nat × Nat} {l : Text}

lemma Ends.step (hTot : tot < n) (hk : k = min (n - tot) (bsize - off % bsize)) (hOk : (src tot k).2 = true) (hLength : l.length ≤ k)
    (hr : off + k ≤ r.2) {s' : FsState} (hSlot : ∀ bn < 268, slotAt s'.disk d' (fileSlot bn) = 0 → slotAt s.disk d (fileSlot bn) = 0)
    (hMax : r.2 < 268 * 1024 ∨ n ≤ r.1)
    (h : Ends src n fuel (tot + k) (off + k) s' d' r t (overwrite g off l) f) : Ends src n (fuel + 1) tot off s d r t g f := by
  have hFirst : firstFailure src n (fuel + 1) tot off = firstFailure src n fuel (tot + k) (off + k) := by
    rw [firstFailure, if_pos hTot, ← hk, if_pos hOk]
  have hBeyond : ∀ x, r.2 ≤ x → overwrite g off l x = g x := fun x hx => if_neg (by omega)
  cases h with
  | copy failure bytes =>
    refine .copy (hFirst.trans failure) fun x hx => (bytes x hx).trans ?_
    unfold overwrite at hBeyond ⊢
    rw [hBeyond x hx]
  | space short failure slot full bytes =>
    exact .space short (fun j hj => failure j (hFirst ▸ hj)) (hSlot _ (by omega) slot) full
      fun x hx => (bytes x hx).trans (hBeyond x hx)
  | done all failure bytes => exact .done all (hFirst.trans failure) fun x hx => (bytes x hx).trans (hBeyond x hx)

end

section

variable (hE : ∀ e, Mild e → E e)

include hE

lemma writeiLoop_spec (src : CopyIn) (n : Nat) : ∀ (fuel tot off : Nat) (s : FsState) (m : Nat → Dinode),
    Intact m s → Loaded s ip i → off + (n - tot) ≤ 268 * 1024 → n - tot ≤ fuel →
    wp (writeiLoop ip src n fuel tot off) E (fun r t => ∃ d f, Written m ip i s t d f ∧
      Moved src n tot off r (s.nodes m i).data f ∧
      (∀ bn, off < r.2 → off / 1024 ≤ bn → bn * 1024 < r.2 → slotAt t.disk d (fileSlot bn) ≠ 0) ∧
      Ends src n fuel tot off s (m i) r t (s.nodes m i).data f) s := by
  intro fuel
  induction fuel with
  | zero =>
    intro tot off s m h hip _ hFuel
    apply wp_val
    exact ⟨m i, _, .of_mapped (.refl h hip), .refl .., fun _ hlt => absurd hlt (lt_irrefl _),
      .done (by simp only; omega) rfl fun _ _ => rfl⟩
  | succ fuel ih =>
    intro tot off s m h hip hMax hFuel
    unfold writeiLoop
    rw [wp_ite]
    constructor
    · intro hTot
      have hFinds := bmap_finds (h.di hip) (show off / bsize < 268 by unfold bsize; omega)
      apply wp_call (wp_weaken_stop (wp_both (bmap_spec hE h hip (off / bsize)) hFinds) fun _ he => he.1)
      rintro a t ⟨⟨d, hMapped, hSlot, hNone⟩, hFound⟩
      by_cases ha : a = 0
      · rw [if_pos ha]
        apply wp_val
        refine ⟨d, _, .of_mapped hMapped, .refl .., fun _ hlt => absurd hlt (lt_irrefl _),
          .space hTot (fun k hk => firstFailure_le _ hk) ?_ (hNone ha) fun _ _ => rfl⟩
        by_contra hne
        exact hFound hne ha
      · rw [if_neg ha]
        have hbn : off / 1024 < 268 := by omega
        obtain ⟨k, hk⟩ : ∃ k, k = min (n - tot) (bsize - off % bsize) := ⟨_, rfl⟩
        have hkBounds : 0 < k ∧ k ≤ n - tot ∧ off % 1024 + k ≤ 1024 ∧ (k = n - tot ∨ off % 1024 + k = 1024) := by
          unfold bsize at hk
          omega
        rw [← hk]
        have hSlots := (hMapped.intact.setData (hMapped.intact.live (hMapped.loaded hip)) hbn
          (by rw [update_self]; exact hSlot ha) ha ((t.disk a).write (off % bsize) ((src tot k).1.take k))).2.2.1
        obtain ⟨l, hl⟩ : ∃ l, l = (src tot k).1.take k := ⟨_, rfl⟩
        have hLength : l.length ≤ k := by
          rw [hl]
          exact List.length_take_le ..
        rw [← hl] at hSlots
        have hWritten : Written m ip i s (t.setBlock a ((t.disk a).write (off % bsize) l)) d (overwrite (s.nodes m i).data off l) := by
          rw [← overwrite_block hMapped hip (hSlot ha) ha (by omega) hbn]
          exact Written.of_setData hMapped hip hbn (hSlot ha) ha ((t.disk a).write (off % bsize) l)
        simp only [← hl]
        rw [wp_bind, wp_update, wp_ite]
        constructor
        · intro hOk
          rw [wp_bind]
          apply wp_logWrite hE
          intro lh
          have hWritten := hWritten.withLh lh
          apply wp_post (ih (tot + k) (off + k) _ _ hWritten.intact (hWritten.loaded hip) (by omega) (by omega))
          rintro r u ⟨d', f, hRest, hMoved, hMore, hEnds⟩
          rw [congrFun hWritten.nodes i, update_self] at hMoved hEnds
          rw [update_self] at hEnds
          have hLow := hMoved.low
          have hReached := hMoved.offset
          refine ⟨d', f, hWritten.trans hRest, hMoved.step hLength ⟨hkBounds.1, hkBounds.2.1⟩ hl hOk, ?_,
            hEnds.step hTot hk hOk hLength (by omega) ?_ (by omega)⟩
          on_goal 2 =>
            intro bn hbn' hZero
            by_contra hne
            exact hne ((hWritten.keeps _ (fileSlot_lt hbn') hne).symm.trans hZero)
          intro bn _ hbnLow hbnHigh
          have hFirst : slotAt u.disk d' (fileSlot (off / 1024)) ≠ 0 := by
            have hKeeps := hRest.keeps (fileSlot (off / 1024)) (fileSlot_lt hbn)
            have hAt := hSlots i (fileSlot (off / 1024)) (hMapped.intact.live (hMapped.loaded hip))
            rw [update_self] at hAt hKeeps
            have hNe := hAt.trans (hSlot ha) ▸ ha
            rw [hKeeps hNe]
            exact hNe
          by_cases hSame : bn = off / 1024
          · rw [hSame]
            exact hFirst
          · exact hMore bn (by omega) (by omega) hbnHigh
        · intro hFails
          apply wp_val
          refine ⟨d, _, hWritten, .failed hLength hkBounds.2.1, fun _ hlt => absurd hlt (lt_irrefl _), .copy ?_ fun x _ => ?_⟩
          · rw [firstFailure, if_pos hTot, ← hk, if_neg hFails]
          · rw [hl, hk]
            rfl
    · intro hDone
      apply wp_val
      exact ⟨m i, _, .of_mapped (.refl h hip), .refl .., fun _ hlt => absurd hlt (lt_irrefl _),
        .done (by simp only; omega) (by rw [firstFailure, if_neg hDone]) fun _ _ => rfl⟩

end

/-! ## Attributes -/

lemma slotAt_addrs {disk : Nat → Block} (h : d'.addrs = d.addrs) (q : Nat) : slotAt disk d' q = slotAt disk d q := by
  unfold slotAt Dinode.addr
  rw [h]

lemma dataAt_addrs {disk : Nat → Block} (h : d'.addrs = d.addrs) : dataAt disk d' = dataAt disk d := by
  funext off
  unfold dataAt
  simp only [slotAt_addrs h]

lemma Intact.setAttr (h : Intact m s) (hip : Loaded s ip i) (hAddrs : d.addrs = (m i).addrs) (hType : d.type ≠ 0)
    (hSize : d.size.toNat ≤ 268 * 1024)
    (hFull : ∀ bn, bn * 1024 < d.size.toNat → slotAt s.disk (m i) (fileSlot bn) ≠ 0) :
    Intact (Function.update m i d) (s.setDi ip d) ∧
    (s.setDi ip d).nodes (Function.update m i d) = Function.update (s.nodes m) i (d.node s.disk) := by
  have hLive := h.live hip
  have hLives : ∀ j, (s.setDi ip d).Live (Function.update m i d) j ↔ s.Live m j := by
    intro j
    by_cases hj : j = i
    · subst hj
      unfold FsState.Live
      rw [update_self]
      exact ⟨fun _ => hLive, fun hl => ⟨hl.1, hType⟩⟩
    · unfold FsState.Live
      rw [update_of_ne hj]
      rfl
  have hSlots : ∀ j q, slotAt s.disk (Function.update m i d j) q = slotAt s.disk (m j) q := by
    grind [update_apply, slotAt_addrs]
  have hPlace : (s.setDi ip d).place (Function.update m i d) none = s.place m none := by
    funext p
    rcases p with _ | ⟨j, q⟩
    · rfl
    · rw [FsState.place_slot, FsState.place_slot, FsState.setDi_disk]
      simp only [hLives, hSlots]
  refine ⟨⟨h.ok, ⟨?_, h.low⟩, ?_, ?_, h.cached.setDi h.table hip hLive.1 hType⟩, ?_⟩
  · rw [hPlace]
    exact h.owned.placed
  · intro j hj
    rw [FsState.setDi_disk]
    simp only [hSlots]
    by_cases hji : j = i
    · subst hji
      rw [update_self]
      exact ⟨hSize, hFull⟩
    · rw [update_of_ne hji]
      exact h.full j ((hLives j).mp hj)
  · rw [FsState.setDi_entries]
    exact h.table
  · funext j
    unfold FsState.nodes
    by_cases hj : j = i
    · subst hj
      rw [if_pos ((hLives j).mpr hLive), update_self, update_self, FsState.setDi_disk]
    · rw [update_of_ne hj, update_of_ne hj]
      simp only [hLives, FsState.setDi_disk]

lemma FsState.inode_setDinode (hi : i < s.sb.ninodes) :
    (s.setDinode i d).inode = Function.update s.inode i d := by
  funext j
  have hFits : i % ipb * 64 + 64 ≤ 1024 := by
    unfold ipb
    omega
  unfold inode dinode setDinode
  by_cases hj : j = i
  · subst hj
    rw [update_self]
    exact (if_pos hi).trans (by rw [show (s.setBlock (s.sb.iblock j) _).sb = s.sb from rfl, setBlock_disk_same,
      Dinode.load_store_same _ _ hFits])
  · rw [update_of_ne hj, show (s.setBlock (s.sb.iblock i) _).sb = s.sb from rfl]
    congr 1
    by_cases hBlock : s.sb.iblock j = s.sb.iblock i
    · grind [setBlock_disk_same, Dinode.load_store_of_disjoint, Superblock.iblock, ipb]
    · rw [FsState.setBlock_disk_of_ne _ hBlock]

lemma Superblock.Ok.iblock_lt {sb : Superblock} (h : sb.Ok) (hi : i < sb.ninodes) : sb.iblock i < sb.bmapstart := by
  have hInodes := h.inodes
  unfold Superblock.iblock ipb
  omega

lemma Intact.setDinode (h : Intact m s) (hi : i < s.sb.ninodes) :
    Intact m (s.setDinode i d) ∧ (s.setDinode i d).nodes m = s.nodes m := by
  have hBlock := h.ok.iblock_lt hi
  have hMeta := s.sb.bmapstart_lt_nmeta
  have hSame : ∀ c, c ≠ s.sb.iblock i → (s.setDinode i d).disk c = s.disk c := fun c hc => FsState.setBlock_disk_of_ne _ hc
  have hPlaced : ∀ p b, s.place m none (some p) = some b → (s.setDinode i d).disk b = s.disk b := by
    rintro ⟨j, q⟩ b hp
    apply hSame
    have hLow := (h.used hp).1
    omega
  constructor
  · apply h.frame (t := s.setDinode i d) rfl rfl _ (fun j b => hPlaced (j, 12) b) h.cached
    apply FsState.bit_congr (s := s) (t := s.setDinode i d) rfl
    intro c hc _
    exact hSame c (by omega)
  · exact FsState.nodes_congr (t := s.setDinode i d) rfl hPlaced

/-! ## Whole operations -/

def Consistent (s : FsState) : Prop := Intact s.inode s

def FsState.files (s : FsState) : Nat → Node := s.nodes s.inode

structure Alters (s t : FsState) (i : Nat) (n : Node) : Prop where
  consistent : Consistent t
  sb : t.sb = s.sb
  entries : t.entries = s.entries
  files : t.files = Function.update s.files i n

namespace Alters

variable {n n' : Node}

lemma refl (h : Consistent s) (i : Nat) : Alters s s i (s.files i) := ⟨h, rfl, rfl, (update_eq_self ..).symm⟩

lemma loaded {j : Nat} (h : Alters s t i n) (hip : Loaded s ip j) : Loaded t ip j := hip.of_entries h.entries

lemma file (h : Alters s t i n) : t.files i = n := by rw [h.files, update_self]

lemma file_of_ne {j : Nat} (h : Alters s t i n) (hj : j ≠ i) : t.files j = s.files j := by
  rw [h.files, update_of_ne hj]

end Alters

lemma Consistent.di (h : Consistent s) (hip : Loaded s ip i) : (s.itable ip).di = s.inode i := Intact.di h hip

lemma Consistent.live (h : Consistent s) (hip : Loaded s ip i) : s.Live s.inode i := Intact.live h hip

lemma FsState.files_of_live (h : s.Live s.inode i) : s.files i = (s.inode i).node s.disk := FsState.nodes_of_live h

lemma Consistent.size_eq (h : Consistent s) (hip : Loaded s ip i) : (s.files i).size = (s.inode i).size.toNat := by
  rw [FsState.files_of_live (h.live hip)]
  rfl

lemma Consistent.size_le (h : Consistent s) (i : Nat) : (s.files i).size ≤ 268 * 1024 := by
  by_cases hLive : s.Live s.inode i
  · rw [FsState.files_of_live hLive]
    exact (h.full i hLive).1
  · rw [show s.files i = Node.free from if_neg hLive]
    exact Nat.zero_le _

lemma Consistent.file (h : Consistent s) (hip : Loaded s ip i) : s.files i = ((s.itable ip).di).node s.disk := by
  rw [h.di hip]
  exact FsState.nodes_of_live (h.live hip)

section

variable (hE : ∀ e, Mild e → E e)

include hE

lemma iupdate_spec (h : Intact m s) (hip : Loaded s ip i) :
    wp (iupdate ip) E (fun _ t => t.sb = s.sb ∧ t.entries = s.entries ∧ t.inode = Function.update s.inode i (m i) ∧ Intact m t ∧
      t.nodes m = s.nodes m) s := by
  have hLive := h.live hip
  obtain ⟨hIntact, hNodes⟩ := h.setDinode (d := m i) hLive.1
  unfold iupdate
  rw [wp_bind, wp_getInode, wp_bind, wp_read, wp_bind, wp_update, hip.inum, h.di hip]
  apply wp_logWrite hE
  intro l
  refine ⟨rfl, rfl, ?_, hIntact.withLh l, hNodes⟩
  rw [← FsState.inode_setDinode hLive.1]
  rfl

lemma modDi_iupdate_spec (h : Intact m s) (hm : ∀ j, j ≠ i → m j = s.inode j) (hip : Loaded s ip i) (f : Dinode → Dinode)
    (hAddrs : (f (m i)).addrs = (m i).addrs) (hType : (f (m i)).type ≠ 0) (hSize : (f (m i)).size.toNat ≤ 268 * 1024)
    (hFull : ∀ bn, bn * 1024 < (f (m i)).size.toNat → slotAt s.disk (m i) (fileSlot bn) ≠ 0) {Q : Unit → FsState → Prop}
    (hQ : ∀ t, Consistent t → t.sb = s.sb → t.entries = s.entries →
      t.files = Function.update (s.nodes m) i ((f (m i)).node s.disk) → Q () t) :
    wp (modDi ip f) E (fun _ t => wp (iupdate ip) E Q t) s := by
  rw [wp_modDi, h.di hip]
  obtain ⟨hIntact, hNodes⟩ := h.setAttr hip hAddrs hType hSize hFull
  apply wp_post (iupdate_spec hE hIntact (hip.of_entries FsState.setDi_entries))
  rintro _ t ⟨hsb, hEntries, hInode, hIntact', hNodes'⟩
  have hMap : t.inode = Function.update m i (f (m i)) := by
    rw [hInode, update_self]
    funext j
    by_cases hj : j = i
    · rw [hj, update_self, update_self]
    · rw [update_of_ne hj, update_of_ne hj, hm j hj]
      rfl
  apply hQ t
  · unfold Consistent
    rw [hMap]
    exact hIntact'
  · exact hsb
  · exact hEntries.trans FsState.setDi_entries
  · unfold FsState.files
    rw [hMap, hNodes', hNodes]

lemma setAttr_spec (h : Consistent s) (hip : Loaded s ip i) (f : Dinode → Dinode)
    (hf : ∀ d, (f d).type = d.type ∧ (f d).size = d.size ∧ (f d).addrs = d.addrs) {Q : Unit → FsState → Prop}
    (hQ : ∀ t, Alters s t i ((f (s.inode i)).node s.disk) → Q () t) :
    wp (modDi ip f) E (fun _ t => wp (iupdate ip) E Q t) s := by
  have hLive := h.live hip
  obtain ⟨hType, hSize, hAddrs⟩ := hf (s.inode i)
  obtain ⟨hMax, hFull⟩ := h.full i hLive
  apply modDi_iupdate_spec hE h (fun _ _ => rfl) hip f hAddrs (by rw [hType]; exact hLive.2) (by rw [hSize]; exact hMax)
    (by rw [hSize]; exact hFull)
  intro t ht hsb hEntries hFiles
  exact hQ t ⟨ht, hsb, hEntries, hFiles⟩

end

end Xv6K230.Fs
