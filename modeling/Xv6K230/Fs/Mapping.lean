import Xv6K230.Fs.Intact

/-! # From file blocks to disk blocks

`bmap` on a sound file system: a block that it has to allocate goes into the slot it was
asked for, and no file changes.
-/

namespace Xv6K230.Fs

open Prog
open Function (update_eq_self update_idem update_of_ne update_self)

variable {E : Stop → Prop} {s t u : FsState} {m : Nat → Dinode} {ip : Ip} {i j k a : Nat} {d d' : Dinode}

/-- `s` with another copy of the disk inode in entry `ip`. -/
def FsState.setDi (s : FsState) (ip : Ip) (d : Dinode) : FsState := s.setInode ip { s.itable ip with di := d }

namespace FsState

@[simp] lemma setDi_sb : (s.setDi ip d).sb = s.sb := rfl

@[simp] lemma setDi_disk : (s.setDi ip d).disk = s.disk := rfl

lemma setDi_itable_same : (s.setDi ip d).itable ip = { s.itable ip with di := d } := if_pos rfl

lemma setDi_itable_of_ne {jp : Ip} (h : jp ≠ ip) : (s.setDi ip d).itable jp = s.itable jp := if_neg h

@[simp] lemma setDi_entries : (s.setDi ip d).entries = s.entries := by
  funext jp
  unfold entries
  by_cases h : jp = ip
  · rw [h, setDi_itable_same]
    rfl
  · rw [setDi_itable_of_ne h]

lemma setDi_setDi : (s.setDi ip d).setDi ip d' = s.setDi ip d' := by
  unfold setDi setInode
  congr 1
  funext jp
  by_cases h : jp = ip <;> simp [h]

lemma setDi_self (h : (s.itable ip).di = d) : s.setDi ip d = s := by
  unfold setDi setInode
  cases s with
  | mk sb disk outstanding lh itable =>
    congr 1
    funext jp
    by_cases hj : jp = ip
    · subst hj
      rw [if_pos rfl, ← h]
    · rw [if_neg hj]

lemma inode_congr (hOk : s.sb.Ok) (hsb : t.sb = s.sb) (h : ∀ c < s.sb.bmapstart, t.disk c = s.disk c) :
    t.inode = s.inode := by
  funext i
  unfold inode dinode
  rw [hsb]
  by_cases hi : i < s.sb.ninodes
  · grind [hOk.inodes, Superblock.iblock, ipb]
  · rw [if_neg hi, if_neg hi]

end FsState

lemma wp_modDi (f : Dinode → Dinode) {Q : Unit → FsState → Prop} :
    wp (modDi ip f) E Q s ↔ Q () (s.setDi ip (f (s.itable ip).di)) := wp_update _

lemma wp_getInode {Q : Inode → FsState → Prop} : wp (getInode ip) E Q s ↔ Q (s.itable ip) s := wp_read _

lemma Loaded.of_entries (h : Loaded s ip i) (ht : t.entries = s.entries) : Loaded t ip i := by
  have he : (t.itable ip).entry = (s.itable ip).entry := congrFun ht ip
  exact ⟨(congrArg Entry.ref he).trans_gt h.ref, (congrArg Entry.valid he).trans h.valid, (congrArg Entry.inum he).trans h.inum⟩

lemma FsState.Cached.setDi (h : s.Cached m) (hTable : TableOk s.sb.ninodes s.entries) (hip : Loaded s ip i)
    (hLive : i < s.sb.ninodes) (hd : d.type ≠ 0) : (s.setDi ip d).Cached (Function.update m i d) := by
  intro jp hRef hValid
  by_cases hj : jp = ip
  · subst hj
    rw [setDi_itable_same] at hRef hValid ⊢
    change d = Function.update m i d (s.itable jp).inum ∧ s.Live _ (s.itable jp).inum
    rw [hip.inum]
    unfold Live
    rw [update_self]
    exact ⟨rfl, hLive, hd⟩
  · rw [setDi_itable_of_ne hj] at hRef hValid ⊢
    have hne : (s.itable jp).inum ≠ i := fun he => hj (hTable.unique jp ip hRef hip.ref (he.trans hip.inum.symm))
    obtain ⟨hDi, hIn, hType⟩ := h jp hRef hValid
    unfold Live
    rw [update_of_ne hne]
    exact ⟨hDi, hIn, hType⟩

/-- `t` is `s` after blocks have been added to the inode `i` in entry `ip`, whose copy is now `d`. -/
structure Mapped (m : Nat → Dinode) (ip : Ip) (i : Nat) (s t : FsState) (d : Dinode) : Prop where
  sb : t.sb = s.sb
  itable : t.itable = (s.setDi ip d).itable
  inode : t.inode = s.inode
  attr : d = { m i with addrs := d.addrs }
  intact : Intact (Function.update m i d) t
  nodes : t.nodes (Function.update m i d) = s.nodes m
  keeps : ∀ q < nslots, slotAt s.disk (m i) q ≠ 0 → slotAt t.disk d q = slotAt s.disk (m i) q
  others : ∀ j q, j ≠ i → s.Live m j → q < nslots → slotAt t.disk (m j) q = slotAt s.disk (m j) q

namespace Mapped

lemma refl (h : Intact m s) (hip : Loaded s ip i) : Mapped m ip i s s (m i) where
  sb := rfl
  itable := by rw [FsState.setDi_self (h.di hip)]
  inode := rfl
  attr := rfl
  intact := by rwa [update_eq_self]
  nodes := by rw [update_eq_self]
  keeps := fun _ _ _ => rfl
  others := fun _ _ _ _ _ => rfl

lemma entries (h : Mapped m ip i s t d) : t.entries = s.entries := by
  funext jp
  unfold FsState.entries
  rw [h.itable]
  exact congrFun (FsState.setDi_entries (s := s)) jp

lemma loaded (h : Mapped m ip i s t d) (hip : Loaded s ip i) : Loaded t ip i := hip.of_entries h.entries

lemma trans (h : Mapped m ip i s t d) (h' : Mapped (Function.update m i d) ip i t u d') : Mapped m ip i s u d' where
  sb := h'.sb.trans h.sb
  itable := by
    rw [h'.itable, ← FsState.setDi_setDi (s := s) (d := d)]
    unfold FsState.setDi FsState.setInode
    rw [h.itable]
    rfl
  inode := h'.inode.trans h.inode
  attr := by
    have hd := h'.attr
    rw [update_self] at hd
    rw [hd, h.attr]
  intact := by
    have hi := h'.intact
    rwa [update_idem] at hi
  nodes := by
    have hn := h'.nodes
    rw [update_idem] at hn
    exact hn.trans h.nodes
  keeps := by
    intro q hq hne
    have hk := h'.keeps q hq
    rw [update_self, h.keeps q hq hne] at hk
    exact hk hne
  others := by
    intro j q hj hLive hq
    have hm : Function.update m i d j = m j := update_of_ne hj ..
    have ho := h'.others j q hj (hLive.congr h.sb (by rw [hm])) hq
    rw [hm] at ho
    exact ho.trans (h.others j q hj hLive hq)

lemma withLh (h : Mapped m ip i s t d) (l : List Nat) : Mapped m ip i s (t.withLh l) d where
  sb := h.sb
  itable := h.itable
  inode := h.inode
  attr := h.attr
  intact := h.intact.withLh l
  nodes := h.nodes
  keeps := h.keeps
  others := h.others

end Mapped

lemma SameTable.loaded (h : SameTable s t) (hip : Loaded s ip i) : Loaded t ip i := by
  obtain ⟨hRef, hValid, hInum⟩ := hip
  exact ⟨by rwa [h.2], by rwa [h.2], by rwa [h.2]⟩

lemma SameTable.entries (h : SameTable s t) : t.entries = s.entries := by
  unfold FsState.entries
  rw [h.2]

lemma Intact.attachAddr (h : Intact m s) (hip : Loaded s ip i) (hTable : SameTable s t) (hg : Granted s t a) (hk : k < 13)
    (hEmpty : (m i).addr k = 0) : Mapped m ip i s (t.setDi ip ((m i).setAddr k a)) ((m i).setAddr k a) := by
  have hLive := h.live hip
  obtain ⟨hsb, hItable⟩ := hTable
  have ha : a ≠ 0 := by
    have hPos : 0 < s.sb.nmeta := Nat.succ_pos _
    have hLow := hg.low
    omega
  have hSlotK : slotAt s.disk (m i) k = 0 := by rw [slotAt, if_pos hk, hEmpty]
  have hSlot : ∀ j r, s.Live m j → r < nslots →
      slotAt t.disk (Function.update m i ((m i).setAddr k a) j) r = if j = i ∧ r = k then a else slotAt s.disk (m j) r := by
    intro j r hj _
    by_cases hji : j = i
    · subst hji
      rw [update_self, slotAt_setAddr hk (h.granted_lt hg), hg.slotAt h hj]
      · simp only [true_and]
      · rintro rfl
        exact ⟨hEmpty, hg.zeroed⟩
    · rw [update_of_ne hji, if_neg fun hc => hji hc.1, hg.slotAt h hj]
  have hAttr : ∀ j, Function.update m i ((m i).setAddr k a) j =
      { m j with addrs := (Function.update m i ((m i).setAddr k a) j).addrs } := by
    intro j
    by_cases hji : j = i
    · rw [hji, update_self]
      rfl
    · rw [update_of_ne hji]
  have hOwned := hg.owned hsb h
  have hFull : t.Full m := FsState.full_congr hsb (fun _ _ hp => hg.disk_of_used (h.used hp)) h.full
  have hSlot' : ∀ j r, t.Live m j → r < nslots →
      slotAt (t.setDi ip ((m i).setAddr k a)).disk (Function.update m i ((m i).setAddr k a) j) r =
        if j = i ∧ r = k then a else slotAt t.disk (m j) r := by
    intro j r hj hr
    have hj' := (FsState.live_congr hsb rfl).mp hj
    rw [FsState.setDi_disk, hSlot j r hj' hr, hg.slotAt h hj']
  have hTableOk : TableOk t.sb.ninodes t.entries := by
    rw [hsb, SameTable.entries ⟨hsb, hItable⟩]
    exact h.table
  exact {
    sb := hsb
    itable := by
      unfold FsState.setDi FsState.setInode
      rw [hItable]
    inode := by
      apply FsState.inode_congr h.ok hsb
      intro c hc
      have hLow := hg.low
      have hMeta := s.sb.bmapstart_lt_nmeta
      exact hg.rest c (by omega) (.inl hc)
    attr := rfl
    intact := {
      ok := by
        rw [FsState.setDi_sb, hsb]
        exact h.ok
      owned := by
        refine hOwned.attach (hsb ▸ h.ok) ?_ ?_ (hLive.congr hsb rfl) (by unfold nslots; omega)
          ((hg.slotAt h hLive k).trans hSlotK) ?_ hSlot'
        · rfl
        · exact fun _ _ => rfl
        · exact fun j => by rw [hAttr j]
      full := hFull.attach rfl hAttr ha hSlot'
      table := by
        rw [FsState.setDi_sb, FsState.setDi_entries]
        exact hTableOk
      cached := by
        apply FsState.Cached.setDi _ hTableOk (SameTable.loaded ⟨hsb, hItable⟩ hip)
        · rw [hsb]
          exact hLive.1
        · exact hLive.2
        · intro jp hRef hValid
          rw [hItable] at hRef hValid ⊢
          obtain ⟨hDi, hIn⟩ := h.cached jp hRef hValid
          exact ⟨hDi, hIn.congr hsb rfl⟩ }
    nodes := by
      rw [← hg.nodes hsb h]
      exact FsState.nodes_attach rfl hAttr ((hg.slotAt h hLive k).trans hSlotK) hSlot' hg.zeroed fun _ _ _ _ _ => rfl
    keeps := by
      intro q hq hne
      have hs := hSlot i q hLive hq
      rw [update_self] at hs
      rw [FsState.setDi_disk, hs]
      apply if_neg
      rintro ⟨-, rfl⟩
      exact hne hSlotK
    others := fun j q _ hj _ => hg.slotAt h hj q }

lemma Intact.attachEntry (h : Intact m s) (hip : Loaded s ip i) (hTable : SameTable s t) (hg : Granted s t a) (hj : j < 256)
    (hInd : (m i).addr 12 ≠ 0) (hEmpty : slotAt s.disk (m i) (13 + j) = 0) :
    Mapped m ip i s (t.setBlock ((m i).addr 12) ((t.disk ((m i).addr 12)).putLE (4 * j) 4 a)) (m i) ∧
    slotAt (t.setBlock ((m i).addr 12) ((t.disk ((m i).addr 12)).putLE (4 * j) 4 a)).disk (m i) (13 + j) = a := by
  have hLive := h.live hip
  obtain ⟨hsb, hItable⟩ := hTable
  have ha : a ≠ 0 := by
    have hPos : 0 < s.sb.nmeta := Nat.succ_pos _
    have hLow := hg.low
    omega
  have hPlace : s.place m none (some (i, 12)) = some ((m i).addr 12) :=
    FsState.place_some_iff.mpr ⟨hLive, by decide, rfl, hInd⟩
  have hUsed := h.used hPlace
  obtain ⟨ind, hind⟩ : ∃ ind, ind = (m i).addr 12 := ⟨_, rfl⟩
  obtain ⟨v, hv⟩ : ∃ v, v = t.setBlock ind ((t.disk ind).putLE (4 * j) 4 a) := ⟨_, rfl⟩
  have hvDisk : v.disk = fun c => if c = (m i).addr 12 then (t.disk c).putLE (4 * j) 4 a else t.disk c := by
    grind [FsState.setBlock]
  have hSlot : ∀ k r, s.Live m k → r < nslots →
      slotAt v.disk (m k) r = if k = i ∧ r = 13 + j then a else slotAt s.disk (m k) r := by
    intro k r hk hr
    by_cases hki : k = i
    · subst hki
      rw [hvDisk, slotAt_putLE hj (h.granted_lt hg) hInd, hg.slotAt h hk]
      simp only [true_and]
    · rw [if_neg fun hc => hki hc.1, ← hg.slotAt h hk]
      apply slotAt_congr
      intro hne
      rw [hvDisk]
      apply if_neg
      intro he
      have hp : s.place m none (some (k, 12)) = some ((m k).addr 12) :=
        FsState.place_some_iff.mpr ⟨hk, by decide, rfl, hne⟩
      rw [he] at hp
      exact hki (congrArg Prod.fst (Option.some.inj (h.owned.placed.inj hp hPlace)))
  have hSlot' : ∀ k r, t.Live m k → r < nslots →
      slotAt v.disk (m k) r = if k = i ∧ r = 13 + j then a else slotAt t.disk (m k) r := by
    intro k r hk hr
    have hk' := (FsState.live_congr hsb rfl).mp hk
    rw [hSlot k r hk' hr, hg.slotAt h hk']
  have hvsb : v.sb = t.sb := by rw [hv]; rfl
  have hvTable : v.itable = t.itable := by rw [hv]; rfl
  have hBlocks : ∀ c, c ≠ ind → v.disk c = t.disk c := by
    intro c hc
    rw [hv]
    exact FsState.setBlock_disk_of_ne _ hc
  have hEmpty' : slotAt t.disk (m i) (13 + j) = 0 := by rw [hg.slotAt h hLive, hEmpty]
  rw [← hind, ← hv]
  have hFull : t.Full m := FsState.full_congr hsb (fun _ _ hp => hg.disk_of_used (h.used hp)) h.full
  constructor
  · exact {
      sb := hvsb.trans hsb
      itable := by rw [hvTable, hItable, FsState.setDi_self (h.di hip)]
      inode := by
        apply FsState.inode_congr h.ok (hvsb.trans hsb)
        intro c hc
        have hLow := hg.low
        have hLow' := hUsed.1
        have hMeta := s.sb.bmapstart_lt_nmeta
        rw [hBlocks c (by omega)]
        exact hg.rest c (by omega) (.inl hc)
      attr := rfl
      intact := by
        rw [update_eq_self]
        exact {
          ok := by
            rw [hvsb, hsb]
            exact h.ok
          owned := by
            apply (hg.owned hsb h).attach (hsb ▸ h.ok) hvsb _ (hLive.congr hsb rfl) (by unfold nslots; omega) hEmpty'
              (fun _ => rfl) hSlot'
            apply FsState.bit_congr hvsb
            intro c _ hc
            apply hBlocks
            have hLow := hUsed.1
            rw [hsb] at hc
            omega
          full := hFull.attach hvsb (fun _ => rfl) ha hSlot'
          table := by
            have hEntries : v.entries = s.entries := by
              unfold FsState.entries
              rw [hvTable, hItable]
            rw [hvsb, hsb, hEntries]
            exact h.table
          cached := by
            intro jp hRef hValid
            rw [hvTable, hItable] at hRef hValid ⊢
            obtain ⟨hDi, hIn⟩ := h.cached jp hRef hValid
            exact ⟨hDi, hIn.congr (hvsb.trans hsb) rfl⟩ }
      nodes := by
        rw [update_eq_self, ← hg.nodes hsb h]
        apply FsState.nodes_attach hvsb (fun _ => rfl) hEmpty' hSlot'
        · rw [hBlocks a (by rw [hind]; exact (hg.ne_of_used hUsed).symm)]
          exact hg.zeroed
        · intro k r b hr hp
          apply hBlocks
          rintro rfl
          rw [FsState.place_congr hsb fun _ _ hp => hg.disk_of_used (h.used hp), hind] at hp
          have hEq := Option.some.inj (h.owned.placed.inj hp hPlace)
          exact hr (congrArg Prod.snd hEq)
      keeps := by
        intro q hq hne
        rw [hSlot i q hLive hq]
        apply if_neg
        rintro ⟨-, rfl⟩
        exact hne hEmpty
      others := fun j q hj hLive' hq => (hSlot j q hLive' hq).trans (if_neg fun hc => hj hc.1) }
  · rw [hSlot i _ hLive (by unfold nslots; omega), if_pos ⟨rfl, rfl⟩]

lemma slotAt_entry {disk : Nat → Block} {bn : Nat} (hbn : ¬ bn < 12) (hInd : d.addr 12 ≠ 0) :
    slotAt disk d (fileSlot bn) = (disk (d.addr 12)).getLE (4 * (bn - 12)) 4 := by
  have hSlot : fileSlot bn = bn + 1 := if_neg hbn
  rw [hSlot, slotAt, if_neg (by omega), if_neg hInd]
  rfl

lemma slotAt_direct {disk : Nat → Block} {bn : Nat} (hbn : bn < 12) : slotAt disk d (fileSlot bn) = d.addr bn := by
  have hSlot : fileSlot bn = bn := if_pos hbn
  rw [hSlot, slotAt, if_pos (by omega)]

section

variable (hE : ∀ e, Mild e → E e)

include hE

lemma ballocAddr_spec (h : Intact m s) (hip : Loaded s ip i) (hk : k < 13) (hEmpty : (m i).addr k = 0) :
    wp (do
      let addr ← balloc
      if addr = 0 then return 0
      else
        modDi ip fun d => d.setAddr k addr
        return addr : FsM Nat) E
      (fun a t => ∃ d, Mapped m ip i s t d ∧ (a ≠ 0 → d.addr k = a) ∧ (a = 0 → t.NoneFree)) s := by
  apply wp_call (balloc_spec hE h.low)
  rintro a t (⟨rfl, rfl, hNone⟩ | ⟨ha, hTable, hg⟩)
  · rw [if_pos rfl, wp_pure]
    exact ⟨m i, .refl h hip, fun hne => absurd rfl hne, fun _ => hNone⟩
  · rw [if_neg ha, wp_bind, wp_modDi, wp_pure]
    have hDi : (t.itable ip).di = m i := by rw [hTable.2, h.di hip]
    rw [hDi]
    refine ⟨_, h.attachAddr hip hTable hg hk hEmpty, fun _ => ?_, fun hZero => absurd hZero ha⟩
    rw [Dinode.addr_setAddr _ hk (h.granted_lt hg), if_pos rfl]

lemma indirectBlock_spec (h : Intact m s) (hip : Loaded s ip i) :
    wp (indirectBlock ip) E (fun a t => ∃ d, Mapped m ip i s t d ∧ (a ≠ 0 → d.addr 12 = a) ∧ (a = 0 → t.NoneFree)) s := by
  unfold indirectBlock
  rw [wp_bind, wp_getInode, h.di hip, wp_ite]
  constructor
  · intro hne
    exact wp_val ⟨m i, .refl h hip, fun _ => rfl, fun hZero => absurd hZero hne⟩
  · intro hZero
    exact ballocAddr_spec hE h hip (by decide) (not_not.mp hZero)

/-- The block that `bmap` returns stands in the slot asked for. It returns none only where no block is free. -/
lemma bmap_spec (h : Intact m s) (hip : Loaded s ip i) (bn : Nat) :
    wp (bmap ip bn) E (fun a t => ∃ d, Mapped m ip i s t d ∧ (a ≠ 0 → slotAt t.disk d (fileSlot bn) = a) ∧ (a = 0 → t.NoneFree)) s := by
  unfold bmap
  rw [wp_bind, wp_getInode, h.di hip]
  by_cases hDirect : bn < ndirect
  · have hbn : bn < 12 := hDirect
    rw [if_pos hDirect, wp_ite]
    constructor
    · intro hne
      exact wp_val ⟨m i, .refl h hip, fun _ => slotAt_direct hbn, fun hZero => absurd hZero hne⟩
    · intro hZero
      apply wp_post (ballocAddr_spec hE h hip (by omega) (not_not.mp hZero))
      rintro a t ⟨d, hMapped, hAddr, hNone⟩
      exact ⟨d, hMapped, fun ha => by rw [slotAt_direct hbn, hAddr ha], hNone⟩
  · have hbn : ¬ bn < 12 := hDirect
    rw [if_neg hDirect, wp_ite]
    constructor
    · intro hRange
      have hj : bn - 12 < 256 := hRange
      apply wp_call (indirectBlock_spec hE h hip)
      rintro ind t ⟨d, hMapped, hAddr, hNone⟩
      by_cases hInd : ind = 0
      · rw [if_pos hInd, wp_pure]
        exact ⟨d, hMapped, fun hne => absurd rfl hne, fun _ => hNone hInd⟩
      · obtain rfl := hAddr hInd
        have hSlot : slotAt t.disk d (fileSlot bn) = (t.disk (d.addr 12)).getLE (4 * (bn - ndirect)) 4 :=
          slotAt_entry hbn hInd
        have hLoaded := hMapped.loaded hip
        have hd : Function.update m i d i = d := update_self ..
        rw [if_neg hInd, wp_bind, bread, wp_read, wp_ite]
        constructor
        · intro hne
          exact wp_val ⟨d, hMapped, fun _ => hSlot, fun hZero => absurd hZero hne⟩
        · intro hZero
          apply wp_call (balloc_spec hE hMapped.intact.low)
          rintro a u (⟨rfl, rfl, hFull⟩ | ⟨ha, hTable, hg⟩)
          · rw [if_neg (not_not.mpr rfl), wp_pure]
            exact ⟨d, hMapped, fun hne => absurd rfl hne, fun _ => hFull⟩
          · have hEntry : fileSlot bn = 13 + (bn - 12) := by
              rw [fileSlot, if_neg hbn]
              omega
            have hEmpty : slotAt t.disk (Function.update m i d i) (13 + (bn - 12)) = 0 := by
              rw [hd, ← hEntry, hSlot]
              exact not_not.mp hZero
            obtain ⟨hMapped', hAt⟩ := hMapped.intact.attachEntry hLoaded hTable hg hj (by rwa [hd]) hEmpty
            rw [hd] at hMapped' hAt
            rw [if_pos ha, wp_bind, wp_update, wp_bind]
            apply wp_logWrite hE
            intro l
            rw [wp_pure]
            refine ⟨d, hMapped.trans (hMapped'.withLh l), fun _ => ?_, fun hNot => absurd hNot ha⟩
            rw [hEntry]
            exact hAt
    · intro _
      exact (wp_stop _).mpr (hE _ (by simp [Mild]))

end

lemma bmap_mapped (hd : (s.itable ip).di = d) {bn : Nat} (hbn : bn < 268) (hne : slotAt s.disk d (fileSlot bn) ≠ 0) :
    wp (bmap ip bn) E (fun a t => a = slotAt s.disk d (fileSlot bn) ∧ t = s) s := by
  unfold bmap
  rw [wp_bind, wp_getInode, hd]
  by_cases hDirect : bn < ndirect
  · have hLow : bn < 12 := hDirect
    rw [slotAt_direct hLow] at hne ⊢
    rw [if_pos hDirect, if_pos hne, wp_pure]
    exact ⟨rfl, rfl⟩
  · have hHigh : ¬ bn < 12 := hDirect
    have hInd : d.addr 12 ≠ 0 := by
      grind [fileSlot, slotAt]
    have hSlot : slotAt s.disk d (fileSlot bn) = (s.disk (d.addr 12)).getLE (4 * (bn - ndirect)) 4 :=
      slotAt_entry hHigh hInd
    have hRange : bn - ndirect < nindirect := by
      unfold ndirect nindirect
      omega
    rw [if_neg hDirect, if_pos hRange, wp_bind]
    unfold indirectBlock
    have hInd' : d.addr ndirect ≠ 0 := hInd
    rw [wp_bind, wp_getInode, hd, if_pos hInd', wp_pure, if_neg hInd', wp_bind, bread, wp_read]
    rw [hSlot] at hne ⊢
    change wp (if (s.disk (d.addr 12)).getLE (4 * (bn - ndirect)) 4 ≠ 0 then _ else _) _ _ _
    rw [if_pos hne, wp_pure]
    exact ⟨rfl, rfl⟩

lemma bmap_finds (hd : (s.itable ip).di = d) {bn : Nat} (hbn : bn < 268) :
    wp (bmap ip bn) (fun _ => True) (fun a _ => slotAt s.disk d (fileSlot bn) ≠ 0 → a ≠ 0) s := by
  by_cases hne : slotAt s.disk d (fileSlot bn) = 0
  · exact wp_post (wp_true _ _) fun _ _ _ hNot => absurd hne hNot
  · apply wp_post (bmap_mapped hd hbn hne)
    rintro a t ⟨rfl, -⟩ _
    exact hne

end Xv6K230.Fs
