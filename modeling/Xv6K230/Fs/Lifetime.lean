import Xv6K230.Fs.Table

/-! # Allocating and freeing inodes

`ialloc` claims a disk inode for an empty file and `iput` gives it back when the last
reference to an inode without links goes.
-/

namespace Xv6K230.Fs

open Prog
open Function (update_apply update_idem update_of_ne update_self)

variable {E : Stop → Prop} {s t u : FsState} {m : Nat → Dinode} {sb : Superblock} {e : Ip → Entry} {f : Nat → Node} {ip jp : Ip}
  {i k : Nat} {d : Dinode}

def Dinode.empty (d : Dinode) : Node := if d.type = 0 then Node.free else ⟨d.type, d.major, d.minor, d.nlink, 0, fun _ => 0⟩

lemma Intact.replace (h : Intact m s) (hi : i < s.sb.ninodes) (hOld : ∀ q, s.place m none (some (i, q)) = none)
    (hClear : ∀ k < 13, d.addr k = 0) (hSize : d.size = 0) (hsb : t.sb = s.sb)
    (hDisk : ∀ c, c ≠ s.sb.iblock i → t.disk c = s.disk c) (hTable : TableOk s.sb.ninodes t.entries)
    (hCached : t.Cached (Function.update m i d)) :
    Intact (Function.update m i d) t ∧ t.nodes (Function.update m i d) = Function.update (s.nodes m) i d.empty := by
  have hBlock := h.ok.iblock_lt hi
  have hMeta := s.sb.bmapstart_lt_nmeta
  have hBlocks : ∀ p b, s.place m none (some p) = some b → t.disk b = s.disk b := by
    rintro ⟨j, q⟩ b hp
    apply hDisk
    have hLow := (h.used hp).1
    omega
  have hLives : ∀ j, j ≠ i → (t.Live (Function.update m i d) j ↔ s.Live m j) := by
    intro j hj
    unfold FsState.Live
    rw [hsb, update_of_ne hj]
  have hSlots : ∀ j q, s.Live m j → slotAt t.disk (m j) q = slotAt s.disk (m j) q := by
    intro j q hj
    apply slotAt_congr
    intro hne
    exact hBlocks (j, 12) _ (FsState.place_some_iff.mpr ⟨hj, by decide, rfl, hne⟩)
  have hPlace : t.place (Function.update m i d) none = s.place m none := by
    funext p
    rcases p with _ | ⟨j, q⟩
    · rfl
    · grind [FsState.place_none_iff, update_apply, slotAt_cleared, FsState.place_slot]
  have hBits : ∀ b < s.sb.size, t.bit b = s.bit b := by
    apply FsState.bit_congr hsb
    intro c hc _
    exact hDisk c (by omega)
  refine ⟨⟨hsb ▸ h.ok, ⟨?_, ?_⟩, ?_, hsb ▸ hTable, hCached⟩, ?_⟩
  · rw [hPlace]
    exact h.owned.placed.congr (FsState.used_congr hsb hBits)
  · intro b hb
    rw [hsb] at hb
    have hFits := h.ok.fits
    rw [hBits b (by omega)]
    exact h.low b hb
  · intro j hj
    by_cases hji : j = i
    · subst hji
      rw [update_self, hSize]
      exact ⟨Nat.zero_le _, fun bn hbn => absurd hbn (Nat.not_lt_zero _)⟩
    · have hl := (hLives j hji).mp hj
      rw [update_of_ne hji]
      obtain ⟨hMax, hFull⟩ := h.full j hl
      exact ⟨hMax, fun bn hbn => by rw [hSlots j _ hl]; exact hFull bn hbn⟩
  · funext j
    unfold FsState.nodes
    by_cases hj : j = i
    · subst hj
      have hLiveJ : t.Live (Function.update m j d) j ↔ d.type ≠ 0 := by
        grind [update_apply, FsState.Live]
      unfold Dinode.empty
      by_cases hType : d.type = 0
      · rw [if_pos hType, if_neg fun hl => hLiveJ.mp hl hType, update_self]
      · rw [if_neg hType, if_pos (hLiveJ.mpr hType), update_self, update_self]
        unfold Dinode.node
        rw [hSize]
        congr 1
        funext off
        unfold dataAt
        rw [slotAt_cleared hClear]
        simp
    · grind [update_apply, FsState.node_congr]

/-! ## The sections of iput

`iput` holds `itable.lock` but for the time in which it frees the inode.
-/

/-- Either the last reference to an inode without links is found, and the entry locked, or
the reference is dropped. -/
def iputCheck (ip : Ip) : FsM Bool := do
  let i ← getInode ip
  if i.ref = 1 ∧ i.valid ∧ i.di.nlink = 0 then
    acquiresleep ip
    return true
  else
    modInode ip fun i => { i with ref := i.ref - 1 }
    return false

def iputFree (ip : Ip) : FsM Unit := do
  itrunc ip
  modDi ip fun d => { d with type := 0 }
  iupdate ip
  modInode ip fun i => { i with valid := false }
  releasesleep ip

def iputDrop (ip : Ip) : FsM Unit := modInode ip fun i => { i with ref := i.ref - 1 }

lemma iput_eq (ip : Ip) :
    iput ip =
      (do
        if ← iputCheck ip then
          iputFree ip
          iputDrop ip) := by
  unfold iput iputCheck iputFree iputDrop
  simp only [bind_assoc, ite_bind, pure_bind, if_true, Bool.false_eq_true, if_false, bind_pure_unit]

section

variable (hE : ∀ e, Mild e → E e)

include hE

lemma free_spec (h : View s sb e f) (hRef : 0 < (e ip).ref) (hValid : (e ip).valid = true)
    (hClear : ∀ k < 13, (s.inode (e ip).inum).addr k = 0) (hSize : (f (e ip).inum).size = 0) {Q : Unit → FsState → Prop}
    (hQ : ∀ t, View t sb (Function.update e ip { e ip with valid := false }) (Function.update f (e ip).inum Node.free) → Q () t) :
    wp (modDi ip fun d => { d with type := 0 }) E (fun _ t => wp (iupdate ip) E (fun _ u =>
      wp (modInode ip fun i => { i with valid := false }) E Q u) t) s := by
  have hip := h.loaded hRef hValid
  have hRange := (h.table.inum ip hRef).2
  obtain ⟨i, hi⟩ : ∃ i, i = (e ip).inum := ⟨_, rfl⟩
  rw [← hi] at hip hClear hSize hRange hQ
  have hDi := h.consistent.di hip
  obtain ⟨d, hd⟩ : ∃ d, d = { s.inode i with type := 0 } := ⟨_, rfl⟩
  have hdSize : d.size = 0 := by
    have hs : (s.inode i).size.toNat = 0 := by
      rw [← hDi, h.size hRef hValid, ← hi, hSize]
    rw [hd]
    exact UInt32.toNat_inj.mp hs
  rw [wp_modDi, hDi, ← hd]
  unfold iupdate
  rw [wp_bind, wp_getInode, wp_bind, wp_read, wp_bind, wp_update]
  have hAt : (s.setDi ip d).itable ip = { s.itable ip with di := d } := FsState.setDi_itable_same
  rw [hAt, hip.inum]
  apply wp_logWrite hE
  intro l
  rw [wp_modInode]
  obtain ⟨t, ht⟩ : ∃ t, t = (((s.setDi ip d).setDinode i d).withLh l).setInode ip
    { ((s.setDi ip d).setDinode i d).itable ip with valid := false } := ⟨_, rfl⟩
  have hGoal : Q () t := by
    have htsb : t.sb = s.sb := by rw [ht]; rfl
    have htEntries : t.entries = Function.update e ip { e ip with valid := false } := by
      rw [ht, View.setInode_entries (e := e)]
      · congr 1
        change ({ ((s.setDi ip d).itable ip) with valid := false } : Inode).entry = _
        rw [hAt, ← h.entry ip]
        rfl
      · rw [← h.entries, ← FsState.setDi_entries (s := s) (d := d)]
        rfl
    have htDisk : ∀ c, c ≠ s.sb.iblock i → t.disk c = s.disk c := by
      intro c hc
      rw [ht]
      exact FsState.setBlock_disk_of_ne _ hc
    have htInode : t.inode = Function.update s.inode i d := by
      rw [ht, ← FsState.inode_setDinode (by rw [h.sb]; exact hRange)]
      rfl
    have hOld : ∀ q, s.place s.inode none (some (i, q)) = none := by
      intro q
      rw [FsState.place_none_iff]
      exact fun _ _ => slotAt_cleared hClear q
    have hTable : TableOk s.sb.ninodes t.entries := by
      rw [htEntries, h.sb]
      exact h.table.update hRef.le fun _ => ⟨hRef, rfl, rfl⟩
    have hCached : t.Cached (Function.update s.inode i d) := by
      intro jp hjRef hjValid
      by_cases hj : jp = ip
      · have hv : (t.itable ip).valid = false := by
          have he := congrFun htEntries ip
          rw [update_self] at he
          exact congrArg Entry.valid he
        rw [hj, hv] at hjValid
        cases hjValid
      · have htj : t.itable jp = s.itable jp := by
          rw [ht]
          exact (if_neg hj).trans (FsState.setDi_itable_of_ne hj)
        rw [htj] at hjRef hjValid ⊢
        have hne : (s.itable jp).inum ≠ i := by
          intro he
          apply hj
          apply h.table.unique jp ip (by rw [← h.ref]; exact hjRef) hRef
          rw [← h.inum, he, hi]
        obtain ⟨hDi', hl⟩ := h.consistent.cached jp hjRef hjValid
        rw [update_of_ne hne]
        refine ⟨hDi', ?_⟩
        unfold FsState.Live at hl ⊢
        rw [htsb, update_of_ne hne]
        exact hl
    have hdClear : ∀ k < 13, d.addr k = 0 := by
      intro k hk
      rw [hd]
      exact hClear k hk
    obtain ⟨hIntact, hNodes⟩ := h.consistent.replace (by rw [h.sb]; exact hRange) hOld hdClear hdSize htsb htDisk hTable hCached
    apply hQ t
    refine ⟨?_, htsb.trans h.sb, htEntries, ?_⟩
    · unfold Consistent
      rw [htInode]
      exact hIntact
    · unfold FsState.files
      rw [htInode, hNodes, ← h.files]
      have hEmpty : d.empty = Node.free := by
        rw [hd]
        exact if_pos rfl
      rw [hEmpty]
      rfl
  rw [ht] at hGoal
  exact hGoal

omit hE in
lemma iputDrop_spec (h : View s sb e f) (hRef : 0 < (e ip).ref) :
    wp (iputDrop ip) E (fun _ t => SameLog s t ∧ View t sb (Function.update e ip { e ip with ref := (e ip).ref - 1 }) f) s := by
  unfold iputDrop
  rw [wp_modInode]
  refine ⟨.rfl, ?_⟩
  apply h.touch hRef
  · rw [← h.entry ip]
    rfl
  · exact ⟨by simp only; omega, rfl, rfl⟩
  · exact ⟨rfl, id⟩

omit hE in
lemma iputCheck_spec (h : View s sb e f) (hRef : 0 < (e ip).ref)
    (hUnlocked : (e ip).ref = 1 → (e ip).valid = true → (e ip).locked = false) :
    wp (iputCheck ip) E (fun r t => SameLog s t ∧
      if r = true then
        ((e ip).ref = 1 ∧ (e ip).valid = true ∧ (f (e ip).inum).nlink = 0) ∧
          View t sb (Function.update e ip { e ip with locked := true }) f
      else
        ¬ ((e ip).ref = 1 ∧ (e ip).valid = true ∧ (f (e ip).inum).nlink = 0) ∧
          View t sb (Function.update e ip { e ip with ref := (e ip).ref - 1 }) f) s := by
  unfold iputCheck
  rw [wp_bind, wp_getInode]
  have hCond : ((s.itable ip).ref = 1 ∧ (s.itable ip).valid = true ∧ (s.itable ip).di.nlink = 0) ↔
      ((e ip).ref = 1 ∧ (e ip).valid = true ∧ (f (e ip).inum).nlink = 0) := by
    rw [h.ref, h.valid]
    constructor
    · rintro ⟨hr, hv, hn⟩
      exact ⟨hr, hv, by rwa [← h.nlink hRef hv]⟩
    · rintro ⟨hr, hv, hn⟩
      exact ⟨hr, hv, by rwa [h.nlink hRef hv]⟩
  rw [wp_ite, hCond]
  constructor
  · intro hc
    unfold acquiresleep
    rw [wp_bind, wp_bind, wp_getInode, if_neg (by rw [h.locked, hUnlocked hc.1 hc.2.1]; decide), wp_modInode, wp_pure,
      if_pos rfl]
    refine ⟨.rfl, hc, ?_⟩
    apply h.touch hRef
    · rw [← h.entry ip]
      rfl
    · exact ⟨hRef.le, rfl, rfl⟩
    · exact ⟨rfl, id⟩
  · intro hc
    apply wp_call (iputDrop_spec h hRef)
    rintro _ t ⟨hLog, ht⟩
    rw [wp_pure, if_neg Bool.false_ne_true]
    exact ⟨hLog, hc, ht⟩

lemma iputFree_spec (h : View s sb e f) (hRef : 0 < (e ip).ref) (hValid : (e ip).valid = true) :
    wp (iputFree ip) E (fun _ t => View t sb (Function.update e ip { e ip with valid := false, locked := false })
      (Function.update f (e ip).inum Node.free)) s := by
  unfold iputFree releasesleep
  simp only [wp_bind]
  apply wp_post (itrunc_spec hE h.consistent (h.loaded hRef hValid))
  rintro _ t ⟨hAlters, hClear⟩
  apply free_spec hE (h.of_alters hAlters) hRef hValid hClear (by simp)
  intro u hu
  rw [update_idem] at hu
  rw [wp_modInode]
  have hTouch := hu.touch (x := { u.itable ip with locked := false })
    (y := { e ip with valid := false, locked := false })
    (show 0 < (Function.update e ip _ ip).ref by rw [update_self]; exact hRef)
    (by
      have he := hu.entry ip
      rw [update_self] at he
      change ({ (u.itable ip).entry with locked := false } : Entry) = _
      rw [he])
    (by rw [update_self]; exact ⟨hRef.le, rfl, rfl⟩) ⟨rfl, id⟩
  rwa [update_idem] at hTouch

end

lemma setDinode_view (h : View s sb e f) (hi : i < sb.ninodes) (hFree : (f i).type = 0) (hType : d.type ≠ 0)
    (hClear : ∀ k < 13, d.addr k = 0) (hSize : d.size = 0) :
    View (s.setDinode i d) sb e (Function.update f i ⟨d.type, d.major, d.minor, d.nlink, 0, fun _ => 0⟩) := by
  have hIn : i < s.sb.ninodes := by rwa [h.sb]
  have hInode : s.inode i = s.dinode i := if_pos hIn
  have hZero : (s.inode i).type = 0 := by
    rw [hInode]
    exact (h.type_eq_zero hi).mp hFree
  have hNot : ¬ s.Live s.inode i := fun hl => hl.2 hZero
  have htInode := FsState.inode_setDinode (d := d) hIn
  obtain ⟨hIntact, hNodes⟩ := h.consistent.replace (t := s.setDinode i d) hIn
    (fun q => FsState.place_none_iff.mpr fun hl => absurd hl hNot) hClear hSize rfl
    (fun c hc => FsState.setBlock_disk_of_ne _ hc) h.consistent.table (by
      intro jp hRef hValid
      obtain ⟨hDi, hl⟩ := h.consistent.cached jp hRef hValid
      have hne : (s.itable jp).inum ≠ i := fun he => hNot (he ▸ hl)
      change (s.itable jp).di = Function.update s.inode i _ (s.itable jp).inum ∧ _
      rw [update_of_ne hne]
      refine ⟨hDi, ?_⟩
      unfold FsState.Live at hl ⊢
      change (s.itable jp).inum < s.sb.ninodes ∧ (Function.update s.inode i _ (s.itable jp).inum).type ≠ 0
      rw [update_of_ne hne]
      exact hl)
  refine ⟨?_, h.sb, h.entries, ?_⟩
  · unfold Consistent
    rw [htInode]
    exact hIntact
  · unfold FsState.files
    rw [htInode, hNodes, ← h.files, show d.empty = _ from if_neg hType]
    rfl

lemma claim_view (h : View s sb e f) (hi : i < sb.ninodes) (hFree : (f i).type = 0) {type : UInt16} (hType : type ≠ 0) :
    View (s.setDinode i { Dinode.zero with type := type }) sb e (Function.update f i ⟨type, 0, 0, 0, 0, fun _ => 0⟩) := by
  apply setDinode_view h hi hFree (d := { Dinode.zero with type := type }) hType _ rfl
  intro k hk
  unfold Dinode.addr
  rw [dif_pos hk]
  rfl

end Xv6K230.Fs
