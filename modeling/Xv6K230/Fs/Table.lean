import Xv6K230.Fs.Truncate

/-! # The inode table

Taking, dropping, locking and loading entries, and allocating and freeing inodes, between
states in which table and disk agree.
-/

namespace Xv6K230.Fs

open Prog
open Function (update_of_ne update_self)

variable {E : Stop → Prop} {s t u : FsState} {sb : Superblock} {e : Ip → Entry} {f : Nat → Node} {ip jp : Ip} {i k : Nat}

def SameLog (s t : FsState) : Prop := t.lh = s.lh ∧ t.outstanding = s.outstanding

lemma SameLog.rfl : SameLog s s := ⟨Eq.refl _, Eq.refl _⟩

structure View (s : FsState) (sb : Superblock) (e : Ip → Entry) (f : Nat → Node) : Prop where
  consistent : Consistent s
  sb : s.sb = sb
  entries : s.entries = e
  files : s.files = f

namespace View

lemma of_alters (h : View s sb e f) {n : Node} (ha : Alters s t i n) : View t sb e (Function.update f i n) :=
  ⟨ha.consistent, ha.sb.trans h.sb, ha.entries.trans h.entries, by rw [ha.files, h.files]⟩

lemma table (h : View s sb e f) : TableOk sb.ninodes e := by
  have hTable := h.consistent.table
  rwa [h.sb, h.entries] at hTable

lemma entry (h : View s sb e f) (ip : Ip) : (s.itable ip).entry = e ip := congrFun h.entries ip

lemma ref (h : View s sb e f) (ip : Ip) : (s.itable ip).ref = (e ip).ref := congrArg Entry.ref (h.entry ip)

lemma inum (h : View s sb e f) (ip : Ip) : (s.itable ip).inum = (e ip).inum := congrArg Entry.inum (h.entry ip)

lemma valid (h : View s sb e f) (ip : Ip) : (s.itable ip).valid = (e ip).valid := congrArg Entry.valid (h.entry ip)

lemma locked (h : View s sb e f) (ip : Ip) : (s.itable ip).locked = (e ip).locked := congrArg Entry.locked (h.entry ip)

lemma dev (h : View s sb e f) (ip : Ip) : (s.itable ip).dev = (e ip).dev := congrArg Entry.dev (h.entry ip)

lemma loaded (h : View s sb e f) (hRef : 0 < (e ip).ref) (hValid : (e ip).valid = true) : Loaded s ip (e ip).inum :=
  ⟨by rwa [h.ref], by rwa [h.valid], h.inum ip⟩

lemma type_eq_zero (h : View s sb e f) (hi : i < sb.ninodes) : (f i).type = 0 ↔ (s.dinode i).type = 0 := by
  have hInode : s.inode i = s.dinode i := if_pos (by rwa [h.sb])
  rw [← h.files, ← hInode]
  by_cases hLive : s.Live s.inode i
  · rw [FsState.files_of_live hLive]
    rfl
  · rw [show s.files i = Node.free from if_neg hLive]
    have hType : (s.inode i).type = 0 := by
      by_contra hne
      exact hLive ⟨by rwa [h.sb], hne⟩
    exact ⟨fun _ => hType, fun _ => rfl⟩

lemma live (h : View s sb e f) (hRef : 0 < (e ip).ref) (hValid : (e ip).valid = true) : (f (e ip).inum).type ≠ 0 := by
  have hLive := h.consistent.live (h.loaded hRef hValid)
  rw [Ne, h.type_eq_zero (h.table.inum ip hRef).2]
  have hInode : s.inode (e ip).inum = s.dinode (e ip).inum := if_pos hLive.1
  rw [← hInode]
  exact hLive.2

lemma nlink (h : View s sb e f) (hRef : 0 < (e ip).ref) (hValid : (e ip).valid = true) :
    (s.itable ip).di.nlink = (f (e ip).inum).nlink := by
  rw [← h.files, h.consistent.file (h.loaded hRef hValid)]
  rfl

lemma type (h : View s sb e f) (hRef : 0 < (e ip).ref) (hValid : (e ip).valid = true) :
    (s.itable ip).di.type = (f (e ip).inum).type := by
  rw [← h.files, h.consistent.file (h.loaded hRef hValid)]
  rfl

lemma size (h : View s sb e f) (hRef : 0 < (e ip).ref) (hValid : (e ip).valid = true) :
    (s.itable ip).di.size.toNat = (f (e ip).inum).size := by
  rw [← h.files, h.consistent.file (h.loaded hRef hValid)]
  rfl

lemma withLh (h : View s sb e f) (l : List Nat) : View (s.withLh l) sb e f :=
  ⟨Intact.withLh h.consistent l, h.sb, h.entries, h.files⟩

lemma log (h : View s sb e f) (n : Int) (l : List Nat) : View { s with outstanding := n, lh := l } sb e f := by
  have hc := h.consistent
  exact ⟨⟨hc.ok, ⟨hc.owned.placed, hc.owned.low⟩, hc.full, hc.table, hc.cached⟩, h.sb, h.entries, h.files⟩

lemma setInode_entries (h : s.entries = e) (x : Inode) : (s.setInode ip x).entries = Function.update e ip x.entry := by
  funext jp
  rw [← h]
  by_cases hj : jp = ip
  · subst hj
    rw [update_self]
    exact congrArg Inode.entry (if_pos rfl)
  · rw [update_of_ne hj]
    exact congrArg Inode.entry (if_neg hj)

lemma setInode (h : View s sb e f) {x : Inode} (hTable : TableOk sb.ninodes (Function.update e ip x.entry))
    (hCached : 0 < x.ref → x.valid = true → x.di = s.inode x.inum ∧ s.Live s.inode x.inum) :
    View (s.setInode ip x) sb (Function.update e ip x.entry) f := by
  refine ⟨?_, h.sb, setInode_entries h.entries x, h.files⟩
  have hc := h.consistent
  refine ⟨hc.ok, ⟨hc.owned.placed, hc.owned.low⟩, hc.full, ?_, ?_⟩
  · rw [setInode_entries h.entries x]
    change TableOk s.sb.ninodes _
    rw [h.sb]
    exact hTable
  · intro jp
    by_cases hj : jp = ip
    · subst hj
      rw [show (s.setInode jp x).itable jp = x from if_pos rfl]
      exact hCached
    · rw [show (s.setInode ip x).itable jp = s.itable jp from if_neg hj]
      exact hc.cached jp

end View

namespace TableOk

variable {n : Nat} {x : Entry}

lemma update (h : TableOk n e) (hRef : 0 ≤ x.ref) (hSame : 0 < x.ref → 0 < (e ip).ref ∧ x.dev = (e ip).dev ∧ x.inum = (e ip).inum) :
    TableOk n (Function.update e ip x) := by
  have hAt : ∀ jp, (Function.update e ip x jp = e jp ∧ jp ≠ ip) ∨ (jp = ip ∧ Function.update e ip x jp = x) := by
    grind
  refine ⟨fun jp => ?_, fun jp hjp => ?_, fun jp hjp => ?_, fun jp kp hjp hkp hEq => ?_⟩
  · rcases hAt jp with ⟨he, -⟩ | ⟨rfl, he⟩ <;> rw [he]
    · exact h.nonneg jp
    · exact hRef
  · rcases hAt jp with ⟨he, -⟩ | ⟨rfl, he⟩ <;> rw [he] at hjp ⊢
    · exact h.dev jp hjp
    · rw [(hSame hjp).2.1]
      exact h.dev jp (hSame hjp).1
  · rcases hAt jp with ⟨he, -⟩ | ⟨rfl, he⟩ <;> rw [he] at hjp ⊢
    · exact h.inum jp hjp
    · rw [(hSame hjp).2.2]
      exact h.inum jp (hSame hjp).1
  · rcases hAt jp with ⟨he, -⟩ | ⟨rfl, he⟩ <;> rw [he] at hjp hEq <;>
      rcases hAt kp with ⟨he', -⟩ | ⟨rfl, he'⟩ <;> rw [he'] at hkp hEq
    · exact h.unique jp kp hjp hkp hEq
    · exact h.unique jp kp hjp (hSame hkp).1 (hEq.trans (hSame hkp).2.2)
    · exact h.unique jp kp (hSame hjp).1 hkp ((hSame hjp).2.2.symm.trans hEq)

lemma take (h : TableOk n e) (hRef : 0 < x.ref) (hDev : x.dev = rootdev) (hInum : 0 < x.inum ∧ x.inum < n)
    (hFresh : ∀ jp, 0 < (e jp).ref → (e jp).inum ≠ x.inum) : TableOk n (Function.update e ip x) := by
  have hAt : ∀ jp, (Function.update e ip x jp = e jp ∧ jp ≠ ip) ∨ (jp = ip ∧ Function.update e ip x jp = x) := by
    grind
  refine ⟨fun jp => ?_, fun jp hjp => ?_, fun jp hjp => ?_, fun jp kp hjp hkp hEq => ?_⟩
  · rcases hAt jp with ⟨he, -⟩ | ⟨rfl, he⟩ <;> rw [he]
    · exact h.nonneg jp
    · exact hRef.le
  · rcases hAt jp with ⟨he, -⟩ | ⟨rfl, he⟩ <;> rw [he] at hjp ⊢
    · exact h.dev jp hjp
    · exact hDev
  · rcases hAt jp with ⟨he, -⟩ | ⟨rfl, he⟩ <;> rw [he] at hjp ⊢
    · exact h.inum jp hjp
    · exact hInum
  · rcases hAt jp with ⟨he, -⟩ | ⟨rfl, he⟩ <;> rw [he] at hjp hEq <;>
      rcases hAt kp with ⟨he', -⟩ | ⟨rfl, he'⟩ <;> rw [he'] at hkp hEq
    · exact h.unique jp kp hjp hkp hEq
    · exact absurd hEq (hFresh jp hjp)
    · exact absurd hEq.symm (hFresh kp hkp)

end TableOk

/-- A reference to an inode in an unused table. -/
lemma Consistent.enter (h : Consistent s) (hUnused : ∀ jp, (s.entries jp).ref = 0) (ip : Ip)
    (hi : 0 < i ∧ i < s.sb.ninodes) (d : Dinode) : Consistent (s.setInode ip ⟨rootdev, i, 1, false, false, d⟩) := by
  have hView : View s s.sb s.entries s.files := ⟨h, rfl, rfl, rfl⟩
  have hTable : TableOk s.sb.ninodes (Function.update s.entries ip ⟨rootdev, i, 1, false, false⟩) := by
    apply hView.table.take Int.one_pos rfl hi
    intro jp hRef
    rw [hUnused] at hRef
    exact absurd hRef (lt_irrefl _)
  apply (hView.setInode hTable _).consistent
  intro _ hValid
  cases hValid

lemma View.touch (h : View s sb e f) (hRef : 0 < (e ip).ref) {x : Inode} {y : Entry} (hEntry : x.entry = y)
    (hy : 0 ≤ y.ref ∧ y.dev = (e ip).dev ∧ y.inum = (e ip).inum)
    (hx : x.di = (s.itable ip).di ∧ (x.valid = true → (s.itable ip).valid = true)) :
    View (s.setInode ip x) sb (Function.update e ip y) f := by
  subst hEntry
  apply h.setInode
  · exact h.table.update hy.1 fun _ => ⟨hRef, hy.2⟩
  · intro _ hValid
    have hInum : x.inum = (s.itable ip).inum := by
      rw [h.inum]
      exact hy.2.2
    rw [hx.1, hInum]
    exact h.consistent.cached ip (by rw [h.ref]; exact hRef) (hx.2 hValid)

inductive Took (e : Ip → Entry) (i : Nat) (ip : Ip) : (Ip → Entry) → Prop where
  | again (hRef : 0 < (e ip).ref) (hInum : (e ip).inum = i) :
      Took e i ip (Function.update e ip { e ip with ref := (e ip).ref + 1 })
  | first (hRef : (e ip).ref = 0) (hNone : ∀ jp, 0 < (e jp).ref → (e jp).inum ≠ i) :
      Took e i ip (Function.update e ip { e ip with dev := rootdev, inum := i, ref := 1, valid := false })

namespace Took

variable {e' : Ip → Entry}

lemma ref (h : Took e i ip e') : (e' ip).ref = (e ip).ref + 1 := by
  cases h with
  | again => rw [update_self]
  | first hRef => rw [update_self, hRef]; rfl

lemma pos (h : Took e i ip e') (hTable : TableOk k e) : 0 < (e' ip).ref := by
  rw [h.ref]
  have := hTable.nonneg ip
  omega

lemma inum (h : Took e i ip e') : (e' ip).inum = i := by
  cases h with
  | again hRef hInum => rw [update_self, ← hInum]
  | first => rw [update_self]

lemma of_ne (h : Took e i ip e') (hj : jp ≠ ip) : e' jp = e jp := by
  cases h <;> rw [update_of_ne hj]

lemma locked (h : Took e i ip e') (jp : Ip) : (e' jp).locked = (e jp).locked := by
  by_cases hj : jp = ip
  · subst hj
    cases h <;> rw [update_self]
  · rw [h.of_ne hj]

lemma same (h : Took e i ip e') (hRef : 0 < (e jp).ref) : e' jp = { e jp with ref := (e' jp).ref } := by
  by_cases hj : jp = ip
  · subst hj
    cases h with
    | again => rw [update_self]
    | first hZero => omega
  · rw [h.of_ne hj]

end Took

section

lemma findInode_some {tbl : Ip → Inode} {dev inum : Nat} (h : findInode tbl dev inum = some ip) :
    0 < (tbl ip).ref ∧ (tbl ip).dev = dev ∧ (tbl ip).inum = inum := by
  have := List.find?_some h
  simpa [and_assoc] using this

lemma findInode_none {tbl : Ip → Inode} {dev inum : Nat} (h : findInode tbl dev inum = none) (jp : Ip)
    (hRef : 0 < (tbl jp).ref) (hDev : (tbl jp).dev = dev) : (tbl jp).inum ≠ inum := by
  have hAll := List.find?_eq_none.mp h jp (List.mem_finRange jp)
  intro he
  apply hAll
  simp [hRef, hDev, he]

lemma emptySlot_some {tbl : Ip → Inode} (h : emptySlot tbl = some ip) : (tbl ip).ref = 0 := by
  simpa using List.find?_some h

lemma wp_modInode (g : Inode → Inode) {Q : Unit → FsState → Prop} :
    wp (modInode ip g) E Q s ↔ Q () (s.setInode ip (g (s.itable ip))) := wp_update _

lemma idup_spec (h : View s sb e f) (hRef : 0 < (e ip).ref) :
    wp (idup ip) E (fun r t => r = ip ∧ SameLog s t ∧ ∃ e', Took e (e ip).inum ip e' ∧ View t sb e' f) s := by
  unfold idup
  rw [wp_bind, wp_modInode, wp_pure]
  refine ⟨rfl, .rfl, _, .again hRef rfl, ?_⟩
  apply h.touch hRef
  · rw [← h.entry ip]
    rfl
  · exact ⟨by simp only; omega, rfl, rfl⟩
  · exact ⟨rfl, id⟩

variable (hE : ∀ e, Mild e → LogFits e → E e)

include hE

lemma beginOp_spec (h : View s sb e f) : wp beginOp E (fun _ t => View t sb e f) s := by
  unfold beginOp
  rw [wp_bind, wp_read, wp_ite]
  constructor
  · exact fun _ => (wp_stop _).mpr (hE _ (by simp [Mild]) (by simp [LogFits]))
  · exact fun _ => (wp_update _).mpr (h.log _ s.lh)

omit hE in
lemma endOp_spec (h : View s sb e f) : wp endOp E (fun _ t => View t sb e f) s := by
  unfold endOp
  rw [wp_update]
  split
  · exact h.log _ _
  · exact h.log _ s.lh

lemma iget_spec (h : View s sb e f) (hi : 0 < i ∧ i < sb.ninodes) :
    wp (iget rootdev i) E (fun ip t => SameLog s t ∧ ∃ e', Took e i ip e' ∧ View t sb e' f) s := by
  unfold iget
  rw [wp_bind, wp_read]
  cases hFind : findInode s.itable rootdev i with
  | some ip =>
    obtain ⟨hRef, -, hInum⟩ := findInode_some hFind
    rw [h.ref] at hRef
    rw [h.inum] at hInum
    apply wp_post (idup_spec h hRef)
    rintro _ t ⟨rfl, hLog, hTook⟩
    rw [hInum] at hTook
    exact ⟨hLog, hTook⟩
  | none =>
    cases hEmpty : emptySlot s.itable with
    | none => exact (wp_stop _).mpr (hE _ (by simp [Mild]) (by simp [LogFits]))
    | some ip =>
      have hZero := emptySlot_some hEmpty
      rw [h.ref] at hZero
      have hNone : ∀ jp, 0 < (e jp).ref → (e jp).inum ≠ i := by
        intro jp hRef
        rw [← h.inum]
        refine findInode_none hFind jp (by rw [h.ref]; exact hRef) ?_
        rw [h.dev]
        exact h.table.dev jp hRef
      rw [wp_bind, wp_modInode, wp_pure]
      refine ⟨.rfl, _, .first hZero hNone, ?_⟩
      have hEntry : ({ s.itable ip with dev := rootdev, inum := i, ref := 1, valid := false } : Inode).entry =
          { e ip with dev := rootdev, inum := i, ref := 1, valid := false } := by
        rw [← h.entry ip]
        rfl
      rw [← hEntry]
      apply h.setInode
      · rw [hEntry]
        exact h.table.take Int.one_pos rfl hi hNone
      · intro _ hValid
        cases hValid

/-- The table after entry `ip` has been locked and loaded. -/
def lockedTable (e : Ip → Entry) (ip : Ip) : Ip → Entry := Function.update e ip { e ip with locked := true, valid := true }

def unlockedTable (e : Ip → Entry) (ip : Ip) : Ip → Entry := Function.update e ip { e ip with locked := false }

lemma ilock_spec (h : View s sb e f) (hRef : 0 < (e ip).ref)
    (hNoType : (e ip).valid = false → (f (e ip).inum).type = 0 → E .ilockNoType) :
    wp (ilock ip) E (fun _ t => SameLog s t ∧ (e ip).locked = false ∧ View t sb (lockedTable e ip) f ∧
      (f (e ip).inum).type ≠ 0) s := by
  obtain ⟨-, hRange⟩ := h.table.inum ip hRef
  have hStopped : E .asleep := hE _ (by simp [Mild]) (by simp [LogFits])
  have hTable : TableOk sb.ninodes (lockedTable e ip) := h.table.update hRef.le fun _ => ⟨hRef, rfl, rfl⟩
  unfold ilock acquiresleep
  rw [wp_bind, wp_getInode, if_neg (by rw [h.ref]; omega), wp_bind, wp_bind, wp_getInode, wp_ite]
  constructor
  · exact fun _ => (wp_stop _).mpr hStopped
  · intro hUnlocked
    have hUnlocked' : (e ip).locked = false := by
      rw [← h.locked]
      simpa using hUnlocked
    rw [wp_modInode]
    obtain ⟨x, hx⟩ : ∃ x : Inode, x = { s.itable ip with locked := true } := ⟨_, rfl⟩
    have hEntry : x.entry = { e ip with locked := true } := by
      rw [hx, ← h.entry ip]
      rfl
    have hDinode : (s.setInode ip x).dinode (s.itable ip).inum = s.dinode (e ip).inum := by
      rw [h.inum]
      rfl
    rw [← hx]
    by_cases hValid : (e ip).valid = true
    · rw [h.valid, hValid]
      apply wp_val
      refine ⟨.rfl, hUnlocked', ?_, h.live hRef hValid⟩
      have hSame : lockedTable e ip = Function.update e ip x.entry := by
        unfold lockedTable
        rw [hEntry, ← hValid]
      rw [hSame]
      refine h.touch hRef rfl ?_ ?_
      · rw [hEntry]
        exact ⟨hRef.le, rfl, rfl⟩
      · rw [hx]
        exact ⟨rfl, id⟩
    · rw [Bool.not_eq_true] at hValid
      rw [h.valid, hValid]
      simp only [Bool.not_false, if_true, wp_bind, wp_read, id, wp_modInode, hDinode]
      rw [wp_ite]
      constructor
      · intro hType
        exact (wp_stop _).mpr (hNoType hValid ((h.type_eq_zero hRange).mpr hType))
      · intro hType
        apply wp_val
        refine ⟨.rfl, hUnlocked', ?_, (h.type_eq_zero hRange).not.mpr hType⟩
        have hAt : (s.setInode ip x).itable ip = x := if_pos rfl
        rw [hAt]
        obtain ⟨y, hy⟩ : ∃ y : Inode, y = { x with di := (s.setInode ip x).dinode x.inum, valid := true } := ⟨_, rfl⟩
        have hTwice : (s.setInode ip x).setInode ip y = s.setInode ip y := by
          unfold FsState.setInode
          congr 1
          funext jp
          by_cases hj : jp = ip <;> simp [hj]
        have hyEntry : y.entry = { e ip with locked := true, valid := true } := by
          rw [hy, hx, ← h.entry ip]
          rfl
        have hyTable : lockedTable e ip = Function.update e ip y.entry := by
          unfold lockedTable
          rw [hyEntry]
        rw [← hy, hTwice, hyTable]
        apply h.setInode
        · rwa [← hyTable]
        · intro _ _
          have hInode : s.inode (e ip).inum = s.dinode (e ip).inum := if_pos (by rw [h.sb]; exact hRange)
          have hyInum : y.inum = (e ip).inum := congrArg Entry.inum hyEntry
          have hyDi : y.di = s.dinode (e ip).inum := by
            rw [← hDinode, hy, hx]
          rw [hyInum, hyDi]
          exact ⟨hInode.symm, by rw [h.sb]; exact hRange, by rw [hInode]; exact hType⟩

lemma iunlock_spec (h : View s sb e f) (hRef : 0 < (e ip).ref) :
    wp (iunlock ip) E (fun _ t => SameLog s t ∧ View t sb (unlockedTable e ip) f) s := by
  unfold iunlock releasesleep
  rw [wp_bind, wp_getInode, wp_ite]
  constructor
  · exact fun _ => (wp_stop _).mpr (hE _ (by simp [Mild]) (by simp [LogFits]))
  · intro _
    rw [wp_modInode]
    refine ⟨.rfl, ?_⟩
    apply h.touch hRef
    · rw [← h.entry ip]
      rfl
    · exact ⟨hRef.le, rfl, rfl⟩
    · exact ⟨rfl, id⟩

end

end Xv6K230.Fs
