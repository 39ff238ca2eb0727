import Xv6K230.Names.Sections

/-! # What can happen to the files

The sections of the calls on the name space and of `write` change the files in few ways.
-/

namespace Xv6K230.Names

open Fs
open Function (update update_of_ne update_self)

/-- One change of the files of a file system with `N` inodes, while somebody holds the
references `l`; `names` tells whether directories may change. -/
inductive Change (names : Bool) (N : Nat) (l : Multiset Ref) (f : Nat → Node) : (Nat → Node) → Prop where
  | free (i : Nat) (alone : ∀ r ∈ l, r.inum ≠ i) (unlinked : (f i).nlink = 0) : Change names N l f (update f i Node.free)
  | orphan (naming : names = true) (i : Nat) (n : Node) (unused : (f i).type = 0) (used : n.type ≠ 0) (unlinked : n.nlink = 0) (range : n.InRange N)
      (held : ∃ r ∈ l, r.inum = i) : Change names N l f (update f i n)
  | create (naming : names = true) (dp i off : Nat) (name : Text) (type : UInt16) (major minor : Int16) (new : type ≠ 0) (unused : (f i).type = 0)
      (range : 0 < i ∧ i < N ∧ dp < N) (dir : (f dp).type = tDir) (absent : ∀ o, ¬ (f dp).Names o name) (vacant : (f dp).Vacant off) :
      Change names N l f (created f dp i off name type major minor)
  | link (naming : names = true) (dp i off : Nat) (name : Text) (range : 0 < i ∧ i < N) (dir : (f dp).type = tDir)
      (absent : ∀ o, ¬ (f dp).Names o name) (vacant : (f dp).Vacant off) :
      Change names N l f (update f dp ((f dp).put off (entry name i)))
  | clear (naming : names = true) (dp off : Nat) (name : Text) (isDir : Bool) (named : (f dp).Names off name)
      (proper : key name ≠ key [46] ∧ key name ≠ key [46, 46]) : Change names N l f (cleared f dp off isDir)
  | relink (i : Nat) (g : Int16 → Int16) : Change names N l f (relinked f i g)
  | rewrite (i size : Nat) (data : Nat → UInt8) (plain : (f i).type ≠ tDir) :
      Change names N l f (update f i { f i with size := size, data := data })

abbrev Changes (names : Bool) (N : Nat) (l : Multiset Ref) : (Nat → Node) → (Nat → Node) → Prop :=
  Relation.ReflTransGen (Change names N l)

section

variable {names : Bool} {N : Nat} {l l' : Multiset Ref} {f f1 f' : Nat → Node} {r : Ref} {type : UInt16}

lemma Drops.changes (h : Drops l' r f f') (hl : ∀ r' ∈ l, r' ∈ l') (hip : ∀ r' ∈ l, r'.inum = r.inum → r'.ip = r.ip) :
    Changes names N l f f' := by
  cases h with
  | keep => exact .refl
  | free hAlone hLinks => exact .single (.free r.inum (fun r' hr' hInum => hAlone r' (hl r' hr') (hip r' hr' hInum)) hLinks)

lemma Fails.changes (h : Fails N l type f f') (hType : type ≠ 0) : Changes true N l f f' := by
  cases h with
  | clean => exact .refl
  | orphan i n hUnused hNew hLinks hRange hHeld => exact .single (.orphan rfl i n hUnused (hNew ▸ hType) hLinks hRange hHeld)

lemma Change.naming (h : Change names N l f f') : Change true N l f f' := by
  cases h with
  | free i hAlone hLinks => exact .free i hAlone hLinks
  | orphan _ i n h1 h2 h3 h4 h5 => exact .orphan rfl i n h1 h2 h3 h4 h5
  | create _ dp i off name type major minor h1 h2 h3 h4 h5 h6 => exact .create rfl dp i off name type major minor h1 h2 h3 h4 h5 h6
  | link _ dp i off name h1 h2 h3 h4 => exact .link rfl dp i off name h1 h2 h3 h4
  | clear _ dp off name isDir h1 h2 => exact .clear rfl dp off name isDir h1 h2
  | relink i g => exact .relink i g
  | rewrite i size data hPlain => exact .rewrite i size data hPlain

/-! ## Types -/

lemma created_type {dp i off : Nat} {name : Text} {major minor : Int16} (hDir : (f dp).type = tDir) (hFree : (f i).type = 0)
    {j : Nat} : (created f dp i off name type major minor j).type = if j = i then type else (f j).type := by
  have hne : dp ≠ i := by
    rintro rfl
    rw [hDir] at hFree
    cases hFree
  unfold created
  by_cases hj : j = dp
  · subst hj
    rw [update_self, if_neg hne]
    rfl
  · rw [update_of_ne hj]
    by_cases hi : j = i
    · subst hi
      rw [update_self, if_pos rfl]
      unfold newNode
      split <;> rfl
    · rw [update_of_ne hi, if_neg hi]

/-- Only inodes that nobody refers to become free, and only free ones get another type. -/
lemma Change.type_eq (h : Change names N l f f') (hr : r ∈ l) (hUsed : (f r.inum).type ≠ 0) : (f' r.inum).type = (f r.inum).type := by
  cases h with
  | free i hAlone _ => rw [update_of_ne (hAlone r hr)]
  | orphan _ i n hUnused =>
    rw [update_of_ne]
    rintro rfl
    exact hUsed hUnused
  | create _ dp i off name type major minor _ hUnused _ hDir =>
    rw [created_type hDir hUnused, if_neg]
    rintro rfl
    exact hUsed hUnused
  | link _ dp i off name =>
    by_cases hi : r.inum = dp
    · rw [hi, update_self]
      rfl
    · rw [update_of_ne hi]
  | clear _ dp off name isDir =>
    unfold cleared
    by_cases hi : r.inum = dp
    · rw [hi, update_self]
      rfl
    · rw [update_of_ne hi]
  | relink i g =>
    unfold relinked
    by_cases hi : r.inum = i
    · rw [hi, update_self]
    · rw [update_of_ne hi]
  | rewrite i size data =>
    grind

lemma Changes.type_eq (h : Changes names N l f f') (hr : r ∈ l) (hUsed : (f r.inum).type ≠ 0) : (f' r.inum).type = (f r.inum).type := by
  induction h with
  | refl => rfl
  | tail _ hStep ih => rw [hStep.type_eq hr (by rwa [ih]), ih]

/-! ## Directories -/

def DirsInRange (N : Nat) (f : Nat → Node) : Prop := ∀ i, (f i).type = tDir → (f i).InRange N

lemma DirsInRange.update (h : DirsInRange N f) {i : Nat} {n : Node} (hn : n.type = tDir → n.InRange N) :
    DirsInRange N (update f i n) := by
  intro j hj
  by_cases hi : j = i
  · subst hi
    rw [update_self] at hj ⊢
    exact hn hj
  · rw [update_of_ne hi] at hj ⊢
    exact h j hj

lemma dirsInRange_of_check {s : FsState}
    (h : ∀ i < s.sb.ninodes, (s.files i).type = tDir → ∀ j < (s.files i).size / 16,
      ((s.files i).dirent (16 * j)).inum.toNat < s.sb.ninodes) :
    DirsInRange s.sb.ninodes s.files := by
  intro i hDir off hOff
  have hLive : s.Live s.inode i := by
    by_contra hNot
    unfold FsState.files FsState.nodes at hDir
    rw [if_neg hNot] at hDir
    cases hDir
  obtain ⟨hMod, hEnd⟩ := hOff
  have hAt := h i hLive.1 hDir (off / 16) (by omega)
  rwa [Nat.mul_div_cancel' (Nat.dvd_of_mod_eq_zero hMod)] at hAt

lemma inRange_clear {n : Node} {off : Nat} (h : n.InRange N) (hSlot : n.Slot off) (hN : 0 < N) :
    (n.put off (List.replicate 16 0)).InRange N := by
  have hLow : off ≤ n.size := by
    have hEnd := hSlot.2
    omega
  intro o ho
  have hMod := ho.1
  rw [Node.slot_put hSlot.1 hLow] at ho
  rw [Node.dirent_put List.length_replicate hSlot.1 hMod]
  split
  · exact hN
  · rename_i hne
    exact h o (ho.resolve_right hne)

lemma inRange_newNode {major minor : Int16} {i dp : Nat} (hi : i < N) (hdp : dp < N) (hShort : N ≤ 2 ^ 16) :
    (newNode type major minor i dp).InRange N := by
  have hEmpty : (⟨type, major, minor, 1, 0, fun _ => 0⟩ : Node).InRange N := by
    rintro off ⟨-, hEnd⟩
    simp at hEnd
  unfold newNode
  split
  · have hOne : (Node.put ⟨type, major, minor, 1, 0, fun _ => 0⟩ 0 (entry [46] i)).InRange N :=
      inRange_put hEmpty rfl (Nat.zero_le _) hi hShort
    exact inRange_put hOne rfl (le_refl 16) hdp hShort
  · exact hEmpty

lemma Change.inRange (h : Change names N l f f') (hShort : N ≤ 2 ^ 16) (hN : 0 < N) (hf : DirsInRange N f) : DirsInRange N f' := by
  cases h with
  | free i => exact hf.update (fun h => by cases h)
  | orphan _ i n _ _ _ hRange => exact hf.update fun _ => hRange
  | create _ dp i off name type major minor _ _ hRange hDir _ hVacant =>
    refine (hf.update fun _ => inRange_newNode hRange.2.1 hRange.2.2 hShort).update fun _ => ?_
    exact inRange_put (hf dp hDir) hVacant.aligned hVacant.low hRange.2.1 hShort
  | link _ dp i off name hRange hDir _ hVacant =>
    exact hf.update fun _ => inRange_put (hf dp hDir) hVacant.aligned hVacant.low hRange.2 hShort
  | clear _ dp off name isDir hNamed =>
    exact hf.update fun hDir => inRange_clear (hf dp hDir) hNamed.1 hN
  | relink i g => exact hf.update fun hDir => hf i hDir
  | rewrite i size data hPlain => exact hf.update fun hDir => absurd hDir hPlain

/-- The directories of `f'` are directories of `f`, with the same contents. -/
def SameDirs (f f' : Nat → Node) : Prop :=
  ∀ i, (f' i).type = tDir → (f i).type = tDir ∧ (f' i).size = (f i).size ∧ (f' i).data = (f i).data

lemma SameDirs.refl (f : Nat → Node) : SameDirs f f := fun _ hDir => ⟨hDir, rfl, rfl⟩

lemma SameDirs.update {i : Nat} {n : Node} (hn : n.type = tDir → (f i).type = tDir ∧ n.size = (f i).size ∧ n.data = (f i).data) :
    SameDirs f (update f i n) := by
  intro j hj
  by_cases hi : j = i
  · subst hi
    rw [update_self] at hj ⊢
    exact hn hj
  · rw [update_of_ne hi] at hj ⊢
    exact ⟨hj, rfl, rfl⟩

lemma Change.sameDirs (h : Change false N l f f') : SameDirs f f' := by
  cases h with
  | free i => exact .update fun hDir => by cases hDir
  | orphan naming => cases naming
  | create naming => cases naming
  | link naming => cases naming
  | clear naming => cases naming
  | relink i g => exact .update fun hDir => ⟨hDir, rfl, rfl⟩
  | rewrite i size data hPlain => exact .update fun hDir => absurd hDir hPlain

lemma Changes.sameDirs (h : Changes false N l f f') : SameDirs f f' := by
  induction h with
  | refl => exact .refl f
  | tail _ hStep ih =>
    intro i hi
    obtain ⟨hDir, hSize, hData⟩ := hStep.sameDirs i hi
    obtain ⟨hDir', hSize', hData'⟩ := ih i hDir
    exact ⟨hDir', hSize.trans hSize', hData.trans hData'⟩

end

end Xv6K230.Names
