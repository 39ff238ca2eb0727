import Xv6K230.Fs.Space
import Xv6K230.Names.Changes

/-! # What a directory says

A directory whose used entries have different names is a finite map from names to inode numbers.
-/

namespace Xv6K230.Names

open Fs
open Function (update update_of_ne update_self)

structure DirOk (n : Node) (i : Nat) : Prop where
  aligned : n.size % direntSize = 0
  dot : n.Names 0 [46] ∧ (n.dirent 0).inum.toNat = i
  dots : n.Names 16 [46, 46]
  distinct : ∀ o o', n.Slot o → n.Slot o' → (n.dirent o).inum ≠ 0 → (n.dirent o').inum ≠ 0 →
    namecmp (n.dirent o).name (n.dirent o').name = 0 → o = o'

def DirsOk (f : Nat → Node) : Prop := ∀ i, (f i).type = tDir → DirOk (f i) i

/-- The inode number that a directory has for a name as `namecmp` sees it. -/
def binding (n : Node) (k : Text) : Option Nat :=
  ((direntOffsets n.size).find? fun off => (n.dirent off).inum ≠ 0 ∧ key (n.dirent off).name = k).map fun off =>
    (n.dirent off).inum.toNat

section

variable {n n' : Node} {i j inum off o : Nat} {name k : Text}

lemma names_iff : n.Names off name ↔ n.Slot off ∧ (n.dirent off).inum ≠ 0 ∧ key (n.dirent off).name = key name := by
  unfold Node.Names
  rw [namecmp_eq_zero, eq_comm]

namespace DirOk

lemma congr (h : DirOk n i) (hSize : n'.size = n.size) (hData : n'.data = n.data) : DirOk n' i := by
  have hDirent : n'.dirent = n.dirent := by
    funext off
    unfold Node.dirent
    rw [hData]
  have hSlot : n'.Slot = n.Slot := by
    funext off
    unfold Node.Slot
    rw [hSize]
  have hNames : n'.Names = n.Names := by
    funext off name
    unfold Node.Names
    rw [hDirent, hSlot]
  refine ⟨?_, ?_, ?_, ?_⟩
  · rw [hSize]
    exact h.aligned
  · rw [hNames, hDirent]
    exact h.dot
  · rw [hNames]
    exact h.dots
  · rw [hSlot, hDirent]
    exact h.distinct

lemma slot (h : DirOk n i) (hOff : off % 16 = 0) (hLt : off < n.size) : n.Slot off := by
  have hAligned : n.size % 16 = 0 := h.aligned
  exact ⟨hOff, by omega⟩

lemma unique (h : DirOk n i) (ho : n.Names off name) (ho' : n.Names o name) : off = o := by
  obtain ⟨hSlot, hUsed, hKey⟩ := names_iff.mp ho
  obtain ⟨hSlot', hUsed', hKey'⟩ := names_iff.mp ho'
  exact h.distinct off o hSlot hSlot' hUsed hUsed' (namecmp_eq_zero.mpr (hKey.trans hKey'.symm))

lemma binding_eq_some (h : DirOk n i) :
    binding n k = some j ↔ ∃ off, n.Slot off ∧ (n.dirent off).inum ≠ 0 ∧ key (n.dirent off).name = k ∧ (n.dirent off).inum.toNat = j := by
  unfold binding
  rw [Option.map_eq_some_iff]
  constructor
  · rintro ⟨off, hFind, hInum⟩
    obtain ⟨hOff, hLt⟩ := mem_direntOffsets.mp (List.mem_of_find?_eq_some hFind)
    have hFound := List.find?_some hFind
    rw [decide_eq_true_eq] at hFound
    exact ⟨off, h.slot hOff hLt, hFound.1, hFound.2, hInum⟩
  · rintro ⟨off, hSlot, hUsed, hKey, hInum⟩
    have hMem : off ∈ direntOffsets n.size := mem_direntOffsets.mpr ⟨hSlot.1, by have := hSlot.2; omega⟩
    cases hFind : (direntOffsets n.size).find? fun off => (n.dirent off).inum ≠ 0 ∧ key (n.dirent off).name = k with
    | none =>
      grind
    | some o =>
      obtain ⟨hOff, hLt⟩ := mem_direntOffsets.mp (List.mem_of_find?_eq_some hFind)
      have hFound := List.find?_some hFind
      rw [decide_eq_true_eq] at hFound
      obtain rfl := h.distinct o off (h.slot hOff hLt) hSlot hFound.1 hUsed (namecmp_eq_zero.mpr (hFound.2.trans hKey.symm))
      exact ⟨o, rfl, hInum⟩

lemma binding_of_names (h : DirOk n i) (hNamed : n.Names off name) : binding n (key name) = some (n.dirent off).inum.toNat := by
  obtain ⟨hSlot, hUsed, hKey⟩ := names_iff.mp hNamed
  exact h.binding_eq_some.mpr ⟨off, hSlot, hUsed, hKey, rfl⟩

lemma binding_eq_none (h : DirOk n i) : binding n (key name) = none ↔ ∀ off, ¬ n.Names off name := by
  constructor
  · intro hNone off hNamed
    rw [h.binding_of_names hNamed] at hNone
    cases hNone
  · intro hAbsent
    by_contra hSome
    obtain ⟨j, hj⟩ := Option.ne_none_iff_exists'.mp hSome
    obtain ⟨off, hSlot, hUsed, hKey, -⟩ := h.binding_eq_some.mp hj
    exact hAbsent off (names_iff.mpr ⟨hSlot, hUsed, hKey⟩)

/-! ## A new entry -/

section

variable (h : DirOk n i) (hVacant : n.Vacant off) (hAbsent : ∀ o, ¬ n.Names o name) (hInum : 0 < inum ∧ inum < 2 ^ 16)

include hVacant in
lemma put_slot : (n.put off (entry name inum)).Slot o ↔ n.Slot o ∨ o = off := Node.slot_put hVacant.aligned hVacant.low

include hVacant in
lemma put_dirent (ho : o % 16 = 0) :
    (n.put off (entry name inum)).dirent o = if o = off then Dirent.ofBytes (entry name inum) else n.dirent o :=
  Node.dirent_put (length_entry name inum) hVacant.aligned ho

include hVacant in
lemma ne_vacant (hNamed : n.Names o k) : o ≠ off := by
  rintro rfl
  exact hNamed.2.1 (hVacant.unused hNamed.1)

include hVacant in
lemma put_names (hNamed : n.Names o k) : (n.put off (entry name inum)).Names o k := by
  refine ⟨(put_slot hVacant).mpr (.inl hNamed.1), ?_⟩
  rw [put_dirent hVacant hNamed.1.1, if_neg (ne_vacant hVacant hNamed)]
  exact hNamed.2

include h hVacant hAbsent in
lemma put : DirOk (n.put off (entry name inum)) i := by
  have hAligned : n.size % 16 = 0 := h.aligned
  have hOff := hVacant.aligned
  -- a used entry is the new one or an old one under another name
  have hUsed : ∀ o, (n.put off (entry name inum)).Slot o → ((n.put off (entry name inum)).dirent o).inum ≠ 0 →
      (o = off ∧ key ((n.put off (entry name inum)).dirent o).name = key name) ∨
      (o ≠ off ∧ n.Slot o ∧ (n.dirent o).inum ≠ 0 ∧ (n.put off (entry name inum)).dirent o = n.dirent o ∧
        key (n.dirent o).name ≠ key name) := by
    intro o hSlot hne
    have ho := hSlot.1
    rw [put_dirent hVacant ho] at hne ⊢
    by_cases hHere : o = off
    · rw [if_pos hHere]
      exact .inl ⟨hHere, key_entry name inum⟩
    · rw [if_neg hHere] at hne ⊢
      have hOld := ((put_slot hVacant).mp hSlot).resolve_right hHere
      exact .inr ⟨hHere, hOld, hne, rfl, fun hKey => hAbsent o (names_iff.mpr ⟨hOld, hne, hKey⟩)⟩
  refine ⟨?_, ⟨put_names hVacant h.dot.1, ?_⟩, put_names hVacant h.dots, ?_⟩
  · unfold Node.put direntSize
    simp only
    omega
  · rw [put_dirent hVacant (Nat.zero_mod _), if_neg (ne_vacant hVacant h.dot.1)]
    exact h.dot.2
  · grind [h.distinct, namecmp_eq_zero]

include h hVacant hAbsent hInum in
lemma binding_put : binding (n.put off (entry name inum)) = update (binding n) (key name) (some inum) := by
  have hPut : DirOk (n.put off (entry name inum)) i := h.put hVacant hAbsent
  have hNew := inum_entry name hInum.2
  have hNewUsed : (Dirent.ofBytes (entry name inum)).inum ≠ 0 := by
    intro hZero
    rw [hZero] at hNew
    exact absurd hNew.symm hInum.1.ne'
  funext k
  apply Option.ext
  intro j
  rw [hPut.binding_eq_some]
  by_cases hk : k = key name
  · subst hk
    rw [update_self]
    constructor
    · rintro ⟨o, hSlot, hUsed, hKey, hj⟩
      rw [put_dirent hVacant hSlot.1] at hUsed hKey hj
      by_cases hHere : o = off
      · rw [if_pos hHere, hNew] at hj
        rw [hj]
      · rw [if_neg hHere] at hUsed hKey
        exact absurd (names_iff.mpr ⟨((put_slot hVacant).mp hSlot).resolve_right hHere, hUsed, hKey⟩) (hAbsent o)
    · intro hj
      obtain rfl := Option.some.inj hj
      refine ⟨off, (put_slot hVacant).mpr (.inr rfl), ?_⟩
      rw [put_dirent hVacant hVacant.aligned, if_pos rfl]
      exact ⟨hNewUsed, key_entry name inum, hNew⟩
  · rw [update_of_ne hk, h.binding_eq_some]
    constructor
    · rintro ⟨o, hSlot, hRest⟩
      rw [put_dirent hVacant hSlot.1] at hRest
      by_cases hHere : o = off
      · rw [if_pos hHere, key_entry] at hRest
        exact absurd hRest.2.1.symm hk
      · rw [if_neg hHere] at hRest
        exact ⟨o, ((put_slot hVacant).mp hSlot).resolve_right hHere, hRest⟩
    · rintro ⟨o, hSlot, hUsed, hRest⟩
      have hne : o ≠ off := by
        rintro rfl
        exact hUsed (hVacant.unused hSlot)
      refine ⟨o, (put_slot hVacant).mpr (.inl hSlot), ?_⟩
      rw [put_dirent hVacant hSlot.1, if_neg hne]
      exact ⟨hUsed, hRest⟩

end

/-! ## A cleared entry -/

section

variable (h : DirOk n i) (hNamed : n.Names off name)

include hNamed in
lemma clear_slot : (n.put off (List.replicate 16 0)).Slot o ↔ n.Slot o := by
  obtain ⟨⟨hOff, hEnd⟩, -⟩ := hNamed
  rw [Node.slot_put hOff (by omega)]
  constructor
  · rintro (hSlot | rfl)
    · exact hSlot
    · exact ⟨hOff, hEnd⟩
  · exact .inl

include hNamed in
lemma clear_dirent (ho : o % 16 = 0) :
    (n.put off (List.replicate 16 0)).dirent o = if o = off then Dirent.ofBytes (List.replicate 16 0) else n.dirent o :=
  Node.dirent_put (List.length_replicate ..) hNamed.1.1 ho

include hNamed in
lemma clear_used : (n.put off (List.replicate 16 0)).Slot o ∧ ((n.put off (List.replicate 16 0)).dirent o).inum ≠ 0 ↔
    o ≠ off ∧ n.Slot o ∧ (n.dirent o).inum ≠ 0 := by
  rw [clear_slot hNamed]
  constructor
  · rintro ⟨hSlot, hUsed⟩
    rw [clear_dirent hNamed hSlot.1] at hUsed
    by_cases hHere : o = off
    · rw [if_pos hHere] at hUsed
      exact absurd (by decide) hUsed
    · rw [if_neg hHere] at hUsed
      exact ⟨hHere, hSlot, hUsed⟩
  · rintro ⟨hHere, hSlot, hUsed⟩
    rw [clear_dirent hNamed hSlot.1, if_neg hHere]
    exact ⟨hSlot, hUsed⟩

include hNamed in
lemma clear_names {other : Text} (hOther : n.Names o other) (hne : key name ≠ key other) :
    (n.put off (List.replicate 16 0)).Names o other := by
  have ho : o ≠ off := by
    rintro rfl
    exact hne ((names_iff.mp hNamed).2.2.symm.trans (names_iff.mp hOther).2.2)
  refine ⟨(clear_slot hNamed).mpr hOther.1, ?_⟩
  rw [clear_dirent hNamed hOther.1.1, if_neg ho]
  exact hOther.2

include h hNamed in
lemma clear (hProper : key name ≠ key [46] ∧ key name ≠ key [46, 46]) : DirOk (n.put off (List.replicate 16 0)) i := by
  have hSize : (n.put off (List.replicate 16 0)).size = n.size := by
    have := hNamed.1.2
    exact max_eq_left this
  have hFar : (0 : Nat) ≠ off := by
    grind [h.dot, names_iff]
  refine ⟨hSize ▸ h.aligned, ⟨clear_names hNamed h.dot.1 hProper.1, ?_⟩, clear_names hNamed h.dots hProper.2, ?_⟩
  · rw [clear_dirent hNamed (Nat.zero_mod _), if_neg hFar]
    exact h.dot.2
  · intro o o' hSlot hSlot' hne hne' hSame
    obtain ⟨ho, hOld, hUsed⟩ := (clear_used hNamed).mp ⟨hSlot, hne⟩
    obtain ⟨ho', hOld', hUsed'⟩ := (clear_used hNamed).mp ⟨hSlot', hne'⟩
    rw [clear_dirent hNamed hOld.1, clear_dirent hNamed hOld'.1, if_neg ho, if_neg ho'] at hSame
    exact h.distinct o o' hOld hOld' hUsed hUsed' hSame

include h hNamed in
lemma binding_clear (hProper : key name ≠ key [46] ∧ key name ≠ key [46, 46]) :
    binding (n.put off (List.replicate 16 0)) = update (binding n) (key name) none := by
  have hClear := h.clear hNamed hProper
  funext k
  apply Option.ext
  intro j
  rw [hClear.binding_eq_some]
  by_cases hk : k = key name
  · subst hk
    rw [update_self]
    refine ⟨?_, nofun⟩
    rintro ⟨o, hSlot, hUsed, hKey, -⟩
    obtain ⟨ho, hOld, hOldUsed⟩ := (clear_used hNamed).mp ⟨hSlot, hUsed⟩
    rw [clear_dirent hNamed hOld.1, if_neg ho] at hKey
    exact absurd (h.unique (names_iff.mpr ⟨hOld, hOldUsed, hKey⟩) hNamed) ho
  · rw [update_of_ne hk, h.binding_eq_some]
    constructor
    · rintro ⟨o, hSlot, hUsed, hRest⟩
      obtain ⟨ho, hOld, hOldUsed⟩ := (clear_used hNamed).mp ⟨hSlot, hUsed⟩
      rw [clear_dirent hNamed hOld.1, if_neg ho] at hRest
      exact ⟨o, hOld, hOldUsed, hRest⟩
    · rintro ⟨o, hSlot, hUsed, hKey, hj⟩
      have ho : o ≠ off := by
        rintro rfl
        exact hk (hKey.symm.trans (names_iff.mp hNamed).2.2)
      refine ⟨o, (clear_slot hNamed).mpr hSlot, ?_⟩
      rw [clear_dirent hNamed hSlot.1, if_neg ho]
      exact ⟨hUsed, hKey, hj⟩

end

end DirOk

lemma DirOk.number (h : DirOk n i) : 0 < i ∧ i < 2 ^ 16 := by
  have hUsed := h.dot.1.2.1
  rw [← h.dot.2]
  exact ⟨Nat.pos_of_ne_zero fun hZero => hUsed (UInt16.toNat_inj.mp hZero), UInt16.toNat_lt _⟩

lemma dirOk_newNode {major minor : Int16} {dp : Nat} (hi : 0 < i ∧ i < 2 ^ 16) (hdp : 0 < dp ∧ dp < 2 ^ 16) :
    DirOk (newNode tDir major minor i dp) i := by
  have hUsed : ∀ {name : Text} {j : Nat}, 0 < j ∧ j < 2 ^ 16 → (Dirent.ofBytes (entry name j)).inum ≠ 0 := by
    intro name j hj hZero
    have hNew := inum_entry name hj.2
    rw [hZero] at hNew
    exact absurd hNew.symm hj.1.ne'
  obtain ⟨n, hn⟩ : ∃ n, n = newNode tDir major minor i dp := ⟨_, rfl⟩
  have hSize : n.size = 32 := by rw [hn]; rfl
  have hDirent : ∀ o, o % 16 = 0 → o < 32 → n.dirent o = Dirent.ofBytes (if o = 16 then entry [46, 46] dp else entry [46] i) := by
    grind [Node.dirent_put, length_entry, newNode]
  have hZero := hDirent 0 rfl (by decide)
  have hSixteen := hDirent 16 rfl (by decide)
  rw [if_neg (by decide)] at hZero
  rw [if_pos rfl] at hSixteen
  rw [← hn]
  refine ⟨by rw [hSize]; rfl, ⟨names_iff.mpr ⟨⟨rfl, by omega⟩, ?_⟩, ?_⟩, names_iff.mpr ⟨⟨rfl, by omega⟩, ?_⟩, ?_⟩
  · rw [hZero]
    exact ⟨hUsed hi, key_entry _ _⟩
  · rw [hZero]
    exact inum_entry _ hi.2
  · rw [hSixteen]
    exact ⟨hUsed hdp, key_entry _ _⟩
  · -- the two names differ
    intro o o' ho ho' _ _ hSame
    have hEnd := ho.2
    have hEnd' := ho'.2
    have hDots : key [46, 46] ≠ key [46] := by decide
    rw [namecmp_eq_zero, hDirent o ho.1 (by omega), hDirent o' ho'.1 (by omega)] at hSame
    by_cases h : o = 16
    · grind [key_entry]
    · by_cases h' : o' = 16
      · rw [if_neg h, if_pos h', key_entry, key_entry] at hSame
        exact absurd hSame.symm hDots
      · have hMod := ho.1
        have hMod' := ho'.1
        omega

lemma dirOk_iff : DirOk n i ↔ (n.size % direntSize = 0 ∧ 32 ≤ n.size) ∧
    ((n.dirent 0).inum ≠ 0 ∧ namecmp [46] (n.dirent 0).name = 0 ∧ (n.dirent 0).inum.toNat = i) ∧
    ((n.dirent 16).inum ≠ 0 ∧ namecmp [46, 46] (n.dirent 16).name = 0) ∧
    ∀ o ∈ direntOffsets n.size, ∀ o' ∈ direntOffsets n.size, (n.dirent o).inum ≠ 0 ∧ (n.dirent o').inum ≠ 0 ∧
      namecmp (n.dirent o).name (n.dirent o').name = 0 → o = o' := by
  constructor
  · intro h
    refine ⟨⟨h.aligned, h.dots.1.2⟩, ⟨h.dot.1.2.1, h.dot.1.2.2, h.dot.2⟩, h.dots.2, ?_⟩
    rintro o ho o' ho' ⟨hUsed, hUsed', hSame⟩
    have hAt := mem_direntOffsets.mp ho
    have hAt' := mem_direntOffsets.mp ho'
    exact h.distinct o o' (h.slot hAt.1 hAt.2) (h.slot hAt'.1 hAt'.2) hUsed hUsed' hSame
  · rintro ⟨⟨hAligned, hSize⟩, ⟨hDot, hDotName, hSelf⟩, ⟨hDots, hDotsName⟩, hDistinct⟩
    refine ⟨hAligned, ⟨⟨⟨rfl, by omega⟩, hDot, hDotName⟩, hSelf⟩, ⟨⟨rfl, by omega⟩, hDots, hDotsName⟩, ?_⟩
    intro o o' ho ho' hUsed hUsed' hSame
    have hEnd := ho.2
    have hEnd' := ho'.2
    exact hDistinct o (mem_direntOffsets.mpr ⟨ho.1, by omega⟩) o' (mem_direntOffsets.mpr ⟨ho'.1, by omega⟩) ⟨hUsed, hUsed', hSame⟩

instance : Decidable (DirOk n i) := decidable_of_iff' _ dirOk_iff

lemma dirsOk_of_check {s : FsState} (h : ∀ i < s.sb.ninodes, (s.files i).type = tDir → DirOk (s.files i) i) : DirsOk s.files := by
  intro i hDir
  by_cases hi : i < s.sb.ninodes
  · exact h i hi hDir
  · have hFree : s.files i = Node.free := if_neg fun hLive => hi hLive.1
    rw [hFree] at hDir
    cases hDir

lemma DirsOk.update {f : Nat → Node} (h : DirsOk f) (hn : n.type = tDir → DirOk n i) : DirsOk (update f i n) := by
  intro j hj
  by_cases hji : j = i
  · subst hji
    rw [update_self] at hj ⊢
    exact hn hj
  · rw [update_of_ne hji] at hj ⊢
    exact h j hj

lemma Change.dirsOk {names : Bool} {N : Nat} {l : Multiset Ref} {f f' : Nat → Node} (h : Change names N l f f') (hShort : N ≤ 2 ^ 16)
    (hUsed : ∀ r ∈ l, (f r.inum).type ≠ 0) (hf : DirsOk f) : DirsOk f' := by
  cases h with
  | free i => exact hf.update fun hDir => by cases hDir
  | orphan _ i n hUnused _ _ _ hHeld =>
    obtain ⟨r, hr, rfl⟩ := hHeld
    exact absurd hUnused (hUsed r hr)
  | create _ dp i off name type major minor _ _ hRange hDir hAbsent hVacant =>
    refine (hf.update fun hNew => ?_).update fun _ => ?_
    · have hType : type = tDir := by
        unfold newNode at hNew
        split at hNew
        · assumption
        · exact hNew
      rw [hType]
      exact dirOk_newNode ⟨hRange.1, by omega⟩ (hf dp hDir).number
    · exact ((hf dp hDir).put hVacant hAbsent).congr rfl rfl
  | link _ dp i off name hRange hDir hAbsent hVacant => exact hf.update fun _ => (hf dp hDir).put hVacant hAbsent
  | clear _ dp off name isDir hNamed hProper =>
    exact hf.update fun hDir => ((hf dp hDir).clear hNamed hProper).congr rfl rfl
  | relink i g => exact hf.update fun hDir => (hf i hDir).congr rfl rfl
  | rewrite i size data hPlain => exact hf.update fun hDir => absurd hDir hPlain

end

end Xv6K230.Names
