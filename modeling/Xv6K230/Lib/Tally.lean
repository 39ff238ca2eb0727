import Mathlib

/-! # Counting what is held

The weight of a list of holders, where one holder leaves and others come, and of a table, where one entry changes.
-/

namespace Tally

section

variable {α : Type} {φ : α → Nat} {l : List α} {a : α}

def weight (φ : α → Nat) (l : List α) : Nat := (l.map φ).sum

@[simp] lemma weight_nil : weight φ [] = 0 := rfl

@[simp] lemma weight_cons : weight φ (a :: l) = φ a + weight φ l := by
  rw [weight, List.map_cons, List.sum_cons, weight]

lemma weight_erase [DecidableEq α] (h : a ∈ l) : weight φ (l.erase a) + φ a = weight φ l := by
  have hPerm := ((List.perm_cons_erase h).map φ).sum_eq
  rw [List.map_cons, List.sum_cons] at hPerm
  rw [weight, weight, hPerm, Nat.add_comm]

lemma le_weight (h : a ∈ l) : φ a ≤ weight φ l := List.le_sum_of_mem (List.mem_map_of_mem h)

lemma weight_pos : 0 < weight φ l ↔ ∃ a ∈ l, 0 < φ a := by
  constructor
  · intro hPos
    by_contra hNone
    have hZero : weight φ l = 0 := by
      apply List.sum_eq_zero
      intro n hn
      obtain ⟨a, ha, rfl⟩ := List.mem_map.mp hn
      by_contra hNe
      exact hNone ⟨a, ha, Nat.pos_of_ne_zero hNe⟩
    exact absurd hZero hPos.ne'
  · rintro ⟨a, ha, hPos⟩
    exact hPos.trans_le (le_weight ha)

end

section

variable {ι β : Type} [Fintype ι] {φ : β → Nat} {g : ι → β} {i j : ι}

def total (φ : β → Nat) (g : ι → β) : Nat := ∑ x, φ (g x)

lemma total_set [DecidableEq ι] (v : β) : total φ (fun x => if x = i then v else g x) + φ (g i) = total φ g + φ v := by
  rw [total, total, ← Finset.sum_erase_add _ _ (Finset.mem_univ i),
    ← Finset.sum_erase_add Finset.univ (fun x => φ (g x)) (Finset.mem_univ i), if_pos rfl]
  have hRest : ∑ x ∈ Finset.univ.erase i, φ (if x = i then v else g x) = ∑ x ∈ Finset.univ.erase i, φ (g x) := by
    apply Finset.sum_congr rfl
    intro x hx
    rw [if_neg (Finset.ne_of_mem_erase hx)]
  rw [hRest]
  omega

lemma total_pos : 0 < total φ g ↔ ∃ i, 0 < φ (g i) := by
  rw [total, Finset.sum_pos_iff]
  simp only [Finset.mem_univ, true_and]

lemma unique_of_total (h : total φ g ≤ 1) (hi : 0 < φ (g i)) (hj : 0 < φ (g j)) : i = j := by
  classical
  by_contra hNe
  have hPair : φ (g i) + φ (g j) ≤ total φ g := by
    rw [total, ← Finset.sum_pair (f := fun x => φ (g x)) hNe]
    exact Finset.sum_le_sum_of_subset (Finset.subset_univ _)
  omega

end

section

variable {α β : Type} [DecidableEq α] [DecidableEq β] {S : Finset α} {a : α}

lemma card_image_insert (P : α → Prop) [DecidablePred P] (g : α → β) (hP : ∀ b ∈ S, P b → g b = g a → P a) :
    (((insert a S).filter P).image g).card = (if P a then 1 else 0) + ((S.filter fun b => P b ∧ g b ≠ g a).image g).card := by
  have hRest : (S.filter fun b => P b ∧ g b ≠ g a).image g = ((S.filter P).image g).erase (g a) := by
    ext y
    simp only [Finset.mem_image, Finset.mem_filter, Finset.mem_erase]
    constructor
    · rintro ⟨b, ⟨hb, hPb, hne⟩, rfl⟩
      exact ⟨hne, b, ⟨hb, hPb⟩, rfl⟩
    · rintro ⟨hne, b, ⟨hb, hPb⟩, rfl⟩
      exact ⟨b, ⟨hb, hPb, hne⟩, rfl⟩
  rw [hRest, Finset.filter_insert]
  by_cases hPa : P a
  · rw [if_pos hPa, if_pos hPa, Finset.image_insert]
    by_cases hMem : g a ∈ (S.filter P).image g
    · rw [Finset.insert_eq_of_mem hMem, ← Finset.card_erase_add_one hMem, Nat.add_comm]
    · rw [Finset.card_insert_of_notMem hMem, Finset.erase_eq_of_notMem hMem, Nat.add_comm]
  · have hMem : g a ∉ (S.filter P).image g := by
      rw [Finset.mem_image]
      rintro ⟨b, hb, hEq⟩
      obtain ⟨hbS, hPb⟩ := Finset.mem_filter.mp hb
      exact hPa (hP b hbS hPb hEq)
    rw [if_neg hPa, if_neg hPa, Finset.erase_eq_of_notMem hMem, Nat.zero_add]

end

end Tally
