import Xv6K230.Vm.Access
import Xv6K230.Lib.Tally

/-! # What a process sees of its memory

A page that is mapped for the user reads as its contents, an unmapped page below the size of the process as zeros.
-/

namespace Xv6K230.Vm

open Finset (card_le_card filter_insert mem_filter)
open Riscv Prog

def Mem.MappedUser (m : Mem) (r v : Nat) : Prop := v * 4096 < maxva ∧ (m.view r v).has pteV ∧ (m.view r v).has pteU

def Mem.Lazy (m : Mem) (r sz v : Nat) : Prop := v * 4096 < sz ∧ (m.view r v).has pteV = false

instance (m : Mem) (r v : Nat) : Decidable (m.MappedUser r v) := inferInstanceAs (Decidable (_ ∧ _))

instance (m : Mem) (r sz v : Nat) : Decidable (m.Lazy r sz v) := inferInstanceAs (Decidable (_ ∧ _))

def Mem.Readable (m : Mem) (r sz v : Nat) : Prop := m.MappedUser r v ∨ m.Lazy r sz v

def Mem.Writable (m : Mem) (r sz v : Nat) : Prop := m.MappedUser r v ∧ (m.view r v).has pteW ∨ m.Lazy r sz v

/-- The byte at `va` as the process sees it. -/
def Mem.logical (m : Mem) (r sz va : Nat) : Option UInt8 :=
  if m.MappedUser r (va / 4096) then some ((m.page (pte2pa (m.view r (va / 4096)))).get (va % 4096))
  else if m.Lazy r sz (va / 4096) then some 0 else none

/-- The pages of `len` bytes from `va`. -/
def touched (va len : Nat) : Finset Nat := (Finset.Ico va (va + len)).image (· / 4096)

/-- The number of pages that mapping all lazy pages of `S` takes, those for page tables included. -/
def Mem.demand (m : Mem) (r sz : Nat) (S : Finset Nat) : Nat :=
  (S.filter (m.Lazy r sz)).card +
  ((S.filter fun v => m.Lazy r sz v ∧ 1 ≤ m.missing r (v * 4096)).image (· / 512)).card +
  ((S.filter fun v => m.Lazy r sz v ∧ 2 ≤ m.missing r (v * 4096)).image (· / 512 / 512)).card

section

variable {m m' : Mem} {ρ ρ' : Roles} {r tf tr sz v va : Nat}

lemma Mem.MappedUser.not_lazy (h : m.MappedUser r v) : ¬ m.Lazy r sz v := by
  rintro ⟨-, hNot⟩
  rw [h.2.1] at hNot
  cases hNot

lemma logical_of_mapped (h : m.MappedUser r (va / 4096)) :
    m.logical r sz va = some ((m.page (pte2pa (m.view r (va / 4096)))).get (va % 4096)) := if_pos h

lemma logical_of_lazy (h : m.Lazy r sz (va / 4096)) : m.logical r sz va = some 0 := by
  unfold Mem.logical
  rw [if_neg fun hMapped => hMapped.not_lazy h, if_pos h]

lemma logical_eq_none : m.logical r sz va = none ↔ ¬ m.Readable r sz (va / 4096) := by
  unfold Mem.logical Mem.Readable
  split
  · simp [*]
  · split <;> simp [*]

lemma Mem.Writable.readable (h : m.Writable r sz v) : m.Readable r sz v := h.imp_left And.left

/-! ## Page tables on the way -/

lemma missing_le (m : Mem) (r va : Nat) : m.missing r va ≤ 2 := by
  unfold Mem.missing
  simp only [Mem.missingFrom]
  split
  · split <;> omega
  · omega

lemma missing_iff (h : Typed m ρ) (hr : ρ r = .table r 2 0) (hv : v < 512 ^ 3) :
    (1 ≤ m.missing r (v * 4096) ↔ ∀ q, ρ q ≠ .table r 0 (v / 512)) ∧
    (2 ≤ m.missing r (v * 4096) ↔ ∀ q, ρ q ≠ .table r 1 (v / 512 / 512)) := by
  have hpx2 : px 2 (v * 4096) = v / 512 / 512 := by
    rw [px_two]
    omega
  have hpx1 : px 1 (v * 4096) = v / 512 % 512 := by
    rw [px_one]
    omega
  have hIndex : v / 512 / 512 * 512 + v / 512 % 512 = v / 512 := by omega
  unfold Mem.missing
  simp only [Mem.missingFrom, hpx1, hpx2]
  cases hV2 : (m.pte r (v / 512 / 512)).has pteV with
  | true =>
    have hDown2 := (h.down r r 1 0 hr (v / 512 / 512) (by omega) hV2).1
    rw [Nat.zero_mul, Nat.zero_add] at hDown2
    rw [if_pos rfl]
    cases hV1 : (m.pte (pte2pa (m.pte r (v / 512 / 512))) (v / 512 % 512)).has pteV with
    | true =>
      have hDown1 := (h.down _ r 0 _ hDown2 (v / 512 % 512) (by omega) hV1).1
      rw [hIndex] at hDown1
      rw [if_pos rfl]
      exact ⟨iff_of_false (by omega) fun hNone => hNone _ hDown1, iff_of_false (by omega) fun hNone => hNone _ hDown2⟩
    | false =>
      rw [if_neg (by decide)]
      refine ⟨iff_of_true (by omega) fun q hq => ?_, iff_of_false (by omega) fun hNone => hNone _ hDown2⟩
      obtain ⟨q', hq', hValid, -⟩ := h.up q r 0 _ hq (by omega)
      rw [h.toTrees.table_unique hq' hDown2, hV1] at hValid
      cases hValid
  | false =>
    rw [if_neg (by decide)]
    have hNone1 : ∀ q, ρ q ≠ .table r 1 (v / 512 / 512) := by
      intro q hq
      obtain ⟨q', hq', hValid, -⟩ := h.up q r 1 _ hq (by omega)
      rw [h.root q' r _ hq', Nat.mod_eq_of_lt (by omega), hV2] at hValid
      cases hValid
    refine ⟨iff_of_true (by omega) fun q hq => ?_, iff_of_true (by omega) hNone1⟩
    obtain ⟨q', hq', -⟩ := h.up q r 0 _ hq (by omega)
    exact hNone1 q' hq'

/-! ## What repairing a fault changes -/

lemma Mem.Lazy.lt (h : m.Lazy r sz v) (hsz : sz ≤ trapframeVa) : v < trapframeVpn := by
  have := h.1
  rw [trapframeVa_eq] at hsz
  rw [trapframeVpn]
  omega

section

variable {e : Pte} {p w : Nat} {pg : Page} (hAdd : Added r v e p pg m ρ m' ρ') (hr : ρ r = .table r 2 0) (hValid : e.has pteV)

include hAdd hr

lemma Added.view_of_ne (hw : w < 512 ^ 3) (hne : w ≠ v) : m'.view r w = m.view r w := by
  rw [hAdd.view r w hr hw, if_neg fun h => hne h.2]

lemma Added.view_self (hv : v < 512 ^ 3) : m'.view r v = e := by
  rw [hAdd.view r v hr hv, if_pos ⟨rfl, rfl⟩]

include hValid

lemma Added.lazy_iff (hw : w < 512 ^ 3) : m'.Lazy r sz w ↔ m.Lazy r sz w ∧ w ≠ v := by
  unfold Mem.Lazy
  by_cases hne : w = v
  · subst hne
    rw [hAdd.view_self hr hw, hValid]
    simp
  · rw [hAdd.view_of_ne hr hw hne]
    exact ⟨fun h => ⟨h, hne⟩, And.left⟩

lemma Added.missing_iff (ht : Typed m ρ) (hv : v < 512 ^ 3) (hw : w < 512 ^ 3) :
    (1 ≤ m'.missing r (w * 4096) ↔ 1 ≤ m.missing r (w * 4096) ∧ w / 512 ≠ v / 512) ∧
    (2 ≤ m'.missing r (w * 4096) ↔ 2 ≤ m.missing r (w * 4096) ∧ w / 512 / 512 ≠ v / 512 / 512) := by
  have hr' := hAdd.ext.keep hr Role.noConfusion
  obtain ⟨hOne, hTwo⟩ := Vm.missing_iff ht hr hw
  obtain ⟨hOne', hTwo'⟩ := Vm.missing_iff hAdd.typed hr' hw
  have hZero : ∃ q, ρ' q = .table r 0 (v / 512) := by
    obtain ⟨q, hq, -⟩ | ⟨-, -, hNone⟩ := hAdd.typed.toTrees.view_cases hr' hv
    · exact ⟨q, hq⟩
    · rw [hAdd.view_self hr hv] at hNone
      rw [hNone] at hValid
      exact absurd hValid (by decide)
  obtain ⟨q0, hq0⟩ := hZero
  obtain ⟨q1, hq1, -⟩ := hAdd.typed.up q0 r 0 _ hq0 (by omega)
  rw [hOne, hTwo, hOne', hTwo']
  constructor
  · constructor
    · intro hNone
      exact ⟨fun q hq => hNone q (hAdd.ext.keep hq Role.noConfusion), fun hEq => hNone q0 (hEq ▸ hq0)⟩
    · rintro ⟨hNone, hne⟩ q hq
      rcases hAdd.tables q 0 _ hq with hOld | hPath
      · exact hNone q hOld
      · exact hne (by simpa using hPath)
  · constructor
    · intro hNone
      exact ⟨fun q hq => hNone q (hAdd.ext.keep hq Role.noConfusion), fun hEq => hNone q1 (hEq ▸ hq1)⟩
    · rintro ⟨hNone, hne⟩ q hq
      rcases hAdd.tables q 1 _ hq with hOld | hPath
      · exact hNone q hOld
      · rw [show 512 ^ (1 + 1) = 512 * 512 from rfl, ← Nat.div_div_eq_div_mul] at hPath
        exact hne hPath

/-- Mapping page `v` takes what it lacks from the allocator, and the rest of the pages lack that much less. -/
lemma demand_insert_of_added (ht : Typed m ρ) (hsz : sz ≤ trapframeVa) (hLazy : m.Lazy r sz v) {S : Finset Nat} (hS : v ∉ S) :
    m.demand r sz (insert v S) = 1 + m.missing r (v * 4096) + m'.demand r sz S := by
  have hlt : ∀ {w}, m.Lazy r sz w → w < 512 ^ 3 := fun h => vpn_lt (h.lt hsz)
  have hlt' : ∀ {w}, m'.Lazy r sz w → w < 512 ^ 3 := fun h => vpn_lt (h.lt hsz)
  have hv := hlt hLazy
  have hCard : (insert v S).filter (m.Lazy r sz) = insert v (S.filter (m'.Lazy r sz)) := by
    ext w
    simp only [mem_filter, Finset.mem_insert]
    constructor
    · rintro ⟨rfl | hw, hw'⟩
      · exact .inl rfl
      · have hne : w ≠ v := fun hEq => hS (hEq ▸ hw)
        exact .inr ⟨hw, (hAdd.lazy_iff hr hValid (hlt hw')).mpr ⟨hw', hne⟩⟩
    · rintro (rfl | ⟨hw, hw'⟩)
      · exact ⟨.inl rfl, hLazy⟩
      · exact ⟨.inr hw, ((hAdd.lazy_iff hr hValid (hlt' hw')).mp hw').1⟩
  have hNotIn : v ∉ S.filter (m'.Lazy r sz) := fun hIn => hS (mem_filter.mp hIn).1
  have hTables : ∀ (k : Nat) (g : Nat → Nat) (hk : ∀ w < 512 ^ 3, k ≤ m'.missing r (w * 4096) ↔ k ≤ m.missing r (w * 4096) ∧ g w ≠ g v)
      (hg : ∀ w < 512 ^ 3, g w = g v → k ≤ m.missing r (w * 4096) → k ≤ m.missing r (v * 4096)),
      (((insert v S).filter fun w => m.Lazy r sz w ∧ k ≤ m.missing r (w * 4096)).image g).card =
        (if k ≤ m.missing r (v * 4096) then 1 else 0) +
        ((S.filter fun w => m'.Lazy r sz w ∧ k ≤ m'.missing r (w * 4096)).image g).card := by
    intro k g hk hg
    rw [Tally.card_image_insert _ g fun w hw hPw hEq => ⟨hLazy, hg w (hlt hPw.1) hEq hPw.2⟩]
    have hIf : (m.Lazy r sz v ∧ k ≤ m.missing r (v * 4096)) = (k ≤ m.missing r (v * 4096)) := by simp [hLazy]
    have hFilter : (S.filter fun w => (m.Lazy r sz w ∧ k ≤ m.missing r (w * 4096)) ∧ g w ≠ g v) =
        S.filter fun w => m'.Lazy r sz w ∧ k ≤ m'.missing r (w * 4096) := by
      apply Finset.filter_congr
      intro w hw
      have hne : w ≠ v := fun hEq => hS (hEq ▸ hw)
      constructor
      · rintro ⟨⟨hLz, hMiss⟩, hgw⟩
        exact ⟨(hAdd.lazy_iff hr hValid (hlt hLz)).mpr ⟨hLz, hne⟩, (hk w (hlt hLz)).mpr ⟨hMiss, hgw⟩⟩
      · rintro ⟨hLz, hMiss⟩
        obtain ⟨hMiss', hgw⟩ := (hk w (hlt' hLz)).mp hMiss
        exact ⟨⟨((hAdd.lazy_iff hr hValid (hlt' hLz)).mp hLz).1, hMiss'⟩, hgw⟩
    simp only [hIf, hFilter]
  have hOne := hTables 1 (· / 512) (fun w hw => (hAdd.missing_iff hr hValid ht hv hw).1) (by
    intro w hw hEq
    rw [(Vm.missing_iff ht hr hw).1, (Vm.missing_iff ht hr hv).1]
    exact fun hNone => hEq ▸ hNone)
  have hTwo := hTables 2 (· / 512 / 512) (fun w hw => (hAdd.missing_iff hr hValid ht hv hw).2) (by
    intro w hw hEq
    rw [(Vm.missing_iff ht hr hw).2, (Vm.missing_iff ht hr hv).2]
    exact fun hNone => hEq ▸ hNone)
  have hLe := missing_le m r (v * 4096)
  unfold Mem.demand
  rw [hCard, Finset.card_insert_of_notMem hNotIn, hOne, hTwo]
  split <;> split <;> omega

end

lemma demand_insert_of_not_lazy (h : ¬ m.Lazy r sz v) (S : Finset Nat) : m.demand r sz (insert v S) = m.demand r sz S := by
  unfold Mem.demand
  rw [filter_insert, if_neg h, filter_insert, if_neg fun h' => h h'.1, filter_insert, if_neg fun h' => h h'.1]

lemma le_demand {S : Finset Nat} (hv : v ∈ S) (h : m.Lazy r sz v) : 1 + m.missing r (v * 4096) ≤ m.demand r sz S := by
  have hLe := missing_le m r (v * 4096)
  have hCard : 0 < (S.filter (m.Lazy r sz)).card := Finset.card_pos.mpr ⟨v, mem_filter.mpr ⟨hv, h⟩⟩
  have hTables : ∀ (k : Nat) (g : Nat → Nat), k ≤ m.missing r (v * 4096) →
      0 < ((S.filter fun w => m.Lazy r sz w ∧ k ≤ m.missing r (w * 4096)).image g).card := fun k g hk =>
    Finset.card_pos.mpr ⟨g v, Finset.mem_image_of_mem g (mem_filter.mpr ⟨hv, h, hk⟩)⟩
  unfold Mem.demand
  have hOne := hTables 1 (· / 512)
  have hTwo := hTables 2 (· / 512 / 512)
  omega

lemma demand_mono {S T : Finset Nat} (h : S ⊆ T) : m.demand r sz S ≤ m.demand r sz T := by
  unfold Mem.demand
  have hAll := card_le_card (Finset.filter_subset_filter (m.Lazy r sz) h)
  have hOne := card_le_card (Finset.image_subset_image (f := (· / 512))
    (Finset.filter_subset_filter (fun v => m.Lazy r sz v ∧ 1 ≤ m.missing r (v * 4096)) h))
  have hTwo := card_le_card (Finset.image_subset_image (f := (· / 512 / 512))
    (Finset.filter_subset_filter (fun v => m.Lazy r sz v ∧ 2 ≤ m.missing r (v * 4096)) h))
  omega

lemma demand_congr (hView : ∀ w < 512 ^ 3, m'.view r w = m.view r w) (hMissing : ∀ w, m'.missing r w = m.missing r w)
    (hsz : sz ≤ trapframeVa) (S : Finset Nat) : m'.demand r sz S = m.demand r sz S := by
  have hLazy : ∀ w, m'.Lazy r sz w ↔ m.Lazy r sz w := by
    intro w
    constructor
    · intro h
      exact ⟨h.1, hView w (vpn_lt (h.lt hsz)) ▸ h.2⟩
    · intro h
      exact ⟨h.1, (hView w (vpn_lt (h.lt hsz))).symm ▸ h.2⟩
  unfold Mem.demand
  simp only [hLazy, hMissing]

end

end Xv6K230.Vm
