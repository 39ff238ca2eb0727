import Xv6K230.Vm.Copies

/-! # Strings of a process

`copyinstr` walks the page table itself.
-/

namespace Xv6K230.Vm

open List (length_map length_range map_append)
open Riscv Prog

lemma takeWhile_map_range {α : Type} (g : Nat → α) (p : α → Bool) (n : Nat) :
    ∃ j ≤ n, ((List.range n).map g).takeWhile p = (List.range j).map g ∧ (∀ i < j, p (g i)) ∧ (j < n → p (g j) = false) := by
  obtain ⟨l, hl⟩ : ∃ l, l = (List.range n).map g := ⟨_, rfl⟩
  obtain ⟨j, hj⟩ : ∃ j, j = l.findIdx fun a => !p a := ⟨_, rfl⟩
  have hLength : l.length = n := by rw [hl, length_map, length_range]
  have hAt : ∀ i (hi : i < l.length), l[i] = g i := by
    intro i hi
    simp only [hl, List.getElem_map, List.getElem_range]
  have hLe : j ≤ n := by
    rw [hj, ← hLength]
    exact List.findIdx_le_length
  refine ⟨j, hLe, ?_, ?_, ?_⟩
  · rw [← hl, List.takeWhile_eq_take_findIdx_not, ← hj, hl, ← List.map_take, List.take_range, Nat.min_eq_left hLe]
  · grind
  · grind

section

variable {E : Stop → Prop} {m : Mem} {r sz srcva max : Nat}

def Mem.Plain (m : Mem) (r sz srcva k : Nat) : Prop :=
  ∀ i < k, m.MappedUser r ((srcva + i) / 4096) ∧ m.logical r sz (srcva + i) ≠ some 0

/-- The `k` bytes from `srcva`. -/
def Mem.bytesAt (m : Mem) (r sz srcva k : Nat) : List (Option UInt8) :=
  (List.range k).map fun i => m.logical r sz (srcva + i)

lemma bytesAt_zero (m : Mem) (r sz srcva : Nat) : m.bytesAt r sz srcva 0 = [] := rfl

lemma bytesAt_one (m : Mem) (r sz srcva : Nat) : m.bytesAt r sz srcva 1 = [m.logical r sz srcva] := rfl

lemma bytesAt_add (m : Mem) (r sz srcva n k : Nat) :
    m.bytesAt r sz srcva (n + k) = m.bytesAt r sz srcva n ++ m.bytesAt r sz (srcva + n) k := by
  unfold Mem.bytesAt
  rw [List.range_add, map_append, List.map_map]
  exact congrArg _ (List.map_congr_left fun i _ => by rw [Function.comp_apply, Nat.add_assoc])

def Stored (m : Mem) (r sz srcva max k : Nat) (dst : Text) (ok : Bool) (acc : Text) : Prop :=
  k ≤ max ∧ m.Plain r sz srcva k ∧
  if ok then k < max ∧ m.MappedUser r ((srcva + k) / 4096) ∧ m.logical r sz (srcva + k) = some 0 ∧
    dst.map some = acc.map some ++ m.bytesAt r sz srcva (k + 1)
  else (k = max ∨ ¬ m.MappedUser r ((srcva + k) / 4096)) ∧ dst.map some = acc.map some ++ m.bytesAt r sz srcva k

lemma stored_nothing {acc : Text} (h : max = 0 ∨ ¬ m.MappedUser r (srcva / 4096)) :
    ∃ k, Stored m r sz srcva max k acc false acc :=
  ⟨0, Nat.zero_le _, fun _ hi => absurd hi (Nat.not_lt_zero _), h.imp Eq.symm id, (List.append_nil _).symm⟩

lemma Stored.after {n k : Nat} {dst acc str : Text} {ok : Bool} (hPlain : m.Plain r sz srcva n) (hn : n ≤ max)
    (hNext : n < max → srcva + n = srcva / 4096 * 4096 + 4096) (hStr : str.map some = m.bytesAt r sz srcva n)
    (h : Stored m r sz (srcva / 4096 * 4096 + 4096) (max - n) k dst ok (acc ++ str)) : Stored m r sz srcva max (n + k) dst ok acc := by
  obtain ⟨hk, hRest, hEnd⟩ := h
  have hAddr : ∀ i, n < max → srcva + (n + i) = srcva / 4096 * 4096 + 4096 + i := by
    intro i hlt
    have := hNext hlt
    omega
  have hBytes : ∀ j, (0 < j → n < max) →
      m.bytesAt r sz srcva n ++ m.bytesAt r sz (srcva / 4096 * 4096 + 4096) j = m.bytesAt r sz srcva (n + j) := by
    intro j hj
    rw [bytesAt_add]
    rcases Nat.eq_zero_or_pos j with rfl | hpos
    · rw [bytesAt_zero, bytesAt_zero]
    · rw [hNext (hj hpos)]
  refine ⟨by omega, ?_, ?_⟩
  · intro i hi
    by_cases hin : i < n
    · exact hPlain i hin
    · have hAt := hRest (i - n) (by omega)
      rw [← hAddr (i - n) (by omega), show n + (i - n) = i by omega] at hAt
      exact hAt
  · rw [map_append, hStr] at hEnd
    cases ok with
    | true =>
      grind
    | false =>
      obtain ⟨hStop, hDst⟩ := hEnd
      refine ⟨?_, ?_⟩
      · grind
      · rw [hDst, List.append_assoc, hBytes k (by omega)]

lemma copyinstrLoop_exact (sz : Nat) : ∀ (fuel srcva max : Nat) (acc : Text), max ≤ fuel →
    wp (copyinstrLoop r fuel srcva max acc) E (fun res m' => m' = m ∧ ∃ k, Stored m r sz srcva max k res.1 res.2 acc) m := by
  intro fuel
  induction fuel with
  | zero =>
    intro srcva max acc hFuel
    simp only [copyinstrLoop, wp_pure]
    exact ⟨trivial, stored_nothing (.inl (by omega))⟩
  | succ fuel ih =>
    intro srcva max acc hFuel
    have hDown : pgrounddown srcva = srcva / 4096 * 4096 := rfl
    have hOff : srcva - srcva / 4096 * 4096 = srcva % 4096 := by omega
    simp only [copyinstrLoop, hDown, hOff, pgsize]
    split
    · rename_i hZero
      rw [wp_pure]
      exact ⟨rfl, stored_nothing (.inl hZero)⟩
    split
    · rename_i _ hHigh
      rw [wp_pure]
      refine ⟨rfl, stored_nothing (.inr fun hMapped => ?_)⟩
      have := hMapped.1
      omega
    rename_i hMax hLow
    simp only [wp_bind, wp_lookup (show srcva / 4096 * 4096 < maxva by omega)]
    rw [Nat.mul_div_cancel _ (by decide)]
    cases hSlot : m.slot r (srcva / 4096) with
    | none =>
      simp only [wp_pure]
      refine ⟨trivial, stored_nothing (.inr fun hMapped => ?_)⟩
      have hValid := hMapped.2.1
      rw [view_of_slot_none hSlot] at hValid
      exact absurd hValid (by decide)
    | some s =>
      obtain ⟨q, i⟩ := s
      have hView := view_of_slot_some hSlot
      simp only [wp_bind, wp_read, ← hView]
      split
      · rename_i hNot
        rw [wp_pure]
        refine ⟨rfl, stored_nothing (.inr fun hMapped => ?_)⟩
        rw [hMapped.2.1, hMapped.2.2] at hNot
        cases hNot
      rename_i hYes
      have hMapped : m.MappedUser r (srcva / 4096) := by
        simp only [Bool.or_eq_true, Bool.not_eq_true', not_or, Bool.not_eq_false] at hYes
        exact ⟨by omega, hYes⟩
      obtain ⟨n, hn⟩ : ∃ n, n = min (4096 - srcva % 4096) max := ⟨_, rfl⟩
      obtain ⟨pg, hpg⟩ : ∃ pg, pg = m.page (pte2pa (m.view r (srcva / 4096))) := ⟨_, rfl⟩
      simp only [wp_bind, wp_read, ← hn, ← hpg, Bytes.length_read]
      -- what the inner loop sees of the page
      have hPage : ∀ j < n, (srcva + j) / 4096 = srcva / 4096 ∧ m.logical r sz (srcva + j) = some (pg.get (srcva % 4096 + j)) := by
        grind [logical_of_mapped]
      obtain ⟨j, hj, hTake, hPlain, hStop⟩ := takeWhile_map_range (fun i => pg.get (srcva % 4096 + i)) (· ≠ 0) n
      obtain ⟨str, hStr⟩ : ∃ str, str = (pg.read (srcva % 4096) n).takeWhile (· ≠ 0) := ⟨_, rfl⟩
      have hStrEq : str = (List.range j).map fun i => pg.get (srcva % 4096 + i) := by
        rw [hStr, ← hTake]
        rfl
      have hLength : str.length = j := by rw [hStrEq, length_map, length_range]
      have hBytes : str.map some = m.bytesAt r sz srcva j := by
        rw [hStrEq, List.map_map]
        exact List.map_congr_left fun i hi => (hPage i (by have := List.mem_range.mp hi; omega)).2.symm
      have hPlain' : m.Plain r sz srcva j := by
        intro i hi
        obtain ⟨hSame, hByte⟩ := hPage i (by omega)
        rw [hSame, hByte]
        exact ⟨hMapped, fun hNul => of_decide_eq_true (hPlain i hi) (Option.some.inj hNul)⟩
      rw [← hStr, hLength]
      split
      · rename_i hFound
        obtain ⟨hSame, hByte⟩ := hPage j hFound
        have hNul : m.logical r sz (srcva + j) = some 0 := by
          grind
        rw [wp_pure]
        refine ⟨rfl, j, by omega, hPlain', by omega, by rw [hSame]; exact hMapped, hNul, ?_⟩
        rw [map_append, map_append, hBytes, bytesAt_add, List.append_assoc]
        rw [bytesAt_one, hNul]
        rfl
      · have hjn : j = n := by omega
        subst hjn
        refine wp_post (ih _ _ _ (by omega)) ?_
        rintro ⟨dst, ok⟩ m' ⟨rfl, k, hRest⟩
        exact ⟨rfl, j + k, hRest.after hPlain' (by omega) (by omega) hBytes⟩

def Mem.StringAt (m : Mem) (r sz srcva max : Nat) : Prop :=
  ∃ k < max, m.logical r sz (srcva + k) = some 0 ∧ (∀ i ≤ k, m.logical r sz (srcva + i) ≠ none) ∧
    m.demand r sz (touched srcva (k + 1)) ≤ m.freelist.length

def Mem.RunsIntoLazy (m : Mem) (r sz srcva max : Nat) : Prop :=
  ∃ k < max, m.Plain r sz srcva k ∧ m.Lazy r sz ((srcva + k) / 4096) ∧
    m.demand r sz (touched srcva (k + 1)) ≤ m.freelist.length

lemma touched_mono {va k l : Nat} (h : k ≤ l) : touched va k ⊆ touched va l :=
  Finset.image_subset_image (Finset.Ico_subset_Ico_right (by omega))

lemma demand_eq_zero {S : Finset Nat} (h : ∀ v ∈ S, ¬ m.Lazy r sz v) : m.demand r sz S = 0 := by
  unfold Mem.demand
  rw [Finset.filter_false_of_mem h, Finset.filter_false_of_mem fun v hv hv' => h v hv hv'.1,
    Finset.filter_false_of_mem fun v hv hv' => h v hv hv'.1]
  rfl

lemma Mem.Plain.stringAt {k : Nat} (hk : k < max) (h : m.Plain r sz srcva k) (hMapped : m.MappedUser r ((srcva + k) / 4096))
    (hNul : m.logical r sz (srcva + k) = some 0) : m.StringAt r sz srcva max := by
  have hAll : ∀ i ≤ k, m.MappedUser r ((srcva + i) / 4096) := by
    intro i hi
    rcases Nat.lt_or_eq_of_le hi with hlt | rfl
    · exact (h i hlt).1
    · exact hMapped
  refine ⟨k, hk, hNul, ?_, ?_⟩
  · intro i hi
    rw [logical_of_mapped (hAll i hi)]
    exact Option.some_ne_none _
  · rw [demand_eq_zero]
    · exact Nat.zero_le _
    intro v hv
    unfold touched at hv
    obtain ⟨a, ha, rfl⟩ := Finset.mem_image.mp hv
    obtain ⟨hLow, hHigh⟩ := Finset.mem_Ico.mp ha
    have hAt := hAll (a - srcva) (by omega)
    rw [show srcva + (a - srcva) = a by omega] at hAt
    exact hAt.not_lazy

/-- A string that `copyin` would read is read by `copyinstr` too, unless a page of it is missing. -/
lemma Mem.StringAt.cases (h : m.StringAt r sz srcva max) :
    m.RunsIntoLazy r sz srcva max ∨ ∃ k < max, m.Plain r sz srcva k ∧ m.MappedUser r ((srcva + k) / 4096) ∧
      m.logical r sz (srcva + k) = some 0 := by
  obtain ⟨l, hl, hNul, hAll, hDemand⟩ := h
  -- the first byte that is NUL
  have hExists : ∃ k, m.logical r sz (srcva + k) = some 0 := ⟨l, hNul⟩
  obtain ⟨k, hk⟩ : ∃ k, k = Nat.find hExists := ⟨_, rfl⟩
  have hkl : k ≤ l := hk ▸ Nat.find_min' hExists hNul
  have hkNul : m.logical r sz (srcva + k) = some 0 := hk ▸ Nat.find_spec hExists
  have hBefore : ∀ i < k, m.logical r sz (srcva + i) ≠ some 0 := fun i hi => Nat.find_min hExists (hk ▸ hi)
  have hReadable : ∀ i ≤ k, m.Readable r sz ((srcva + i) / 4096) := by
    intro i hi
    by_contra hNot
    exact hAll i (by omega) (logical_eq_none.mpr hNot)
  have hPlain : m.Plain r sz srcva k := by
    intro i hi
    refine ⟨(hReadable i (by omega)).resolve_right fun hLazy => ?_, hBefore i hi⟩
    exact hBefore i hi (logical_of_lazy hLazy)
  rcases hReadable k le_rfl with hMapped | hLazy
  · exact .inr ⟨k, by omega, hPlain, hMapped, hkNul⟩
  · exact .inl ⟨k, by omega, hPlain, hLazy, (demand_mono (touched_mono (by omega))).trans hDemand⟩

lemma Mem.RunsIntoLazy.stringAt (h : m.RunsIntoLazy r sz srcva max) : m.StringAt r sz srcva max := by
  obtain ⟨k, hk, hPlain, hLazy, hDemand⟩ := h
  refine ⟨k, hk, logical_of_lazy hLazy, ?_, hDemand⟩
  intro i hi hNone
  refine logical_eq_none.mp hNone ?_
  rcases Nat.lt_or_eq_of_le hi with hlt | rfl
  · exact .inl (hPlain i hlt).1
  · exact .inr hLazy

/-- `copyinstr` reads the strings that `copyin` would read, unless one runs into a page not allocated yet. -/
theorem copyinstr_agrees (m : Mem) (r sz srcva max : Nat) :
    ∃ dst ok, copyinstr r srcva max m = .ok ((dst, ok), m) ∧ dst.length ≤ max ∧
      (ok = true → ∃ k < max, dst.map some = m.bytesAt r sz srcva (k + 1) ∧ m.logical r sz (srcva + k) = some 0 ∧
        ∀ i < k, m.logical r sz (srcva + i) ≠ some 0) ∧
      ((ok = true ↔ m.StringAt r sz srcva max) ↔ ¬ m.RunsIntoLazy r sz srcva max) := by
  have hRun : wp (copyinstr r srcva max) (fun _ => False) _ m := copyinstrLoop_exact sz max srcva max [] le_rfl
  obtain ⟨⟨dst, ok⟩, _, hEq, rfl, k, hk, hPlain, hEnd⟩ := wp_total hRun
  dsimp only at hEnd
  refine ⟨dst, ok, hEq, ?_, ?_, ?_⟩
  all_goals cases ok
  · grind [List.length_append, length_map, length_range, List.length_nil, Mem.bytesAt]
  · grind [List.length_append, length_map, length_range, List.length_nil, Mem.bytesAt]
  · intro hFalse
    cases hFalse
  · rintro -
    obtain ⟨hlt, -, hNul, hDst⟩ := hEnd
    exact ⟨k, hlt, by simpa using hDst, hNul, fun i hi => (hPlain i hi).2⟩
  · obtain ⟨hStop, -⟩ := hEnd
    constructor
    · intro hIff hRuns
      cases hIff.mpr hRuns.stringAt
    · intro hNot
      refine iff_of_false Bool.false_ne_true fun hString => ?_
      obtain hRuns | ⟨l, hl, hPlain', hMapped, hNul⟩ := hString.cases
      · exact hNot hRuns
      · rcases Nat.lt_trichotomy l k with hlt | rfl | hgt
        · exact (hPlain l hlt).2 hNul
        · grind
        · rcases hStop with rfl | hUnmapped
          · omega
          · exact hUnmapped (hPlain' k hgt).1
  · obtain ⟨hlt, hMapped, hNul, -⟩ := hEnd
    refine iff_of_true (iff_of_true rfl (hPlain.stringAt hlt hMapped hNul)) ?_
    rintro ⟨l, hl, hPlain', hLazy, -⟩
    rcases Nat.lt_trichotomy l k with hBefore | rfl | hAfter
    · exact (hPlain l hBefore).1.not_lazy hLazy
    · exact hMapped.not_lazy hLazy
    · exact (hPlain' k hAfter).2 hNul

end

open LazySample in
/-- An untouched page holds the empty string for `copyin`, and none for `copyinstr`. -/
theorem copyinstr_misses_lazy : AddressSpace mem 4096 8192 ∧ mem.StringAt 4096 8192 0 4 ∧
    copyinstr 4096 0 4 mem = .ok (([], false), mem) := by
  refine ⟨space, ⟨0, by decide, ?_, ?_, by decide +kernel⟩, rfl⟩
  · exact logical_of_lazy ⟨by decide, by rw [view_zero]; decide⟩
  · intro i hi
    rw [show i = 0 by omega, logical_of_lazy ⟨by decide, by rw [view_zero]; decide⟩]
    exact Option.some_ne_none _

end Xv6K230.Vm
