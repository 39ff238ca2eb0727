import Xv6K230.Vm.Access

/-! # A page table as a finite map

What `mappages` and `uvmunmap` do to the translations of a whole table.
-/

namespace Xv6K230.Vm

open Riscv Prog

variable {m m1 m2 : Mem} {ρ : Roles} {r : Nat}

/-- A table with root `r` whose pages are distinct, hold no leaf above level 0 and are not free. -/
def WellFormed (m : Mem) (r : Nat) : Prop := ∃ ρ, Typed m ρ ∧ ρ r = .table r 2 0

section

lemma mappagesLoop_spec {perm : Pte} : ∀ (n a pa : Nat) {m : Mem} {ρ : Roles}, Typed m ρ → ρ r = .table r 2 0 →
    wp (mappagesLoop r perm n a pa)
      (fun e => maxva < a + n * 4096 ∨ e = .mappagesRemap ∧ ∃ i < n, (m.view r (a / 4096 + i)).has pteV)
      (fun ok m' => ∃ ρ', Typed m' ρ' ∧ Grown r m ρ m' ρ' ∧
        (∀ v < 512 ^ 3, (m.view r v).has pteV ∨ (∀ i < n, v ≠ a / 4096 + i) → m'.view r v = m.view r v) ∧
        (ok = true → ∀ i < n, m'.view r (a / 4096 + i) = pa2pte (pa + i * 4096) ||| perm ||| pteV)) m := by
  intro n
  induction n with
  | zero =>
    intro a pa m ρ ht hr
    rw [mappagesLoop, wp_pure]
    exact ⟨ρ, ht, Grown.refl r m ρ, fun _ _ _ => rfl, fun _ i hi => absurd hi (Nat.not_lt_zero i)⟩
  | succ n ih =>
    intro a pa m ρ ht hr
    by_cases ha : a ≥ maxva
    · rw [mappagesLoop, wp_bind, walk, if_pos ha, wp_stop]
      exact .inl (by omega)
    have hlt : a < maxva := by omega
    have hvpn := vpn_lt_of_lt_maxva hlt
    simp only [mappagesLoop, wp_bind]
    refine wp_post (walk_alloc_spec ht hr hlt) ?_
    rintro (_ | ⟨q, i⟩) m1 ⟨ρ1, ht1, hGrown1, hView1, -, hRes⟩
    · rw [wp_pure]
      refine ⟨ρ1, ht1, hGrown1, fun v hv _ => hView1 r v hr hv, ?_⟩
      rintro ⟨⟩
    obtain ⟨hq, rfl, -⟩ := hRes
    have hr1 : ρ1 r = .table r 2 0 := hGrown1.role_of_ne_free hr Role.noConfusion
    have hPte : m1.pte q (a / 4096 % 512) = m1.view r (a / 4096) := by
      rw [← ht1.toTrees.view_of_table hq (Nat.mod_lt _ (by decide)), Nat.div_add_mod' (a / 4096) 512]
    simp only [wp_bind, wp_read, hPte]
    cases hValid : (m1.view r (a / 4096)).has pteV with
    | true =>
      rw [if_pos rfl, wp_stop]
      rw [hView1 r _ hr hvpn] at hValid
      exact .inr ⟨rfl, 0, Nat.succ_pos n, hValid⟩
    | false =>
      simp only [Bool.false_eq_true, if_false, wp_bind, wp_update]
      obtain ⟨ht2, hGrown2, hView2⟩ := setEntry_grown ht1 (e := pa2pte pa ||| perm ||| pteV) hq
        (fun p hp => absurd hp (ht1.no_leaf_of_invalid hValid p))
      generalize m1.setPte q (a / 4096 % 512) (pa2pte pa ||| perm ||| pteV) = m2 at ht2 hGrown2 hView2 ⊢
      have hNew : ((pa2pte pa ||| perm ||| pteV).has pteV) = true := by
        rw [has_pteV, getLsbD_entry _ _ (by decide)]
        simp
      have hOther : ∀ v < 512 ^ 3, v ≠ a / 4096 → m2.view r v = m.view r v := by
        intro v hv hne
        rw [hView2 r v hr1 hv, if_neg (fun h => hne h.2), hView1 r v hr hv]
      have hNext : (a + pgsize) / 4096 = a / 4096 + 1 := Nat.add_div_right a (by decide)
      refine wp_mono (ih (a + pgsize) (pa + pgsize) ht2 hr1) ?_ ?_
      · rintro e (hBig | ⟨rfl, i, hi, hMapped⟩)
        · exact .inl (by rw [pgsize] at hBig; omega)
        by_cases hEnd : maxva < a + (n + 1) * 4096
        · exact .inl hEnd
        rw [hNext, hOther _ (by unfold maxva at hEnd; omega) (by omega)] at hMapped
        exact .inr ⟨rfl, i + 1, Nat.succ_lt_succ hi, by rwa [add_assoc, add_comm 1 i] at hMapped⟩
      · rintro ok m3 ⟨ρ3, ht3, hGrown3, hView3, hSet⟩
        rw [hNext] at hView3 hSet
        have hHere := hView2 r _ hr1 hvpn
        rw [if_pos ⟨rfl, rfl⟩] at hHere
        have hFirst := hView3 _ hvpn (.inl (by rw [hHere, hNew]))
        refine ⟨ρ3, ht3, (hGrown1.trans hGrown2).trans hGrown3, ?_, ?_⟩
        · intro v hv hKeep
          have hne : v ≠ a / 4096 := by
            rintro rfl
            rcases hKeep with hMapped | hOut
            · rw [← hView1 r _ hr hvpn, hValid] at hMapped
              cases hMapped
            · exact hOut 0 (Nat.succ_pos n) rfl
          rw [hView3 v hv ?_, hOther v hv hne]
          rw [hOther v hv hne]
          exact hKeep.imp id fun hOut i hi => by
            have hNot := hOut (i + 1) (Nat.succ_lt_succ hi)
            omega
        · rintro hok (_ | i) hi
          · rw [zero_mul, add_zero, add_zero, hFirst, hHere]
          · have hEntry := hSet hok i (Nat.lt_of_succ_lt_succ hi)
            rwa [add_assoc, add_comm 1 i, add_assoc pa, show pgsize + i * 4096 = (i + 1) * 4096 by rw [pgsize]; omega] at hEntry

end

section

structure Cleared (r : Nat) (S : Nat → Prop) (m m' : Mem) : Prop where
  wellFormed : WellFormed m' r
  gone : ∀ v < 512 ^ 3, S v → (m'.view r v).has pteV = false
  rest : ∀ v < 512 ^ 3, ¬ S v → m'.view r v = m.view r v

lemma Cleared.trans {S T : Nat → Prop} (h1 : Cleared r S m m1) (h2 : Cleared r T m1 m2) :
    Cleared r (fun v => S v ∨ T v) m m2 := by
  refine ⟨h2.wellFormed, fun v hv hIn => ?_, fun v hv hOut => ?_⟩
  · by_cases hT : T v
    · exact h2.gone v hv hT
    · rw [h2.rest v hv hT, h1.gone v hv (hIn.resolve_right hT)]
  · rw [h2.rest v hv fun hT => hOut (.inr hT), h1.rest v hv fun hS => hOut (.inl hS)]

/-- The page behind a mapping can be seen as held by someone else. -/
lemma Typed.without_leaf (h : Typed m ρ) (r v : Nat) : ∃ ρ', Typed m ρ' ∧
    (∀ q r l a, ρ q = .table r l a → ρ' q = .table r l a) ∧ ∀ p, ρ' p ≠ .leaf r v := by
  by_cases hLeaf : ∃ p, ρ p = .leaf r v
  · obtain ⟨p, hp⟩ := hLeaf
    have h' : Typed m (Function.update ρ p .held) := by
      refine h.relabel ?_ ?_ ?_ trivial <;> rw [hp] <;> exact fun hc => by cases hc
    refine ⟨_, h', fun q r l a hq => ?_, fun q hq => ?_⟩
    · rw [Function.update_of_ne (ne_of_role hq hp Role.noConfusion), hq]
    · obtain ⟨hne, hq⟩ := (update_eq_of_ne Role.noConfusion).mp hq
      exact hne (h.toTrees.leaf_unique hq hp)
  · exact ⟨ρ, h, fun _ _ _ _ hq => hq, fun p hp => hLeaf ⟨p, hp⟩⟩

variable {E : Stop → Prop}

lemma Shrunk.cleared {S : Nat → Prop} {m' : Mem} {ρ' : Roles} (h : Shrunk r S m ρ m' ρ') (hr : ρ r = .table r 2 0)
    (h' : Typed m' ρ') : Cleared r S m m' :=
  ⟨⟨ρ', h', h.table hr⟩, fun v hv hIn => h.gone v hIn hv, fun v hv hOut => h.view r v hr hv (.inr hOut)⟩

lemma unmapOne_keep {a : Nat} (hm : WellFormed m r) (ha : a < maxva) :
    wp (unmapOne r false a) E (fun _ m' => Cleared r (· = a / 4096) m m') m := by
  obtain ⟨ρ, h, hr⟩ := hm
  obtain ⟨ρ', h', hTable, hNoLeaf⟩ := h.without_leaf r (a / 4096)
  have hr' := hTable _ _ _ _ hr
  exact wp_post (unmapOne_nofree_spec h' hr' ha hNoLeaf) fun _ _ h1 => h1.2.cleared hr' h1.1

lemma unmapEach_keep (as : List Nat) : ∀ {m : Mem}, WellFormed m r → (∀ a ∈ as, a < maxva) →
    wp (eachM (unmapOne r false) as) E (fun _ m' => Cleared r (fun v => ∃ a ∈ as, v = a / 4096) m m') m := by
  induction as with
  | nil =>
    intro m hm _
    simp only [eachM, wp_ret]
    exact ⟨hm, by simp, fun _ _ _ => rfl⟩
  | cons a as ih =>
    intro m hm hAll
    refine wp_call (unmapOne_keep hm (hAll a List.mem_cons_self)) fun _ m1 h1 => ?_
    refine wp_post (ih h1.wellFormed fun b hb => hAll b (List.mem_cons_of_mem a hb)) fun _ m2 h2 => ?_
    simpa using h1.trans h2

lemma uvmunmap_cleared {va n : Nat} {doFree : Bool} (h : Typed m ρ) (hr : ρ r = .table r 2 0) (hva : va % 4096 = 0)
    (hEnd : va + n * 4096 ≤ maxva)
    (hBacked : doFree = true → ∀ v, va / 4096 ≤ v → v < va / 4096 + n → Backed m ρ r v) :
    wp (uvmunmap r va n doFree) E
      (fun _ m' => Cleared r (fun v => va / 4096 ≤ v ∧ v < va / 4096 + n) m m') m := by
  cases doFree with
  | true =>
    refine wp_post (uvmunmap_spec h hr hva hEnd (hBacked rfl)) ?_
    rintro - m' ⟨ρ', h', hShrunk⟩
    exact hShrunk.cleared hr h'
  | false =>
    have hAlign : ¬ va % pgsize ≠ 0 := by simpa [pgsize] using hva
    rw [uvmunmap, if_neg hAlign]
    refine wp_post (unmapEach_keep _ ⟨ρ, h, hr⟩ ?_) ?_
    · intro a ha
      simp only [List.mem_map, List.mem_range, pgsize] at ha
      obtain ⟨i, hi, rfl⟩ := ha
      omega
    · rintro - m' hCleared
      simpa only [unmapped_pages hva] using hCleared

end

/-- The valid entry that `walk` finds for `va`. -/
def Mem.translate (m : Mem) (r va : Nat) : Option Pte :=
  match walk r va false m with
  | .ok (some (pt, i), m') => if (m'.pte pt i).has pteV then some (m'.pte pt i) else none
  | _ => none

lemma translate_eq {va : Nat} (hva : va < maxva) :
    m.translate r va = if (m.view r (va / 4096)).has pteV then some (m.view r (va / 4096)) else none := by
  have hWalk := (wp_lookup (E := fun _ => False) (m := m) (r := r) hva (Q := fun res m' => res = m.slot r (va / 4096) ∧ m' = m)).mpr ⟨rfl, rfl⟩
  obtain ⟨res, m', hOk, rfl, rfl⟩ := wp_total hWalk
  rw [Mem.translate, hOk, Mem.view]
  cases m'.slot r (va / 4096) with
  | none => exact (if_neg (show ¬ Pte.has 0#64 pteV = true by decide)).symm
  | some s => rfl

lemma translate_congr {va : Nat} (hva : va < maxva) (h : m1.view r (va / 4096) = m.view r (va / 4096)) :
    m1.translate r va = m.translate r va := by
  rw [translate_eq hva, translate_eq hva, h]

lemma walkaddr_eq (m : Mem) (r a : Nat) :
    walkaddr r a m = .ok (((m.translate r a).filter (·.has pteU)).elim 0 pte2pa, m) := by
  have hWalk := (@wp_walkaddr (fun _ => False) m r a fun pa m' => pa = m.userAddr r a ∧ m' = m).mpr ⟨rfl, rfl⟩
  obtain ⟨pa, m', hOk, rfl, rfl⟩ := wp_total hWalk
  rw [hOk, Mem.userAddr]
  by_cases ha : a < maxva
  · rw [translate_eq ha]
    cases hV : (m'.view r (a / 4096)).has pteV <;> cases hU : (m'.view r (a / 4096)).has pteU <;>
      simp [ha, hU, Option.filter_some]
  · have hNone : m'.translate r a = none := by simp [Mem.translate, walk, Prog.stop, Nat.le_of_not_lt ha]
    rw [hNone, if_neg fun h => ha h.1]
    rfl

/-- `mappages` that returns 0 adds the translations of its range, one that returns -1 adds
some of them, and both leave all others; `uvmunmap` removes those of its range; `walkaddr`
gives the user's translations. -/
theorem page_table_map {va n pa : Nat} {perm : Pte} (h : Typed m ρ) (hr : ρ r = .table r 2 0)
    (hva : va % pgsize = 0) (hEnd : va + n * pgsize ≤ maxva) (hpa : pa % pgsize = 0) (hTop : pa + n * pgsize ≤ 2 ^ 56)
    (hPerm : perm &&& ppnMask = 0#64) :
    (∀ m a, walkaddr r a m = .ok (((m.translate r a).filter (·.has pteU)).elim 0 pte2pa, m)) ∧
    wp (mappages r va (n * pgsize) pa perm)
      (fun e => e = .mappagesSize ∧ n = 0 ∨ e = .mappagesRemap ∧ ∃ i < n, (m.translate r (va + i * pgsize)).isSome)
      (fun ok m' => WellFormed m' r ∧
        (∀ a < maxva, a < va ∨ va + n * pgsize ≤ a → m'.translate r a = m.translate r a) ∧
        (ok = true → ∀ i < n, ∃ pte, m'.translate r (va + i * pgsize) = some pte ∧
          pte2pa pte = pa + i * pgsize ∧ pte = pa2pte (pa + i * pgsize) ||| perm ||| pteV)) m ∧
    ∀ doFree, (doFree = true → ∀ v, va / pgsize ≤ v → v < va / pgsize + n → Backed m ρ r v) →
      wp (uvmunmap r va n doFree) (fun _ => False)
        (fun _ m' => WellFormed m' r ∧
          (∀ a < maxva, a < va ∨ va + n * pgsize ≤ a → m'.translate r a = m.translate r a) ∧
          ∀ a, va ≤ a → a < va + n * pgsize → m'.translate r a = none) m := by
  simp only [pgsize] at *
  have hPage (i : Nat) : (va + i * 4096) / 4096 = va / 4096 + i := Nat.add_mul_div_right va i (by decide)
  refine ⟨fun m a => walkaddr_eq m r a, ?_, ?_⟩
  · rw [mappages, if_neg (by rw [pgsize]; omega), if_neg (by rw [pgsize]; omega)]
    split
    · exact (wp_stop _).mpr (.inl ⟨rfl, by omega⟩)
    rw [show n * 4096 / pgsize = n from Nat.mul_div_cancel n (by decide)]
    refine wp_mono (mappagesLoop_spec n va pa h hr) ?_ ?_
    · rintro e (hBig | ⟨rfl, i, hi, hMapped⟩)
      · omega
      · refine .inr ⟨rfl, i, hi, ?_⟩
        rw [translate_eq (by omega), hPage, if_pos hMapped]
        rfl
    · rintro ok m' ⟨ρ', h', hGrown, hView, hSet⟩
      refine ⟨⟨ρ', h', hGrown.role_of_ne_free hr Role.noConfusion⟩, fun a ha hOut => ?_, fun hok i hi => ?_⟩
      · exact translate_congr ha (hView _ (vpn_lt_of_lt_maxva ha) (.inr fun i hi => by omega))
      · refine ⟨_, ?_, pte2pa_entry (by omega) (by omega) hPerm, rfl⟩
        rw [translate_eq (by omega), hPage, hSet hok i hi, if_pos]
        rw [has_pteV, getLsbD_entry _ _ (by decide)]
        simp
  · intro doFree hBacked
    refine wp_post (uvmunmap_cleared h hr hva hEnd hBacked) fun _ m' hCleared => ⟨hCleared.wellFormed, ?_, ?_⟩
    · intro a ha hOut
      exact translate_congr ha (hCleared.rest _ (vpn_lt_of_lt_maxva ha) (by omega))
    · intro a hLow hHigh
      have ha : a < maxva := by omega
      rw [translate_eq ha, hCleared.gone _ (vpn_lt_of_lt_maxva ha) (by omega), if_neg Bool.false_ne_true]

/-- Where there are no tables yet, only the free list matters. -/
lemma Alloc.typed (h : Alloc m ρ) (hFlat : ∀ p, ρ p = .held ∨ ρ p = .free ∨ ρ p = .outside) : Typed m ρ := by
  have hTable : ∀ {p r l a : Nat}, ρ p ≠ .table r l a := by grind
  have hLeaf : ∀ {p r v : Nat}, ρ p ≠ .leaf r v := by grind
  exact ⟨h, ⟨fun _ _ _ _ hp => (hTable hp).elim, fun _ _ _ hp => (hTable hp).elim, fun _ _ _ _ hp => (hTable hp).elim,
    fun _ _ _ _ hp => (hTable hp).elim, fun _ _ _ hp => (hLeaf hp).elim, fun _ _ _ hp => (hLeaf hp).elim⟩⟩

namespace Sample

/-- A memory of four pages, the first of them an empty table. -/
def fourPages : Mem := ⟨4096, 5 * 4096, [2 * 4096, 3 * 4096, 4 * 4096], fun _ => Bytes.fill 0⟩

def fourRoles : Roles := fun p =>
  if p = 4096 then .held else if p ∈ fourPages.freelist then .free else .outside

lemma fourRoles_typed : Typed fourPages (Function.update fourRoles 4096 (.table 4096 2 0)) := by
  have hAlloc : Alloc fourPages fourRoles := by
    refine ⟨by decide, ?_, ?_, by decide⟩
    · intro p
      simp only [fourRoles, fourPages, Mem.Managed, List.mem_cons, List.not_mem_nil, or_false]
      split
      · simp; omega
      · split
        · simp; omega
        · simp; omega
    · intro p
      unfold fourRoles
      split
      · simp [fourPages]; omega
      · split <;> simp_all
  refine (hAlloc.typed fun p => ?_).newRoot trivial fun i => pte_of_zero _ rfl i
  unfold fourRoles
  split
  · exact .inl rfl
  · split
    · exact .inr (.inl rfl)
    · exact .inr (.inr rfl)

/-- Page 0 is mapped to the root of the table itself. -/
def selfMapped : Mem :=
  match mappages 4096 0 (2 * pgsize) 4096 pteR fourPages with
  | .ok (_, m) => m
  | .error _ => fourPages

lemma selfMapped_wellFormed : WellFormed selfMapped 4096 := by
  have hLoop := @mappagesLoop_spec 4096 pteR 2 0 4096 _ _ fourRoles_typed (Function.update_self ..)
  unfold selfMapped
  change WellFormed (match mappagesLoop 4096 pteR 2 0 4096 fourPages with | .ok (_, m) => m | .error _ => fourPages) 4096
  cases hRun : mappagesLoop 4096 pteR 2 0 4096 fourPages with
  | error e => exact ⟨_, fourRoles_typed, Function.update_self ..⟩
  | ok x =>
    obtain ⟨ρ', h', hGrown, -⟩ := wp_ok hLoop hRun
    exact ⟨ρ', h', hGrown.role_of_ne_free (Function.update_self ..) Role.noConfusion⟩

end Sample

open Sample

theorem page_table_map_one : ∃ m', mappages 4096 (2 * pgsize) (1 * pgsize) 0x80000000 pteR selfMapped = .ok (true, m') ∧
    WellFormed m' 4096 ∧ (∃ pte, m'.translate 4096 (2 * pgsize) = some pte ∧ pte2pa pte = 0x80000000) ∧
    m'.translate 4096 0 = selfMapped.translate 4096 0 ∧ (selfMapped.translate 4096 0).isSome := by
  obtain ⟨ρ, hTyped, hRoot⟩ := selfMapped_wellFormed
  have hSpec := (@page_table_map _ _ 4096 (2 * pgsize) 1 0x80000000 pteR hTyped hRoot
    (by decide) (by decide) (by decide) (by decide) (by decide)).2.1
  have hTrue : (match mappages 4096 (2 * pgsize) (1 * pgsize) 0x80000000 pteR selfMapped with
      | .ok (ok, _) => ok && (selfMapped.translate 4096 0).isSome | .error _ => false) = true := by decide +kernel
  cases hRun : mappages 4096 (2 * pgsize) (1 * pgsize) 0x80000000 pteR selfMapped with
  | error e =>
    rw [hRun] at hTrue
    cases hTrue
  | ok x =>
    obtain ⟨ok, m'⟩ := x
    rw [hRun] at hTrue
    obtain ⟨rfl, hOld⟩ := (Bool.and_eq_true _ _).mp hTrue
    obtain ⟨hWell, hRest, hSet⟩ := wp_ok hSpec hRun
    obtain ⟨pte, hFind, hAddr, -⟩ := hSet rfl 0 (by decide)
    exact ⟨m', rfl, hWell, ⟨pte, hFind, hAddr⟩, hRest 0 (by decide) (.inl (by decide)), hOld⟩

/-- With `do_free` the root is overwritten, and page 1 is lost with it. -/
theorem unmap_frees_table : WellFormed selfMapped 4096 ∧
    ∃ m', uvmunmap 4096 0 1 true selfMapped = .ok ((), m') ∧
      m'.translate 4096 pgsize ≠ selfMapped.translate 4096 pgsize := by
  refine ⟨selfMapped_wellFormed, ?_⟩
  have hLost : (match uvmunmap 4096 0 1 true selfMapped with
      | .ok (_, m') => decide (m'.translate 4096 pgsize ≠ selfMapped.translate 4096 pgsize)
      | .error _ => false) = true := by decide +kernel
  cases hRun : uvmunmap 4096 0 1 true selfMapped with
  | error e =>
    rw [hRun] at hLost
    cases hLost
  | ok x =>
    rw [hRun] at hLost
    exact ⟨x.2, rfl, of_decide_eq_true hLost⟩

end Xv6K230.Vm
