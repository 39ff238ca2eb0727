import Xv6K230.Vm.Walk

/-! # Unmapping and freeing tables

`uvmunmap` returns the user pages of a range to the allocator, and `freewalk` then returns the page-table pages.
-/

namespace Xv6K230.Vm

open Riscv Prog

/-- The user pages of `r` at the places in `S` were freed; apart from page-table pages of
`r` nothing else changed. -/
structure Shrunk (r : Nat) (S : Nat → Prop) (m : Mem) (ρ : Roles) (m' : Mem) (ρ' : Roles) : Prop where
  kend : m'.kend = m.kend
  phystop : m'.phystop = m.phystop
  role : ∀ p, ρ' p = ρ p ∨ ρ' p = .free ∧ ∃ v, S v ∧ ρ p = .leaf r v
  page : ∀ p, ρ' p = ρ p → (∀ l a, ρ p ≠ .table r l a) → m'.page p = m.page p
  view : ∀ r' v, ρ r' = .table r' 2 0 → v < 512 ^ 3 → r' ≠ r ∨ ¬ S v → m'.view r' v = m.view r' v
  gone : ∀ v, S v → v < 512 ^ 3 → (m'.view r v).has pteV = false

namespace Shrunk

variable {r : Nat} {S T : Nat → Prop} {m m1 m2 : Mem} {ρ ρ1 ρ2 : Roles}

lemma refl (r : Nat) (m : Mem) (ρ : Roles) : Shrunk r (fun _ => False) m ρ m ρ :=
  ⟨rfl, rfl, fun _ => .inl rfl, fun _ _ _ => rfl, fun _ _ _ _ _ => rfl, fun _ h => h.elim⟩

lemma table (h : Shrunk r S m ρ m1 ρ1) {p r' l a : Nat} (hp : ρ p = .table r' l a) :
    ρ1 p = .table r' l a := by
  obtain hEq | ⟨-, v, -, hLeaf⟩ := h.role p
  · exact hEq.trans hp
  · rw [hp] at hLeaf
    cases hLeaf

lemma trans (h1 : Shrunk r S m ρ m1 ρ1) (h2 : Shrunk r T m1 ρ1 m2 ρ2) (hr : ρ r = .table r 2 0) :
    Shrunk r (fun v => S v ∨ T v) m ρ m2 ρ2 := by
  refine ⟨h2.kend.trans h1.kend, h2.phystop.trans h1.phystop, ?_, ?_, ?_, ?_⟩
  · intro p
    obtain hEq2 | ⟨hFree2, v, hv, hLeaf2⟩ := h2.role p
    · obtain hEq1 | ⟨hFree1, v, hv, hLeaf1⟩ := h1.role p
      · exact .inl (hEq2.trans hEq1)
      · exact .inr ⟨hEq2.trans hFree1, v, .inl hv, hLeaf1⟩
    · obtain hEq1 | ⟨hFree1, -⟩ := h1.role p
      · exact .inr ⟨hFree2, v, .inr hv, hEq1 ▸ hLeaf2⟩
      · rw [hFree1] at hLeaf2
        cases hLeaf2
  · intro p hEq hTable
    obtain hEq1 | ⟨hFree1, v, -, hLeaf1⟩ := h1.role p
    · rw [h2.page p (hEq.trans hEq1.symm) (by rw [hEq1]; exact hTable), h1.page p hEq1 hTable]
    · obtain hEq2 | ⟨-, v, -, hLeaf2⟩ := h2.role p
      · rw [hEq2, hFree1, hLeaf1] at hEq
        cases hEq
      · rw [hFree1] at hLeaf2
        cases hLeaf2
  · intro r' v hr' hv hOut
    rw [h2.view r' v (h1.table hr') hv (hOut.imp_right fun h hT => h (.inr hT)),
      h1.view r' v hr' hv (hOut.imp_right fun h hS => h (.inl hS))]
  · intro v hSv hv
    by_cases hT : T v
    · exact h2.gone v hT hv
    · rw [h2.view r v (h1.table hr) hv (.inr hT)]
      exact h1.gone v (hSv.resolve_right hT) hv

lemma weaken (h : Shrunk r S m ρ m1 ρ1) (hST : ∀ v, S v ↔ T v) : Shrunk r T m ρ m1 ρ1 := by
  obtain rfl : S = T := funext fun v => propext (hST v)
  exact h

end Shrunk

section

variable {E : Stop → Prop} {m : Mem} {ρ : Roles} {r : Nat}

def Backed (m : Mem) (ρ : Roles) (r v : Nat) : Prop :=
  (m.view r v).has pteV → ρ (pte2pa (m.view r v)) = .leaf r v

lemma shrunk_same {S : Nat → Prop} (hv : ∀ v, S v → v < 512 ^ 3 → (m.view r v).has pteV = false) :
    Shrunk r S m ρ m ρ :=
  ⟨rfl, rfl, fun _ => .inl rfl, fun _ _ _ => rfl, fun _ _ _ _ _ => rfl, hv⟩

lemma freed_leaf {m2 : Mem} {p q v : Nat} (h : Typed m ρ) (hr : ρ r = .table r 2 0)
    (hq : ρ q = .table r 0 (v / 512)) (hLeaf : ρ p = .leaf r v) (hTook : Took m2 p m)
    (h2 : Typed m2 (Function.update ρ p .free)) :
    Typed (m2.setPte q (v % 512) 0#64) (Function.update ρ p .free) ∧
    Shrunk r (· = v) m ρ (m2.setPte q (v % 512) 0#64) (Function.update ρ p .free) := by
  have hKeep : ∀ q' r' l a, ρ q' = .table r' l a → q' ≠ p ∧ Function.update ρ p .free q' = .table r' l a := by
    intro q' r' l a hq'
    have hne : q' ≠ p := ne_of_role hq' hLeaf Role.noConfusion
    exact ⟨hne, (Function.update_of_ne hne ..).trans hq'⟩
  have hNoLeaf : ∀ p', Function.update ρ p .free p' ≠ .leaf r v := by
    intro p' hp'
    obtain ⟨hne, hOld⟩ := (update_eq_of_ne Role.noConfusion).mp hp'
    exact hne (h.toTrees.leaf_unique hOld hLeaf)
  obtain ⟨h3, hGrown, hView⟩ := setEntry_grown h2 (e := 0#64) (hKeep q _ _ _ hq).2
    (fun p' hp' => absurd hp' (hNoLeaf p'))
  refine ⟨h3, ⟨hTook.kend.symm, hTook.phystop.symm, ?_, ?_, ?_, ?_⟩⟩
  · intro p'
    by_cases hpp : p' = p
    · subst hpp
      exact .inr ⟨Function.update_self .., v, rfl, hLeaf⟩
    · exact .inl (Function.update_of_ne hpp ..)
  · intro p' hEq hTable
    have hpp : p' ≠ p := by
      rintro rfl
      rw [Function.update_self, hLeaf] at hEq
      cases hEq
    rw [hGrown.page p' (by rw [hEq]; exact hTable), hTook.page p' hpp]
  · intro r' v' hr' hv' hOut
    rw [hView r' v' (hKeep _ _ _ _ hr').2 hv', if_neg (by tauto)]
    exact h.toTrees.view_congr hr' (fun q' l a hq' => (hTook.page q' (hKeep _ _ _ _ hq').1).symm) v'
  · rintro v' rfl hv'
    rw [hView r v' (hKeep _ _ _ _ hr).2 hv', if_pos ⟨rfl, rfl⟩]
    decide

lemma unmapOne_spec {a : Nat} (h : Typed m ρ) (hr : ρ r = .table r 2 0) (ha : a < maxva)
    (hBacked : Backed m ρ r (a / 4096)) :
    wp (unmapOne r true a) E (fun _ m' => ∃ ρ', Typed m' ρ' ∧ Shrunk r (· = a / 4096) m ρ m' ρ') m := by
  have hvpn := vpn_lt_of_lt_maxva ha
  simp only [unmapOne, wp_bind, wp_lookup ha]
  obtain ⟨q, hq, hs, hw⟩ | ⟨-, hs, hw⟩ := h.toTrees.view_cases hr hvpn
  · rw [hs]
    simp only [wp_bind, wp_read, ← hw]
    cases hV : (m.view r (a / 4096)).has pteV with
    | false =>
      simp only [Bool.false_eq_true, if_false, wp_pure]
      refine ⟨ρ, h, shrunk_same ?_⟩
      rintro v rfl -
      exact hV
    | true =>
      have hLeaf := hBacked hV
      simp only [if_true, wp_bind]
      generalize hp : pte2pa (m.view r (a / 4096)) = p at hLeaf
      have h1 : Typed m (Function.update ρ p .held) := by
        refine h.relabel ?_ ?_ ?_ trivial <;> rw [hLeaf] <;> exact fun hc => by cases hc
      refine kfree_spec h1 (by rw [Function.update_self]; trivial) ?_
      intro m2 hTook h2
      simp only [wp_update]
      rw [Function.update_idem] at h2
      exact ⟨_, freed_leaf h hr hq hLeaf hTook h2⟩
  · rw [hs]
    simp only [wp_pure]
    refine ⟨ρ, h, shrunk_same ?_⟩
    rintro v rfl -
    rw [hw]
    decide

lemma unmapEach_spec : ∀ (as : List Nat) {m : Mem} {ρ : Roles}, Typed m ρ → ρ r = .table r 2 0 →
    (∀ a ∈ as, a < maxva ∧ Backed m ρ r (a / 4096)) →
    wp (eachM (unmapOne r true) as) E
      (fun _ m' => ∃ ρ', Typed m' ρ' ∧ Shrunk r (fun v => ∃ a ∈ as, v = a / 4096) m ρ m' ρ') m := by
  intro as
  induction as with
  | nil =>
    intro m ρ h _ _
    simp only [eachM, wp_ret]
    exact ⟨ρ, h, (Shrunk.refl r m ρ).weaken (by simp)⟩
  | cons a as ih =>
    intro m ρ h hr hAll
    obtain ⟨ha, hBacked⟩ := hAll a List.mem_cons_self
    refine wp_call (unmapOne_spec h hr ha hBacked) ?_
    rintro - m1 ⟨ρ1, h1, hShrunk⟩
    refine wp_post (ih h1 (hShrunk.table hr) ?_) ?_
    · intro b hb
      obtain ⟨hbm, hbb⟩ := hAll b (List.mem_cons_of_mem _ hb)
      refine ⟨hbm, fun hV => ?_⟩
      -- either the page just unmapped, which is not mapped any more, or one left alone
      by_cases hEq : b / 4096 = a / 4096
      · rw [hShrunk.gone _ hEq (vpn_lt_of_lt_maxva hbm)] at hV
        cases hV
      · have hView := hShrunk.view r (b / 4096) hr (vpn_lt_of_lt_maxva hbm) (.inr hEq)
        rw [hView] at hV ⊢
        obtain hSame | ⟨-, v, rfl, hLeaf⟩ := hShrunk.role (pte2pa (m.view r (b / 4096)))
        · rw [hSame]
          exact hbb hV
        · have hClash := hLeaf.symm.trans (hbb hV)
          injection hClash with _ hab
          exact absurd hab.symm hEq
    · rintro - m2 ⟨ρ2, h2, hShrunk2⟩
      refine ⟨ρ2, h2, (hShrunk.trans hShrunk2 hr).weaken ?_⟩
      intro v
      simp

lemma unmapped_pages {va n v : Nat} (hva : va % 4096 = 0) :
    (∃ a ∈ (List.range n).map fun i => va + i * pgsize, v = a / 4096) ↔ va / 4096 ≤ v ∧ v < va / 4096 + n := by
  simp only [List.mem_map, List.mem_range, pgsize]
  constructor
  · rintro ⟨a, ⟨i, hi, rfl⟩, rfl⟩
    omega
  · rintro ⟨hLow, hHigh⟩
    exact ⟨va + (v - va / 4096) * 4096, ⟨v - va / 4096, by omega, rfl⟩, by omega⟩

lemma uvmunmap_spec {va n : Nat} (h : Typed m ρ) (hr : ρ r = .table r 2 0) (hva : va % 4096 = 0)
    (hEnd : va + n * 4096 ≤ maxva) (hBacked : ∀ v, va / 4096 ≤ v → v < va / 4096 + n → Backed m ρ r v) :
    wp (uvmunmap r va n true) E (fun _ m' => ∃ ρ', Typed m' ρ' ∧
      Shrunk r (fun v => va / 4096 ≤ v ∧ v < va / 4096 + n) m ρ m' ρ') m := by
  have hAlign : ¬ va % pgsize ≠ 0 := by simpa [pgsize] using hva
  rw [uvmunmap, if_neg hAlign]
  refine wp_post (unmapEach_spec _ h hr ?_) ?_
  · intro a ha
    simp only [List.mem_map, List.mem_range, pgsize] at ha
    obtain ⟨i, hi, rfl⟩ := ha
    refine ⟨by omega, hBacked _ (by omega) (by omega)⟩
  · rintro - m' ⟨ρ', h', hShrunk⟩
    refine ⟨ρ', h', hShrunk.weaken ?_⟩
    exact fun v => unmapped_pages hva

lemma unmapOne_nofree_spec {a : Nat} (h : Typed m ρ) (hr : ρ r = .table r 2 0) (ha : a < maxva)
    (hNoLeaf : ∀ p, ρ p ≠ .leaf r (a / 4096)) :
    wp (unmapOne r false a) E (fun _ m' => Typed m' ρ ∧ Shrunk r (· = a / 4096) m ρ m' ρ) m := by
  have hvpn := vpn_lt_of_lt_maxva ha
  simp only [unmapOne, wp_bind, wp_lookup ha]
  obtain ⟨q, hq, hs, hw⟩ | ⟨-, hs, hw⟩ := h.toTrees.view_cases hr hvpn
  · rw [hs]
    simp only [wp_bind, wp_read, ← hw]
    cases hV : (m.view r (a / 4096)).has pteV with
    | false =>
      simp only [Bool.false_eq_true, if_false, wp_pure]
      refine ⟨h, shrunk_same ?_⟩
      rintro v rfl -
      exact hV
    | true =>
      simp only [if_true, Bool.false_eq_true, if_false, wp_update]
      obtain ⟨h2, hGrown, hView⟩ := setEntry_grown h (e := 0#64) hq (fun p hp => absurd hp (hNoLeaf p))
      refine ⟨h2, ⟨rfl, rfl, fun _ => .inl rfl, fun p _ hp => hGrown.page p hp, ?_, ?_⟩⟩
      · intro r' v hr' hv hOut
        rw [hView r' v hr' hv, if_neg (by tauto)]
      · rintro v rfl hv
        rw [hView r _ hr hv, if_pos ⟨rfl, rfl⟩]
        decide
  · rw [hs]
    simp only [wp_pure]
    refine ⟨h, shrunk_same ?_⟩
    rintro v rfl -
    rw [hw]
    decide

lemma uvmunmap_nofree_spec {va : Nat} (h : Typed m ρ) (hr : ρ r = .table r 2 0) (hva : va % 4096 = 0)
    (hEnd : va < maxva) (hNoLeaf : ∀ p, ρ p ≠ .leaf r (va / 4096)) :
    wp (uvmunmap r va 1 false) E (fun _ m' => Typed m' ρ ∧ Shrunk r (· = va / 4096) m ρ m' ρ) m := by
  have hAlign : ¬ va % pgsize ≠ 0 := by simpa [pgsize] using hva
  rw [uvmunmap, if_neg hAlign]
  simp only [List.range_one, List.map_cons, List.map_nil, Nat.zero_mul, Nat.add_zero, eachM]
  exact wp_call (unmapOne_nofree_spec h hr hEnd hNoLeaf) fun _ _ hm => (wp_ret ()).mpr hm

end

/-! ## Freeing the tree -/

section

variable {E : Stop → Prop} {m : Mem} {ρ : Roles} {r : Nat}

def Subtree (ρ : Roles) (r l a x : Nat) : Prop :=
  ∃ l' a', ρ x = .table r l' a' ∧ l' ≤ l ∧ a' / 512 ^ (l - l') = a

def Below (ρ : Roles) (r l a j x : Nat) : Prop := ∃ l1, l = l1 + 1 ∧ Subtree ρ r l1 (a * 512 + j) x

lemma subtree_top (h : Trees m ρ) {l a x : Nat} (hl : l ≤ 2) (hx : Subtree ρ r l a x) :
    ∃ y, ρ y = .table r l a := by
  obtain ⟨l', a', hx, hle, ha⟩ := hx
  induction k : l - l' generalizing x l' a' with
  | zero =>
    obtain rfl : l' = l := by omega
    refine ⟨x, ?_⟩
    rw [hx, ← ha]
    simp
  | succ k ih =>
    obtain ⟨q, hq, -, -⟩ := h.up x r l' a' hx (by omega)
    refine ih (l' + 1) (a' / 512) hq (by omega) ?_ (by omega)
    rw [Nat.div_div_eq_div_mul, ← ha, show l - l' = l - (l' + 1) + 1 by omega, Nat.pow_succ']

lemma subtree_iff (h : Trees m ρ) {l a p : Nat} (hp : ρ p = .table r l a) (x : Nat) :
    Subtree ρ r l a x ↔ x = p ∨ ∃ j < 512, Below ρ r l a j x := by
  constructor
  · rintro ⟨l', a', hx, hle, ha⟩
    by_cases hEq : l' = l
    · subst hEq
      left
      rw [Nat.sub_self, pow_zero, Nat.div_one] at ha
      exact h.table_unique hx (ha ▸ hp)
    · right
      refine ⟨a' / 512 ^ (l - 1 - l') % 512, Nat.mod_lt _ (by decide), l - 1, by omega, l', a', hx, by omega, ?_⟩
      rw [← ha, show l - l' = l - 1 - l' + 1 by omega, Nat.pow_succ, ← Nat.div_div_eq_div_mul]
      omega
  · rintro (rfl | ⟨j, hj, l1, rfl, l', a', hx, hle, ha⟩)
    · exact ⟨l, a, hp, le_refl l, by simp⟩
    · refine ⟨l', a', hx, by omega, ?_⟩
      rw [show l1 + 1 - l' = l1 - l' + 1 by omega, Nat.pow_succ, ← Nat.div_div_eq_div_mul, ha]
      omega

lemma below_disjoint {l a j j' x : Nat} (hj : Below ρ r l a j x) (hj' : Below ρ r l a j' x) : j = j' := by
  obtain ⟨l1, rfl, l', a', hx, -, ha⟩ := hj
  obtain ⟨l2, hl, l'', a'', hx', -, ha'⟩ := hj'
  obtain rfl : l1 = l2 := by omega
  rw [hx] at hx'
  cases hx'
  omega

lemma not_below_top {l a j p : Nat} (hp : ρ p = .table r l a) : ¬ Below ρ r l a j p := by
  rintro ⟨l1, rfl, l', a', hx, hle, -⟩
  rw [hp] at hx
  cases hx
  omega

structure Freed (X : Nat → Prop) (m m' : Mem) : Prop where
  kend : m'.kend = m.kend
  phystop : m'.phystop = m.phystop
  list : ∃ L : List Nat, m'.freelist = L ++ m.freelist ∧ L.Nodup ∧ ∀ x, x ∈ L ↔ X x
  page : ∀ x, ¬ X x → m'.page x = m.page x

structure Freeing (ρ : Roles) (r l a p i : Nat) (m0 m m' : Mem) : Prop where
  kend : m'.kend = m.kend
  phystop : m'.phystop = m.phystop
  list : ∃ L : List Nat, m'.freelist = L ++ m.freelist ∧ L.Nodup ∧ ∀ x, x ∈ L ↔ ∃ j < i, Below ρ r l a j x
  page : ∀ x, x ≠ p → (∀ j < i, ¬ Below ρ r l a j x) → m'.page x = m.page x
  entry : ∀ j, i ≤ j → j < 512 → m'.pte p j = m0.pte p j

/-- The entries of the page `p`, as the loop of `freewalk` treats them. -/
def freewalkEntry (depth p i : Nat) : MemM Unit := do
  let pte ← Prog.read fun m => m.pte p i
  if pte.has pteV && !pte.has (pteR ||| pteW ||| pteX) then
    freewalk depth (pte2pa pte)
    Prog.update fun m => m.setPte p i 0#64
  else if pte.has pteV then
    Prog.stop .freewalkLeaf

lemma freewalk_succ (depth p : Nat) :
    freewalk (depth + 1) p = (do eachM (freewalkEntry depth p) (List.range 512); kfree p) := rfl

variable {m0 : Mem}

lemma Freeing.skip {l a p i : Nat} {t : Mem} (h : Freeing ρ r l a p i m0 m t)
    (hNone : ∀ x, ¬ Below ρ r l a i x) : Freeing ρ r l a p (i + 1) m0 m t := by
  have hIff : ∀ x, (∃ j < i + 1, Below ρ r l a j x) ↔ ∃ j < i, Below ρ r l a j x := by
    intro x
    constructor
    · rintro ⟨j, hj, hx⟩
      refine ⟨j, ?_, hx⟩
      have hne : j ≠ i := by
        rintro rfl
        exact hNone x hx
      omega
    · rintro ⟨j, hj, hx⟩
      exact ⟨j, by omega, hx⟩
  obtain ⟨L, hL, hnd, hMem⟩ := h.list
  refine ⟨h.kend, h.phystop, ⟨L, hL, hnd, fun x => (hMem x).trans (hIff x).symm⟩, ?_, ?_⟩
  · intro x hxp hx
    exact h.page x hxp (fun j hj => hx j (by omega))
  · intro j hij hj
    exact h.entry j (by omega) hj

lemma Freeing.descend {l a p i : Nat} {t t' : Mem} (h : Freeing ρ r (l + 1) a p i m0 m t)
    (hp : ρ p = .table r (l + 1) a) (hFreed : Freed (Subtree ρ r l (a * 512 + i)) t t') :
    Freeing ρ r (l + 1) a p (i + 1) m0 m (t'.setPte p i 0#64) := by
  have hBelow : ∀ x, Subtree ρ r l (a * 512 + i) x ↔ Below ρ r (l + 1) a i x :=
    fun x => ⟨fun hx => ⟨l, rfl, hx⟩, fun ⟨l1, hl, hx⟩ => by cases hl; exact hx⟩
  obtain ⟨L, hL, hnd, hMem⟩ := h.list
  obtain ⟨L', hL', hnd', hMem'⟩ := hFreed.list
  refine ⟨hFreed.kend.trans h.kend, hFreed.phystop.trans h.phystop, ⟨L' ++ L, ?_, ?_, ?_⟩, ?_, ?_⟩
  · rw [setPte_freelist, hL', hL, List.append_assoc]
  · refine List.nodup_append'.mpr ⟨hnd', hnd, ?_⟩
    intro x hx' hx
    obtain ⟨j, hj, hjx⟩ := (hMem x).mp hx
    have hEq := below_disjoint hjx ((hBelow x).mp ((hMem' x).mp hx'))
    omega
  · intro x
    rw [List.mem_append, hMem', hMem, hBelow]
    constructor
    · rintro (hx | ⟨j, hj, hx⟩)
      · exact ⟨i, by omega, hx⟩
      · exact ⟨j, by omega, hx⟩
    · rintro ⟨j, hj, hx⟩
      by_cases hji : j = i
      · exact .inl (hji ▸ hx)
      · exact .inr ⟨j, by omega, hx⟩
  · intro x hxp hx
    rw [setPte_page_of_ne _ _ _ hxp, hFreed.page x, h.page x hxp (fun j hj => hx j (by omega))]
    rw [hBelow]
    exact hx i (by omega)
  · intro j hij hj
    rw [pte_setPte_of_index_ne _ _ (show j ≠ i by omega), pte_congr, h.entry j (by omega) hj]
    refine hFreed.page p ?_
    rw [hBelow]
    exact not_below_top hp

lemma freewalk_of_entries (h : Typed m0 ρ) {l a p : Nat} (hp : ρ p = .table r l a)
    (hkend : m.kend = m0.kend) (hphys : m.phystop = m0.phystop) (hpage : m.page p = m0.page p)
    (hstep : ∀ i < 512, ∀ t, Freeing ρ r l a p i m0 m t →
      wp (freewalkEntry l p i) E (fun _ u => Freeing ρ r l a p (i + 1) m0 m u) t) :
    wp (freewalk (l + 1) p) E (fun _ m' => Freed (Subtree ρ r l a) m m') m := by
  have hStart : Freeing ρ r l a p 0 m0 m m :=
    ⟨rfl, rfl, ⟨[], rfl, List.nodup_nil, by simp⟩, fun _ _ _ => rfl, fun j _ _ => pte_congr hpage j⟩
  have hLoop : wp (eachM (freewalkEntry l p) (List.range 512)) E
      (fun _ u => Freeing ρ r l a p 512 m0 m u) m := by
    rw [List.range_eq_range']
    refine wp_post (wp_eachM (I := fun rest t =>
      ∃ i ≤ 512, rest = List.range' i (512 - i) ∧ Freeing ρ r l a p i m0 m t) ?_ _ m ⟨0, by omega, rfl, hStart⟩) ?_
    · rintro b bs t ⟨i, hi, hRest, hFreeing⟩
      have hlt : i < 512 := by
        by_contra hge
        rw [show 512 - i = 0 by omega] at hRest
        cases hRest
      rw [show 512 - i = 512 - (i + 1) + 1 by omega, List.range'_succ] at hRest
      injection hRest with hb hbs
      subst hb
      refine wp_post (hstep b hlt t hFreeing) ?_
      intro _ u hu
      exact ⟨b + 1, by omega, hbs, hu⟩
    · rintro - u ⟨i, hi, hRest, hFreeing⟩
      have hEq : i = 512 := by
        have hLen := congrArg List.length hRest
        simp only [List.length_nil, List.length_range'] at hLen
        omega
      exact hEq ▸ hFreeing
  rw [freewalk_succ, wp_bind]
  refine wp_post hLoop ?_
  intro _ t ht
  obtain ⟨hAlign, hLow, hHigh⟩ := (h.managed p).mp (by rw [hp]; exact Role.noConfusion)
  obtain ⟨L, hL, hnd, hMem⟩ := ht.list
  unfold kfree
  simp only [wp_bind, wp_read, wp_ite, wp_stop, memset, wp_update]
  refine ⟨fun hBad => ?_, fun _ => ⟨ht.kend, ht.phystop, ⟨p :: L, ?_, ?_, ?_⟩, ?_⟩⟩
  · simp only [id_eq, pgsize, ht.kend, ht.phystop, hkend, hphys] at hBad
    omega
  · simp [hL]
  · refine List.nodup_cons.mpr ⟨?_, hnd⟩
    rw [hMem]
    rintro ⟨j, -, hj⟩
    exact not_below_top hp hj
  · intro x
    rw [List.mem_cons, hMem, subtree_iff h.toTrees hp]
  · intro x hx
    rw [subtree_iff h.toTrees hp, not_or] at hx
    refine (setPage_page_of_ne t _ hx.1).trans (ht.page x hx.1 ?_)
    exact fun j hj hjx => hx.2 ⟨j, hj, hjx⟩

lemma freewalk_zero_spec (h : Typed m0 ρ) {a p : Nat} (hp : ρ p = .table r 0 a)
    (hkend : m.kend = m0.kend) (hphys : m.phystop = m0.phystop) (hpage : m.page p = m0.page p)
    (hNoLeaf : ∀ v, v / 512 = a → (m0.view r v).has pteV = false) :
    wp (freewalk 1 p) E (fun _ m' => Freed (Subtree ρ r 0 a) m m') m := by
  refine freewalk_of_entries h hp hkend hphys hpage ?_
  intro i hi t ht
  have hV : (t.pte p i).has pteV = false := by
    rw [ht.entry i (le_refl i) hi, ← h.toTrees.view_of_table hp hi]
    exact hNoLeaf _ (by omega)
  simp only [freewalkEntry, wp_bind, wp_read, hV, Bool.false_and, Bool.false_eq_true, if_false, wp_pure]
  refine ht.skip ?_
  rintro x ⟨l1, hl, -⟩
  omega

lemma freewalk_succ_spec (h : Typed m0 ρ) {l a p : Nat} (hp : ρ p = .table r (l + 1) a)
    (hkend : m.kend = m0.kend) (hphys : m.phystop = m0.phystop)
    (hpage : ∀ x, Subtree ρ r (l + 1) a x → m.page x = m0.page x)
    (ih : ∀ c i t, i < 512 → ρ c = .table r l (a * 512 + i) → t.kend = m0.kend → t.phystop = m0.phystop →
      (∀ x, Subtree ρ r l (a * 512 + i) x → t.page x = m0.page x) →
      wp (freewalk (l + 1) c) E (fun _ t' => Freed (Subtree ρ r l (a * 512 + i)) t t') t) :
    wp (freewalk (l + 1 + 1) p) E (fun _ m' => Freed (Subtree ρ r (l + 1) a) m m') m := by
  have hSub := subtree_iff h.toTrees hp
  refine freewalk_of_entries h hp hkend hphys (hpage p ((hSub p).mpr (.inl rfl))) ?_
  intro i hi t ht
  have hEntry := ht.entry i (le_refl i) hi
  simp only [freewalkEntry, wp_bind, wp_read, hEntry]
  cases hV : (m0.pte p i).has pteV with
  | false =>
    simp only [Bool.false_and, Bool.false_eq_true, if_false, wp_pure]
    refine ht.skip ?_
    -- a page below an invalid entry would be linked from it
    rintro x ⟨l1, hl, hx⟩
    obtain rfl : l = l1 := by omega
    have hLevel := (h.level p r _ a hp).1
    obtain ⟨y, hy⟩ := subtree_top h.toTrees (by omega) hx
    obtain ⟨q, hq, hv, -⟩ := h.up y r l _ hy (by omega)
    rw [show (a * 512 + i) / 512 = a by omega] at hq
    rw [h.toTrees.table_unique hq hp, show (a * 512 + i) % 512 = i by omega, hV] at hv
    cases hv
  | true =>
    obtain ⟨hc, hRwx⟩ := h.down p r l a hp i hi hV
    simp only [hRwx, Bool.not_false, Bool.and_true, if_true, wp_bind, wp_update]
    refine wp_post (ih _ i t hi hc (ht.kend.trans hkend) (ht.phystop.trans hphys) ?_) ?_
    · intro x hx
      have hBelow : Below ρ r (l + 1) a i x := ⟨l, rfl, hx⟩
      rw [ht.page x, hpage x ((hSub x).mpr (.inr ⟨i, hi, hBelow⟩))]
      · rintro rfl
        exact not_below_top hp hBelow
      · intro j hj hjx
        have hEq := below_disjoint hjx hBelow
        omega
    · intro _ t' hFreed
      exact ht.descend hp hFreed

/-- The roles after the table at `r` has been freed. -/
def Roles.drop (ρ : Roles) (r : Nat) : Roles := fun p =>
  match ρ p with
  | .table r' l a => if r' = r then .free else .table r' l a
  | c => c

lemma drop_table (ρ : Roles) {p r l a : Nat} (hp : ρ p = .table r l a) : ρ.drop r p = .free := by
  simp [Roles.drop, hp]

lemma drop_of_ne (ρ : Roles) {p r : Nat} (hp : ∀ l a, ρ p ≠ .table r l a) : ρ.drop r p = ρ p := by
  unfold Roles.drop
  split
  · rename_i r' l a hEq
    rw [if_neg, hEq]
    rintro rfl
    exact hp l a hEq
  · rfl

lemma drop_eq_iff (ρ : Roles) {p r : Nat} {c : Role} (hc : c ≠ .free) :
    ρ.drop r p = c ↔ ρ p = c ∧ ∀ l a, ρ p ≠ .table r l a := by
  by_cases hp : ∃ l a, ρ p = .table r l a
  · obtain ⟨l, a, hp⟩ := hp
    rw [drop_table ρ hp]
    exact ⟨fun h => absurd h.symm hc, fun h => absurd hp (h.2 l a)⟩
  · have hp' : ∀ l a, ρ p ≠ .table r l a := fun l a h => hp ⟨l, a, h⟩
    rw [drop_of_ne ρ hp']
    exact ⟨fun h => ⟨h, hp'⟩, fun h => h.1⟩

lemma Typed.dropped {m' : Mem} (h : Typed m ρ) (hr : ρ r = .table r 2 0)
    (hNoLeaf : ∀ v < 512 ^ 3, (m.view r v).has pteV = false) (hFreed : Freed (Subtree ρ r 2 0) m m') :
    Typed m' (ρ.drop r) := by
  have hSub : ∀ x, Subtree ρ r 2 0 x ↔ ∃ l a, ρ x = .table r l a := by
    intro x
    constructor
    · rintro ⟨l, a, hx, -, -⟩
      exact ⟨l, a, hx⟩
    · rintro ⟨l, a, hx⟩
      obtain ⟨hl, ha⟩ := h.level x r l a hx
      exact ⟨l, a, hx, hl, Nat.div_eq_of_lt ha⟩
  have hPage : ∀ x, (∀ l a, ρ x ≠ .table r l a) → m'.page x = m.page x := by
    intro x hx
    refine hFreed.page x ?_
    rw [hSub]
    rintro ⟨l, a, hEq⟩
    exact hx l a hEq
  have hOther : ∀ x r' l a, ρ.drop r x = .table r' l a → r' ≠ r ∧ ρ x = .table r' l a ∧ m'.page x = m.page x := by
    intro x r' l a hx
    obtain ⟨hOld, hne⟩ := (drop_eq_iff ρ Role.noConfusion).mp hx
    refine ⟨?_, hOld, hPage x hne⟩
    rintro rfl
    exact hne l a hOld
  have hKeep : ∀ x r' l a, r' ≠ r → ρ x = .table r' l a → ρ.drop r x = .table r' l a := by
    intro x r' l a hne hx
    refine (drop_eq_iff ρ Role.noConfusion).mpr ⟨hx, fun l' a' hEq => hne ?_⟩
    rw [hx] at hEq
    cases hEq
    rfl
  have hLeaf : ∀ x r' v, ρ.drop r x = .leaf r' v → r' ≠ r ∧ ρ x = .leaf r' v := by
    intro x r' v hx
    obtain ⟨hOld, -⟩ := (drop_eq_iff ρ Role.noConfusion).mp hx
    refine ⟨?_, hOld⟩
    rintro rfl
    exact h.no_leaf_of_invalid (hNoLeaf v (h.leafRoot x r' v hOld).2) x hOld
  obtain ⟨L, hL, hnd, hMem⟩ := hFreed.list
  refine ⟨⟨?_, ?_, ?_, ?_⟩, ?_, ?_, ?_, ?_, ?_, ?_⟩
  · rw [hFreed.kend, hFreed.phystop]
    exact h.bounds
  · intro p
    rw [show m'.Managed p ↔ m.Managed p by rw [Mem.Managed, Mem.Managed, hFreed.kend, hFreed.phystop],
      ← h.managed p]
    by_cases hp : ∃ l a, ρ p = .table r l a
    · obtain ⟨l, a, hp⟩ := hp
      simp [drop_table ρ hp, hp]
    · rw [drop_of_ne ρ (fun l a hEq => hp ⟨l, a, hEq⟩)]
  · intro p
    rw [hL, List.mem_append, hMem, hSub, ← h.free p]
    by_cases hp : ∃ l a, ρ p = .table r l a
    · obtain ⟨l, a, hEq⟩ := hp
      simp [drop_table ρ hEq, hEq]
    · rw [drop_of_ne ρ (fun l a hEq => hp ⟨l, a, hEq⟩)]
      simp [hp]
  · rw [hL]
    refine List.nodup_append'.mpr ⟨hnd, h.nodup, ?_⟩
    intro x hx hFree
    obtain ⟨l, a, hEq⟩ := (hSub x).mp ((hMem x).mp hx)
    rw [← h.free, hEq] at hFree
    cases hFree
  · intro x r' l a hx
    exact h.level x r' l a (hOther x r' l a hx).2.1
  · intro x r' a hx
    exact h.root x r' a (hOther x r' 2 a hx).2.1
  · intro x r' l a hx i hi hv
    obtain ⟨hne, hOld, hpg⟩ := hOther x r' _ a hx
    rw [pte_congr hpg] at hv ⊢
    obtain ⟨hd, hrwx⟩ := h.down x r' l a hOld i hi hv
    exact ⟨hKeep _ _ _ _ hne hd, hrwx⟩
  · intro x r' l a hx hl
    obtain ⟨hne, hOld, -⟩ := hOther x r' _ a hx
    obtain ⟨q, hq, hv⟩ := h.up x r' l a hOld hl
    have hq' := hKeep _ _ _ _ hne hq
    refine ⟨q, hq', ?_⟩
    rw [pte_congr (hOther _ _ _ _ hq').2.2]
    exact hv
  · intro x r' v hx
    obtain ⟨hne, hOld⟩ := hLeaf x r' v hx
    obtain ⟨hroot, hv⟩ := h.leafRoot x r' v hOld
    exact ⟨hKeep _ _ _ _ hne hroot, hv⟩
  · intro x r' v hx
    obtain ⟨hne, hOld⟩ := hLeaf x r' v hx
    rw [h.toTrees.view_congr (h.leafRoot x r' v hOld).1
      (fun q l a hq => (hOther _ _ _ _ (hKeep q r' l a hne hq)).2.2) v]
    exact h.leafUp x r' v hOld

lemma freewalk_root_spec (h : Typed m ρ) (hr : ρ r = .table r 2 0)
    (hNoLeaf : ∀ v < 512 ^ 3, (m.view r v).has pteV = false) :
    wp (freewalk 3 r) E (fun _ m' => Typed m' (ρ.drop r) ∧ m'.kend = m.kend ∧ m'.phystop = m.phystop ∧
      ∀ p, (∀ l a, ρ p ≠ .table r l a) → m'.page p = m.page p) m := by
  have hWalk : wp (freewalk 3 r) E (fun _ m' => Freed (Subtree ρ r 2 0) m m') m := by
    refine freewalk_succ_spec h hr rfl rfl (fun _ _ => rfl) ?_
    intro c1 i1 t1 _ hc1 hk1 hp1 hpage1
    refine freewalk_succ_spec h hc1 hk1 hp1 hpage1 ?_
    intro c0 i0 t0 _ hc0 hk0 hp0 hpage0
    refine freewalk_zero_spec h hc0 hk0 hp0 (hpage0 c0 ⟨0, _, hc0, le_refl 0, by simp⟩) ?_
    intro v hv
    have hIndex := (h.level c0 r 0 _ hc0).2
    exact hNoLeaf v (by omega)
  refine wp_post hWalk ?_
  intro _ m' hFreed
  refine ⟨h.dropped hr hNoLeaf hFreed, hFreed.kend, hFreed.phystop, ?_⟩
  intro p hp
  refine hFreed.page p ?_
  rintro ⟨l, a, hEq, -⟩
  exact hp l a hEq

end

end Xv6K230.Vm
