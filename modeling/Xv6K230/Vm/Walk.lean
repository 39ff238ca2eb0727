import Xv6K230.Vm.Typing

/-! # Walking and mapping

What `kalloc`, `kfree`, `walk` and `mappages` do to a typed memory.
-/

namespace Xv6K230.Vm

open Function (update_of_ne update_self)
open Riscv Prog

/-- The page-table pages of the given and lower levels that a walk would allocate. -/
def Mem.missingFrom (m : Mem) (va : Nat) : Nat → Nat → Nat
  | 0, _ => 0
  | level + 1, pt =>
    if (m.pte pt (px (level + 1) va)).has pteV then
      m.missingFrom va level (pte2pa (m.pte pt (px (level + 1) va)))
    else level + 1

def Mem.missing (m : Mem) (pagetable va : Nat) : Nat := m.missingFrom va 2 pagetable

structure Grown (r : Nat) (m : Mem) (ρ : Roles) (m' : Mem) (ρ' : Roles) : Prop where
  kend : m'.kend = m.kend
  phystop : m'.phystop = m.phystop
  role : ∀ p, ρ' p = ρ p ∨ ρ p = .free ∧ ∃ l a, ρ' p = .table r l a
  page : ∀ p, (∀ l a, ρ' p ≠ .table r l a) → m'.page p = m.page p

namespace Grown

variable {r : Nat} {m m1 m2 : Mem} {ρ ρ1 ρ2 : Roles}

lemma refl (r : Nat) (m : Mem) (ρ : Roles) : Grown r m ρ m ρ :=
  ⟨rfl, rfl, fun _ => .inl rfl, fun _ _ => rfl⟩

lemma trans (h1 : Grown r m ρ m1 ρ1) (h2 : Grown r m1 ρ1 m2 ρ2) : Grown r m ρ m2 ρ2 := by
  refine ⟨h2.kend.trans h1.kend, h2.phystop.trans h1.phystop, ?_, ?_⟩
  · grind [h1.role, h2.role]
  · grind [h2.page, h1.page, h2.role]

lemma role_of_ne_free (h : Grown r m ρ m1 ρ1) {p : Nat} {c : Role} (hp : ρ p = c) (hc : c ≠ .free) :
    ρ1 p = c := by
  obtain hEq | ⟨hFree, -⟩ := h.role p
  · exact hEq.trans hp
  · exact absurd (hp.symm.trans hFree) hc

end Grown

/-! ## The allocator -/

section

variable {E : Stop → Prop} {m : Mem} {ρ : Roles} {c : Role}

structure Took (m : Mem) (p : Nat) (m' : Mem) : Prop where
  kend : m'.kend = m.kend
  phystop : m'.phystop = m.phystop
  page : ∀ q, q ≠ p → m'.page q = m.page q
  count : m'.freelist.length + 1 = m.freelist.length

lemma kalloc_spec (h : Typed m ρ) (hc : c.Loose) {Q : Nat → Mem → Prop}
    (hNone : m.freelist = [] → Q 0 m)
    (hSome : ∀ p m', p ≠ 0 → ρ p = .free → Took m p m' → Typed m' (Function.update ρ p c) → Q p m') :
    wp kalloc E Q m := by
  unfold kalloc
  simp only [wp_bind, wp_read]
  cases hl : m.freelist with
  | nil =>
    simp only [wp_pure]
    exact hNone hl
  | cons p rest =>
    simp only [wp_bind, wp_update, wp_pure, memset]
    have hp : ρ p = .free := (h.free p).mpr (by rw [hl]; exact List.mem_cons_self)
    have hPos := (h.toAlloc.pos_of_role (p := p) (by rw [hp]; exact Role.noConfusion)).1
    refine hSome p _ hPos hp ⟨rfl, rfl, fun q hq => setPage_page_of_ne _ _ hq, ?_⟩ ?_
    · simp [hl]
    · refine (h.pop hl hc).setPage _ ?_
      rw [update_self]
      exact hc.not_table

lemma kfree_spec {p : Nat} (h : Typed m ρ) (hp : (ρ p).Loose) {Q : Unit → Mem → Prop}
    (hQ : ∀ m', Took m' p m → Typed m' (Function.update ρ p .free) → Q () m') :
    wp (kfree p) E Q m := by
  obtain ⟨hAlign, hLow, hHigh⟩ := (h.managed p).mp hp.ne_outside
  unfold kfree
  simp only [wp_bind, wp_read, wp_ite, wp_stop, memset, wp_update]
  refine ⟨fun hBad => ?_, fun _ => ?_⟩
  · simp only [id_eq, pgsize] at hBad
    omega
  · refine hQ _ ⟨rfl, rfl, fun q hq => (setPage_page_of_ne _ _ hq).symm, rfl⟩ ?_
    exact (h.setPage (Bytes.fill 1) hp.not_table).push hp

end

/-! ## Lookup -/

section

lemma px_zero (va : Nat) : px 0 va = va / 4096 % 512 := rfl

lemma px_one (va : Nat) : px 1 va = va / 4096 / 512 % 512 := by
  norm_num [px, Nat.div_div_eq_div_mul]

lemma px_two (va : Nat) : px 2 va = va / 4096 / 512 / 512 % 512 := by
  norm_num [px, Nat.div_div_eq_div_mul]

variable {E : Stop → Prop} {m : Mem}

lemma wp_lookup {r va : Nat} (hva : va < maxva) {Q : Option (Nat × Nat) → Mem → Prop} :
    wp (walk r va false) E Q m ↔ Q (m.slot r (va / 4096)) m := by
  rw [walk, if_neg (by omega)]
  simp only [walkFrom, wp_bind, wp_read, px_two, px_one, px_zero, Nat.reduceAdd, Mem.slot]
  cases h2 : (m.pte r (va / 4096 / 512 / 512 % 512)).has pteV with
  | false => simp
  | true =>
    cases h1 : (m.pte (pte2pa (m.pte r (va / 4096 / 512 / 512 % 512))) (va / 4096 / 512 % 512)).has pteV with
    | false => simp [h1]
    | true => simp [h1]

end

/-! ## Allocating walks -/

section

variable {E : Stop → Prop} {m : Mem} {ρ : Roles}

lemma newTable_view (h : Typed m ρ) {p q r l a i : Nat} (hq : ρ q = .table r (l + 1) a) (hi : i < 512)
    (hv : (m.pte q i).has pteV = false) (hp : (ρ p).Loose) (hz : ∀ j, m.pte p j = 0#64) {r' v : Nat}
    (hr : ρ r' = .table r' 2 0) (hvv : v < 512 ^ 3) :
    (m.setPte q i (pa2pte p ||| pteV)).view r' v = m.view r' v := by
  have h' := h.newTable hq hi hv hp hz
  have hKeep : ∀ q' r' l' a', ρ q' = .table r' l' a' →
      Function.update ρ p (.table r l (a * 512 + i)) q' = .table r' l' a' := by
    intro q' r' l' a' hq'
    rw [update_of_ne, hq']
    rintro rfl
    exact hp.not_table (by rw [hq']; trivial)
  have hqp : q ≠ p := by
    rintro rfl
    exact hp.not_table (by rw [hq]; trivial)
  obtain ⟨q1, hq1, -, hw1⟩ | ⟨hNone1, -, hw1⟩ := h'.toTrees.view_cases (hKeep _ _ _ _ hr) hvv
  · obtain ⟨q2, hq2, -, hw2⟩ | ⟨hNone2, -, hw2⟩ := h.toTrees.view_cases hr hvv
    · grind [h'.toTrees.table_unique, pte_setPte_of_page_ne]
    · grind [Function.update_apply, pte_setPte_of_page_ne]
  · obtain ⟨q2, hq2, -, -⟩ | ⟨-, -, hw2⟩ := h.toTrees.view_cases hr hvv
    · exact absurd (hKeep _ _ _ _ hq2) (hNone1 q2)
    · rw [hw1, hw2]

lemma missingFrom_of_zero {pt va : Nat} (hz : ∀ j, m.pte pt j = 0#64) (l : Nat) :
    m.missingFrom va l pt = l := by
  cases l with
  | zero => rfl
  | succ l =>
    rw [Mem.missingFrom, hz, if_neg]
    decide

/-- A page fresh from the allocator, zeroed and linked below the page `pt` of table `r`. -/
lemma grown_of_took (h : Typed m ρ) {m1 : Mem} {p pt r l a i : Nat} (hpt : ρ pt = .table r (l + 1) a)
    (hi : i < 512) (hv : (m.pte pt i).has pteV = false) (hFree : ρ p = .free) (hTook : Took m p m1)
    (h1 : Typed m1 (Function.update ρ p .held)) :
    ∃ ρ', Typed ((m1.setPage p (Bytes.fill 0)).setPte pt i (pa2pte p ||| pteV)) ρ' ∧
      Grown r m ρ ((m1.setPage p (Bytes.fill 0)).setPte pt i (pa2pte p ||| pteV)) ρ' ∧
      (∀ r' v, ρ r' = .table r' 2 0 → v < 512 ^ 3 →
        ((m1.setPage p (Bytes.fill 0)).setPte pt i (pa2pte p ||| pteV)).view r' v = m.view r' v) ∧
      ρ' p = .table r l (a * 512 + i) ∧ (∀ q, q ≠ p → ρ' q = ρ q) ∧
      ∀ j, ((m1.setPage p (Bytes.fill 0)).setPte pt i (pa2pte p ||| pteV)).pte p j = 0#64 := by
  have hptp : pt ≠ p := ne_of_role hpt hFree Role.noConfusion
  have hHeld : (Function.update ρ p .held p).Loose := by
    rw [update_self]
    trivial
  have hOther : ∀ q, q ≠ p → Function.update ρ p .held q = ρ q := fun q hq => update_of_ne hq ..
  have hPage : ∀ q, q ≠ p → (m1.setPage p (Bytes.fill 0)).page q = m.page q :=
    fun q hq => (setPage_page_of_ne _ _ hq).trans (hTook.page q hq)
  have h2 := h1.setPage (p := p) (Bytes.fill 0) hHeld.not_table
  have hz : ∀ j, (m1.setPage p (Bytes.fill 0)).pte p j = 0#64 :=
    fun j => pte_of_zero _ (setPage_page_same ..) j
  have hpt2 : Function.update ρ p .held pt = .table r (l + 1) a := (hOther pt hptp).trans hpt
  have hv2 : ((m1.setPage p (Bytes.fill 0)).pte pt i).has pteV = false := by
    rw [pte_congr (hPage pt hptp), hv]
  refine ⟨_, h2.newTable hpt2 hi hv2 hHeld hz, ⟨hTook.kend, hTook.phystop, ?_, ?_⟩, ?_,
    update_self .., ?_, ?_⟩
  · grind
  · grind [Function.update_apply, setPte_page_of_ne]
  · intro r' v hr hvv
    have hrp : r' ≠ p := ne_of_role hr hFree Role.noConfusion
    rw [newTable_view h2 hpt2 hi hv2 hHeld hz ((hOther r' hrp).trans hr) hvv]
    exact h.toTrees.view_congr hr (fun q l a hq => hPage q (ne_of_role hq hFree Role.noConfusion)) v
  · intro q hqp
    rw [update_of_ne hqp, hOther q hqp]
  · intro j
    rw [pte_setPte_of_page_ne _ _ _ _ (Ne.symm hptp), hz]

/-- The outcome of an allocating walk for `va` in table `r`, from `m` with roles `ρ`. -/
def WalkResult (r va : Nat) (need : Nat) (m : Mem) (ρ : Roles) (res : Option (Nat × Nat)) (m' : Mem) : Prop :=
  ∃ ρ', Typed m' ρ' ∧ Grown r m ρ m' ρ' ∧
    (∀ r' v, ρ r' = .table r' 2 0 → v < 512 ^ 3 → m'.view r' v = m.view r' v) ∧
    (∀ q l a, ρ' q = .table r l a → ρ q = .table r l a ∨ a = va / 4096 / 512 ^ (l + 1)) ∧
    match res with
    | some (q, i) => ρ' q = .table r 0 (va / 4096 / 512) ∧ i = va / 4096 % 512 ∧
        m'.freelist.length + need = m.freelist.length
    | none => m.freelist.length < need

lemma walkFrom_spec {r va : Nat} : ∀ (l pt : Nat) {m : Mem} {ρ : Roles}, Typed m ρ →
    ρ pt = .table r l (va / 4096 / 512 ^ (l + 1)) →
    wp (walkFrom va true l pt) E (WalkResult r va (m.missingFrom va l pt) m ρ) m := by
  intro l
  induction l with
  | zero =>
    intro pt m ρ h hpt
    simp only [walkFrom, wp_pure]
    exact ⟨ρ, h, Grown.refl r m ρ, fun _ _ _ _ => rfl, fun _ _ _ hq => .inl hq, by simpa using hpt, rfl, rfl⟩
  | succ l ih =>
    intro pt m ρ h hpt
    have hIndex : va / 4096 / 512 ^ (l + 1 + 1) * 512 + px (l + 1) va = va / 4096 / 512 ^ (l + 1) := by
      have hpx : px (l + 1) va = va / 4096 / 512 ^ (l + 1) % 512 := by
        rw [px, Nat.pow_add, Nat.pow_mul, ← Nat.div_div_eq_div_mul]
      rw [hpx, Nat.pow_succ 512 (l + 1), ← Nat.div_div_eq_div_mul]
      omega
    simp only [walkFrom, wp_bind, wp_read, Mem.missingFrom]
    cases hv : (m.pte pt (px (l + 1) va)).has pteV with
    | true =>
      obtain ⟨hd, -⟩ := h.down pt r l _ hpt _ (px_lt _ _) hv
      rw [hIndex] at hd
      exact ih _ h hd
    | false =>
      simp only [Bool.false_eq_true, if_false, Bool.not_true, wp_bind]
      refine kalloc_spec h (c := .held) trivial ?_ ?_
      · intro hNil
        simp only [if_true, wp_pure]
        exact ⟨ρ, h, Grown.refl r m ρ, fun _ _ _ _ => rfl, fun _ _ _ hq => .inl hq, by simp [hNil]⟩
      · intro p m1 hpos hFree hTook h1
        rw [if_neg hpos]
        simp only [wp_bind, memset, wp_update]
        obtain ⟨ρ1, h2, hGrown, hView, hp1, hOther, hz⟩ := grown_of_took h hpt (px_lt _ _) hv hFree hTook h1
        rw [hIndex] at hp1
        refine wp_post (ih p h2 hp1) ?_
        rintro res m' ⟨ρ', h', hGrown', hView', hTables', hRes⟩
        rw [missingFrom_of_zero hz] at hRes
        refine ⟨ρ', h', hGrown.trans hGrown', ?_, ?_, ?_⟩
        · intro r' v hr hvv
          rw [hView' r' v (hGrown.role_of_ne_free hr Role.noConfusion) hvv, hView r' v hr hvv]
        · intro q l' a hq
          rcases hTables' q l' a hq with hOld | hPath
          · by_cases hqp : q = p
            · rw [hqp, hp1] at hOld
              cases hOld
              exact .inr rfl
            · exact .inl (hOther q hqp ▸ hOld)
          · exact .inr hPath
        · have hCount := hTook.count
          cases res with
          | none =>
            simp only [setPte_freelist, setPage_freelist] at hRes ⊢
            omega
          | some s =>
            obtain ⟨hq, hi, hLen⟩ := hRes
            simp only [setPte_freelist, setPage_freelist] at hLen
            exact ⟨hq, hi, by omega⟩

lemma walk_alloc_spec {r va : Nat} (h : Typed m ρ) (hr : ρ r = .table r 2 0) (hva : va < maxva) :
    wp (walk r va true) E (WalkResult r va (m.missing r va) m ρ) m := by
  rw [walk, if_neg (by omega)]
  refine walkFrom_spec 2 r h ?_
  rw [hr, show va / 4096 / 512 ^ (2 + 1) = 0 from ?_]
  simp only [maxva] at hva
  omega

end

/-! ## Mapping one page -/

section

variable {E : Stop → Prop} {m : Mem} {ρ : Roles}

lemma Typed.no_leaf_of_invalid (h : Typed m ρ) {r v : Nat} (hv : (m.view r v).has pteV = false) (p : Nat) :
    ρ p ≠ .leaf r v := by
  intro hp
  rw [(h.leafUp p r v hp).1] at hv
  cases hv

def MapResult (r va : Nat) (e : Pte) (m : Mem) (ρ : Roles) (ok : Bool) (m' : Mem) : Prop :=
  ∃ ρ', Typed m' ρ' ∧ Grown r m ρ m' ρ' ∧
    (∀ r' v, ρ r' = .table r' 2 0 → v < 512 ^ 3 →
      m'.view r' v = if ok = true ∧ r' = r ∧ v = va / 4096 then e else m.view r' v) ∧
    (∀ q l a, ρ' q = .table r l a → ρ q = .table r l a ∨ a = va / 4096 / 512 ^ (l + 1)) ∧
    if ok then m'.freelist.length + m.missing r va = m.freelist.length
    else m.freelist.length < m.missing r va

lemma vpn_lt_of_lt_maxva {va : Nat} (hva : va < maxva) : va / 4096 < 512 ^ 3 := by
  simp only [maxva] at hva
  omega

lemma setEntry_grown (h : Typed m ρ) {q r v : Nat} {e : Pte} (hq : ρ q = .table r 0 (v / 512))
    (hLeaf : ∀ p, ρ p = .leaf r v → e.has pteV ∧ pte2pa e = p) :
    Typed (m.setPte q (v % 512) e) ρ ∧ Grown r m ρ (m.setPte q (v % 512) e) ρ ∧
    ∀ r' v', ρ r' = .table r' 2 0 → v' < 512 ^ 3 →
      (m.setPte q (v % 512) e).view r' v' = if r' = r ∧ v' = v then e else m.view r' v' := by
  rw [← Nat.div_add_mod' v 512] at hLeaf
  obtain ⟨h', hView, -⟩ := h.setEntry hq hLeaf (Nat.mod_lt _ (by decide))
  rw [Nat.div_add_mod' v 512] at hView
  refine ⟨h', ⟨rfl, rfl, fun _ => .inl rfl, ?_⟩, hView⟩
  intro p hp
  refine setPte_page_of_ne m _ _ ?_
  rintro rfl
  exact hp _ _ hq

lemma mappages_page {r va pa : Nat} {perm : Pte} (hAlign : va % 4096 = 0) :
    mappages r va pgsize pa perm = mappagesLoop r perm 1 va pa := by
  have hva : ¬ va % pgsize ≠ 0 := by simpa [pgsize] using hAlign
  rw [mappages, if_neg hva, if_neg (by decide), if_neg (by decide)]
  rfl

lemma mappages_one_spec {r va pa : Nat} {perm : Pte} (h : Typed m ρ) (hr : ρ r = .table r 2 0)
    (hva : va < maxva) (hAlign : va % 4096 = 0) (hv : (m.view r (va / 4096)).has pteV = false) :
    wp (mappages r va pgsize pa perm) E (MapResult r va (pa2pte pa ||| perm ||| pteV) m ρ) m := by
  have hvpn := vpn_lt_of_lt_maxva hva
  rw [mappages_page hAlign]
  simp only [mappagesLoop, wp_bind]
  refine wp_post (walk_alloc_spec h hr hva) ?_
  rintro res m1 ⟨ρ1, h1, hGrown, hView, hTables, hRes⟩
  have hr1 : ρ1 r = .table r 2 0 := hGrown.role_of_ne_free hr Role.noConfusion
  cases res with
  | none =>
    simp only [wp_pure]
    refine ⟨ρ1, h1, hGrown, ?_, hTables, by simpa using hRes⟩
    intro r' v hr' hvv
    simpa using hView r' v hr' hvv
  | some s =>
    obtain ⟨q, i⟩ := s
    obtain ⟨hq, rfl, hLen⟩ := hRes
    have hInvalid : (m1.view r (va / 4096)).has pteV = false := by rw [hView r _ hr hvpn, hv]
    have hPte : m1.pte q (va / 4096 % 512) = m1.view r (va / 4096) := by
      rw [← h1.toTrees.view_of_table hq (Nat.mod_lt _ (by decide)), Nat.div_add_mod' (va / 4096) 512]
    simp only [wp_bind, wp_read, hPte, hInvalid, Bool.false_eq_true, if_false, wp_update, wp_pure]
    obtain ⟨h2, hGrown2, hView2⟩ := setEntry_grown h1 (e := pa2pte pa ||| perm ||| pteV) hq
      (fun p hp => absurd hp (h1.no_leaf_of_invalid hInvalid p))
    refine ⟨ρ1, h2, hGrown.trans hGrown2, ?_, hTables, by simpa using hLen⟩
    intro r' v hr' hvv
    rw [hView2 r' v (hGrown.role_of_ne_free hr' Role.noConfusion) hvv, hView r' v hr' hvv]
    simp

end

end Xv6K230.Vm
