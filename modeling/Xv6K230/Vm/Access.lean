import Xv6K230.Vm.Shape

/-! # Faults and copies between kernel and user memory

`vmfault` maps the faulting page exactly when it lies below the size, is not mapped yet and enough pages are free.
-/

namespace Xv6K230.Vm

open Riscv Prog

section

variable {E : Stop → Prop} {m : Mem}

lemma view_of_slot_none {r v : Nat} (h : m.slot r v = none) : m.view r v = 0#64 := by
  rw [Mem.view, h]

lemma view_of_slot_some {r v q i : Nat} (h : m.slot r v = some (q, i)) : m.view r v = m.pte q i := by
  rw [Mem.view, h]

lemma wp_ismapped {r va : Nat} (hva : va < maxva) {Q : Bool → Mem → Prop} :
    wp (ismapped r va) E Q m ↔ Q ((m.view r (va / 4096)).has pteV) m := by
  simp only [ismapped, wp_bind, wp_lookup hva]
  cases hs : m.slot r (va / 4096) with
  | none =>
    rw [view_of_slot_none hs]
    simp only [wp_pure]
    rw [show Pte.has 0#64 pteV = false by decide]
  | some s =>
    obtain ⟨q, i⟩ := s
    rw [view_of_slot_some hs]
    simp only [wp_bind, wp_read, wp_pure]

/-- The address `walkaddr` computes, 0 for none. -/
def Mem.userAddr (m : Mem) (r va : Nat) : Nat :=
  if va < maxva ∧ (m.view r (va / 4096)).has pteV ∧ (m.view r (va / 4096)).has pteU then
    pte2pa (m.view r (va / 4096))
  else 0

lemma wp_walkaddr {r va : Nat} {Q : Nat → Mem → Prop} :
    wp (walkaddr r va) E Q m ↔ Q (m.userAddr r va) m := by
  unfold walkaddr Mem.userAddr
  by_cases hva : va ≥ maxva
  · rw [if_pos hva, if_neg (by omega), wp_pure]
  · have hlt : va < maxva := by omega
    rw [if_neg hva]
    simp only [wp_bind, wp_lookup hlt]
    cases hs : m.slot r (va / 4096) with
    | none =>
      rw [view_of_slot_none hs, if_neg]
      · simp only [wp_pure]
      · rintro ⟨-, hV, -⟩
        exact absurd hV (by decide)
    | some s =>
      obtain ⟨q, i⟩ := s
      rw [view_of_slot_some hs]
      simp only [wp_bind, wp_read]
      cases hV : (m.pte q i).has pteV with
      | false => simp
      | true =>
        cases hU : (m.pte q i).has pteU with
        | false => simp
        | true => simp [hlt]

end

/-! ## Faults -/

section

variable {E : Stop → Prop} {m : Mem} {ρ : Roles} {r tf tr : Nat}

def faultPerm : Pte := pteW ||| pteU ||| pteR ||| pteA ||| pteD ||| pteTheadMaee

def Mem.Repairable (m : Mem) (r sz va : Nat) : Prop :=
  va < sz ∧ (m.view r (va / 4096)).has pteV = false ∧
    1 + m.missing r (va / 4096 * 4096) ≤ m.freelist.length

lemma vmfault_spec {sz va : Nat} (ht : Typed m ρ) (h : UserTable m ρ r tf tr (npages sz))
    (hsz : sz ≤ trapframeVa) :
    wp (vmfault r sz r va) E (fun res m' =>
      res = 0 ∧ ¬ m.Repairable r sz va ∧ (∃ ρ', Unmapped r m ρ m' ρ') ∨
      res ≠ 0 ∧ m.Repairable r sz va ∧
        ∃ ρ', Added r (va / 4096) (pa2pte res ||| faultPerm ||| pteV) res (Bytes.fill 0) m ρ m' ρ') m := by
  unfold vmfault
  by_cases hge : va ≥ sz
  · simp only [if_pos hge, wp_pure]
    refine .inl ⟨trivial, ?_, ρ, Unmapped.refl ht⟩
    rintro ⟨hlt, -⟩
    omega
  · have hDown : pgrounddown va = va / 4096 * 4096 := rfl
    have hDiv : va / 4096 * 4096 / 4096 = va / 4096 := by omega
    have hva : va / 4096 * 4096 < maxva := by
      rw [trapframeVa_eq] at hsz
      rw [maxva_eq]
      omega
    simp only [if_neg hge, hDown, wp_bind, wp_ismapped hva, hDiv]
    cases hV : (m.view r (va / 4096)).has pteV with
    | true =>
      simp only [if_true, wp_pure]
      refine .inl ⟨trivial, ?_, ρ, Unmapped.refl ht⟩
      rintro ⟨-, hInvalid, -⟩
      rw [hV] at hInvalid
      cases hInvalid
    | false =>
      simp only [Bool.false_eq_true, if_false, wp_bind]
      refine kalloc_spec ht (c := .held) trivial ?_ ?_
      · intro hNil
        simp only [if_true, wp_pure]
        refine .inl ⟨trivial, ?_, ρ, Unmapped.refl ht⟩
        rintro ⟨-, -, hEnough⟩
        rw [hNil, List.length_nil] at hEnough
        omega
      · intro p m1 hpos hFree hTook h1
        rw [if_neg hpos]
        simp only [wp_bind, memset, wp_update]
        refine wp_post (place_spec ht h.root (v := va / 4096) ?_ hV (by decide) hFree hTook h1) ?_
        · rw [trapframeVa_eq] at hsz
          rw [trampolineVpn]
          omega
        · intro ok m2 hPlaced
          cases ok with
          | true =>
            obtain ⟨ρ2, hAdd⟩ := hPlaced
            simp only [if_true, wp_pure]
            refine .inr ⟨hpos, ⟨by omega, hV, ?_⟩, ρ2, hAdd⟩
            have hCount := hAdd.count
            omega
          | false =>
            obtain ⟨ρ2, hHold, hFew, hView⟩ := hPlaced
            simp only [Bool.false_eq_true, if_false, wp_bind, wp_pure]
            refine wp_post (unplaced_spec hHold hView) ?_
            rintro - m3 hm3
            refine .inl ⟨trivial, ?_, hm3⟩
            rintro ⟨-, -, hEnough⟩
            omega

end

/-! ## Copies -/

structure Served (r tf tr b : Nat) (m : Mem) (ρ : Roles) (m' : Mem) (ρ' : Roles) : Prop where
  typed : Typed m' ρ'
  touches : Touches r m ρ m' ρ'
  table : UserTable m' ρ' r tf tr b
  role : ∀ p, ρ p ≠ .free → ρ' p = ρ p
  view : ∀ v < 512 ^ 3, (m.view r v).has pteV → m'.view r v = m.view r v

namespace Served

variable {r tf tr b : Nat} {m m1 m2 : Mem} {ρ ρ1 ρ2 : Roles}

lemma refl (ht : Typed m ρ) (h : UserTable m ρ r tf tr b) : Served r tf tr b m ρ m ρ :=
  ⟨ht, Touches.refl r m ρ, h, fun _ _ => rfl, fun _ _ _ => rfl⟩

lemma trans (h1 : Served r tf tr b m ρ m1 ρ1) (h2 : Served r tf tr b m1 ρ1 m2 ρ2) :
    Served r tf tr b m ρ m2 ρ2 := by
  refine ⟨h2.typed, h1.touches.trans h2.touches, h2.table, ?_, ?_⟩
  · grind [h1.role, h2.role]
  · grind [h1.view, h2.view]

lemma of_unmapped (h : UserTable m ρ r tf tr b) (hUn : Unmapped r m ρ m1 ρ1) :
    Served r tf tr b m ρ m1 ρ1 :=
  ⟨hUn.typed, hUn.ext.touches, h.unmapped hUn, hUn.ext.role, fun v hv _ => hUn.view r v h.root hv⟩

lemma of_added {v p : Nat} {e : Pte} {pg : Page} (h : UserTable m ρ r tf tr b)
    (hAdd : Added r v e p pg m ρ m1 ρ1) (hv : v < b) (hInvalid : (m.view r v).has pteV = false) :
    Served r tf tr b m ρ m1 ρ1 := by
  have hb := h.bound
  have hTable := h.added hAdd (by omega)
  rw [show max b (v + 1) = b by omega] at hTable
  refine ⟨hAdd.typed, hAdd.ext.touches, hTable, hAdd.ext.role, ?_⟩
  intro w hw hV
  rw [hAdd.view r w h.root hw, if_neg]
  rintro ⟨-, rfl⟩
  rw [hInvalid] at hV
  cases hV

lemma of_store {p v : Nat} (ht : Typed m ρ) (h : UserTable m ρ r tf tr b) (hp : ρ p = .leaf r v) (pg : Page) :
    Served r tf tr b m ρ (m.setPage p pg) ρ := by
  have hNotTable : ¬ (ρ p).IsTable := by
    rw [hp]
    exact id
  have hView : ∀ v, (m.setPage p pg).view r v = m.view r v := by
    intro v
    refine ht.toTrees.view_congr h.root (fun q l a hq => setPage_page_of_ne m pg ?_) v
    exact ne_of_role hq hp Role.noConfusion
  refine ⟨ht.setPage pg hNotTable, ⟨rfl, rfl, ?_⟩, ⟨h.root, h.bound, ?_, ?_, h.leaf⟩, fun _ _ => rfl, ?_⟩
  · intro q
    by_cases hqp : q = p
    · subst hqp
      refine .inr ⟨?_, ?_⟩ <;> rw [hp] <;> rfl
    · exact .inl ⟨rfl, setPage_page_of_ne m pg hqp⟩
  · intro w hw
    rw [hView]
    exact h.user w hw
  · intro w hw
    rw [hView]
    exact h.top w hw
  · intro w _ _
    exact hView w

end Served

section

variable {E : Stop → Prop} {r tf tr sz : Nat}

lemma user_page {m : Mem} {ρ : Roles} {b va : Nat} (h : UserTable m ρ r tf tr b) (hpa : m.userAddr r va ≠ 0) :
    ρ (m.userAddr r va) = .leaf r (va / 4096) := by
  unfold Mem.userAddr at hpa ⊢
  split at hpa
  · rename_i hUser
    obtain ⟨hva, hV, hU⟩ := hUser
    rw [if_pos ⟨hva, hV, hU⟩]
    by_cases hlt : va / 4096 < trapframeVpn
    · exact (h.user _ hlt hV).2
    · grind [h.top, maxva_eq]
  · exact absurd rfl hpa

lemma faultIn_spec {m : Mem} {ρ : Roles} {va : Nat} (ht : Typed m ρ)
    (h : UserTable m ρ r tf tr (npages sz)) (hsz : sz ≤ trapframeVa) :
    wp (faultIn r sz r va) E (fun pa m' =>
      ∃ ρ', Served r tf tr (npages sz) m ρ m' ρ' ∧ (pa ≠ 0 → ρ' pa = .leaf r (va / 4096))) m := by
  simp only [faultIn, wp_bind, wp_walkaddr]
  by_cases hpa : m.userAddr r va = 0
  · rw [if_pos hpa]
    refine wp_post (vmfault_spec ht h hsz) ?_
    rintro res m' (⟨hRes, -, ρ', hUn⟩ | ⟨-, ⟨hlt, hInvalid, -⟩, ρ', hAdd⟩)
    · exact ⟨ρ', Served.of_unmapped h hUn, fun hne => absurd hRes hne⟩
    · refine ⟨ρ', Served.of_added h hAdd ?_ hInvalid, fun _ => hAdd.leaf⟩
      rw [npages]
      omega
  · rw [if_neg hpa, wp_pure]
    exact ⟨ρ, Served.refl ht h, fun _ => user_page h hpa⟩

lemma copyoutLoop_spec (hsz : sz ≤ trapframeVa) : ∀ (fuel dstva : Nat) (src : Text) {m : Mem} {ρ : Roles},
    Typed m ρ → UserTable m ρ r tf tr (npages sz) →
    wp (copyoutLoop r sz r fuel dstva src) E (fun _ m' => ∃ ρ', Served r tf tr (npages sz) m ρ m' ρ') m := by
  intro fuel
  induction fuel with
  | zero =>
    intro dstva src m ρ ht h
    simp only [copyoutLoop, wp_pure]
    exact ⟨ρ, Served.refl ht h⟩
  | succ fuel ih =>
    intro dstva src m ρ ht h
    simp only [copyoutLoop]
    by_cases hsrc : src = []
    · rw [if_pos hsrc, wp_pure]
      exact ⟨ρ, Served.refl ht h⟩
    rw [if_neg hsrc]
    by_cases hva : pgrounddown dstva ≥ maxva
    · rw [if_pos hva, wp_pure]
      exact ⟨ρ, Served.refl ht h⟩
    rw [if_neg hva]
    simp only [wp_bind]
    refine wp_post (faultIn_spec ht h hsz) ?_
    rintro pa m1 ⟨ρ1, hServed, hLeaf⟩
    by_cases hpa : pa = 0
    · rw [if_pos hpa, wp_pure]
      exact ⟨ρ1, hServed⟩
    rw [if_neg hpa]
    simp only [wp_bind, wp_lookup (show pgrounddown dstva < maxva by omega)]
    cases m1.slot r (pgrounddown dstva / 4096) with
    | none =>
      simp only [wp_pure]
      exact ⟨ρ1, hServed⟩
    | some s =>
      simp only [wp_bind, wp_read]
      split
      · rw [wp_pure]
        exact ⟨ρ1, hServed⟩
      · simp only [wp_bind, storeBytes, wp_update]
        have hStore := Served.of_store hServed.typed hServed.table (hLeaf hpa)
          ((m1.page pa).write (dstva - pgrounddown dstva)
            (src.take (min (pgsize - (dstva - pgrounddown dstva)) src.length)))
        refine wp_post (ih _ _ hStore.typed hStore.table) ?_
        rintro - m2 ⟨ρ2, hRest⟩
        exact ⟨ρ2, (hServed.trans hStore).trans hRest⟩

lemma copyinLoop_spec (hsz : sz ≤ trapframeVa) : ∀ (fuel srcva len : Nat) (acc : Text) {m : Mem} {ρ : Roles},
    Typed m ρ → UserTable m ρ r tf tr (npages sz) →
    wp (copyinLoop r sz r fuel srcva len acc) E (fun _ m' => ∃ ρ', Served r tf tr (npages sz) m ρ m' ρ') m := by
  intro fuel
  induction fuel with
  | zero =>
    intro srcva len acc m ρ ht h
    simp only [copyinLoop, wp_pure]
    exact ⟨ρ, Served.refl ht h⟩
  | succ fuel ih =>
    intro srcva len acc m ρ ht h
    simp only [copyinLoop]
    by_cases hlen : len = 0
    · rw [if_pos hlen, wp_pure]
      exact ⟨ρ, Served.refl ht h⟩
    rw [if_neg hlen]
    simp only [wp_bind]
    refine wp_post (faultIn_spec ht h hsz) ?_
    rintro pa m1 ⟨ρ1, hServed, -⟩
    by_cases hpa : pa = 0
    · rw [if_pos hpa, wp_pure]
      exact ⟨ρ1, hServed⟩
    rw [if_neg hpa]
    simp only [wp_bind, wp_read]
    refine wp_post (ih _ _ _ hServed.typed hServed.table) ?_
    rintro - m2 ⟨ρ2, hRest⟩
    exact ⟨ρ2, hServed.trans hRest⟩

lemma copyinstrLoop_spec {m : Mem} {Q : Text × Bool → Mem → Prop} (bound : Nat) (hNone : ∀ dst, Q (dst, false) m)
    (hSome : ∀ str, str.length < bound → Q (str ++ [0], true) m) :
    ∀ (fuel srcva max : Nat) (acc : Text), acc.length + max ≤ bound →
    wp (copyinstrLoop r fuel srcva max acc) E Q m := by
  intro fuel
  induction fuel with
  | zero =>
    intro srcva max acc _
    simp only [copyinstrLoop, wp_pure]
    exact hNone _
  | succ fuel ih =>
    intro srcva max acc hBound
    simp only [copyinstrLoop]
    split
    · rw [wp_pure]
      exact hNone _
    split
    · rw [wp_pure]
      exact hNone _
    · rename_i hva
      simp only [wp_bind, wp_lookup (show pgrounddown srcva < maxva by omega)]
      cases m.slot r (pgrounddown srcva / 4096) with
      | none =>
        simp only [wp_pure]
        exact hNone _
      | some s =>
        simp only [wp_bind, wp_read]
        split
        · rw [wp_pure]
          exact hNone _
        · simp only [wp_bind, wp_read, Bytes.length_read]
          split
          · rename_i hNul
            rw [wp_pure]
            refine hSome _ ?_
            rw [List.length_append]
            omega
          · grind [List.takeWhile_sublist, Bytes.length_read, List.length_append]

end

end Xv6K230.Vm
