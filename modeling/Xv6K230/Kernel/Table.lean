import Xv6K230.Kernel.Proc
import Xv6K230.Vm.Image

/-! # Making and freeing the table of a process

`proc_pagetable` gives back what it took if it fails, and `proc_freepagetable` returns
every page of a space, so that no page carries a role of that table afterwards.
-/

namespace Xv6K230

open Vm Riscv Prog

/-! ## Dropping a table -/

section

variable {E : Stop → Prop} {m m' : Mem} {ρ ρ' : Roles} {r tf tr b : Nat}

def Vacant (ρ : Roles) (r : Nat) : Prop := ∀ p, (ρ p).Of r → ρ p = .free

lemma Vm.Typed.vacant (ht : Typed m ρ) (hr : ρ r ≠ .table r 2 0) : Vacant ρ r := by
  intro p hp
  cases hc : ρ p with
  | free => rfl
  | table r' l a =>
    rw [hc] at hp
    obtain rfl : r' = r := hp
    exact absurd (ht.toTrees.root_of_table hc) hr
  | leaf r' v =>
    rw [hc] at hp
    obtain rfl : r' = r := hp
    exact absurd (ht.leafRoot p r' v hc).1 hr
  | outside => rw [hc] at hp; exact hp.elim
  | held => rw [hc] at hp; exact hp.elim
  | arg => rw [hc] at hp; exact hp.elim
  | frame i => rw [hc] at hp; exact hp.elim
  | kstack i => rw [hc] at hp; exact hp.elim

lemma roles_eq_of_vacant (hTouch : Touches r m ρ m' ρ') (h : Vacant ρ r) (h' : Vacant ρ' r) : ρ' = ρ := by
  funext p
  obtain ⟨hEq, -⟩ | ⟨hOf, hOf'⟩ := hTouch.page p
  · exact hEq
  · rw [h p hOf, h' p hOf']

lemma touches_drop (hk : m'.kend = m.kend) (hs : m'.phystop = m.phystop)
    (hpage : ∀ p, (∀ l a, ρ p ≠ .table r l a) → m'.page p = m.page p) : Touches r m ρ m' (ρ.drop r) := by
  refine ⟨hk, hs, fun p => ?_⟩
  by_cases hp : ∃ l a, ρ p = .table r l a
  · obtain ⟨l, a, hp⟩ := hp
    refine .inr ⟨by rw [hp]; rfl, ?_⟩
    rw [drop_table ρ hp]
    trivial
  · have hp' : ∀ l a, ρ p ≠ .table r l a := fun l a hEq => hp ⟨l, a, hEq⟩
    exact .inl ⟨drop_of_ne ρ hp', hpage p hp'⟩

lemma uvmfree_spec {sz : Nat} (ht : Typed m ρ) (h : UserTable m ρ r tf tr (npages sz))
    (hsz : sz ≤ trapframeVa)
    (hTop : ∀ v, trapframeVpn ≤ v → v < 512 ^ 3 → (m.view r v).has pteV = false) :
    wp (uvmfree r sz) E (fun _ m' => ∃ ρ', Typed m' ρ' ∧ Touches r m ρ m' ρ' ∧ Vacant ρ' r) m := by
  have hWalk : ∀ {m1 : Mem} {ρ1 : Roles}, Typed m1 ρ1 → UserTable m1 ρ1 r tf tr 0 → Touches r m ρ m1 ρ1 →
      (∀ v, trapframeVpn ≤ v → v < 512 ^ 3 → (m1.view r v).has pteV = false) →
      wp (freewalk 3 r) E (fun _ m' => ∃ ρ', Typed m' ρ' ∧ Touches r m ρ m' ρ' ∧ Vacant ρ' r) m1 := by
    intro m1 ρ1 ht1 h1 hTouch1 hTop1
    refine wp_post (freewalk_root_spec ht1 h1.root ?_) ?_
    · intro v hv
      by_cases hlt : v < trapframeVpn
      · grind [h1.user]
      · exact hTop1 v (by omega) hv
    · rintro - m2 ⟨ht2, hk, hs, hpage⟩
      refine ⟨_, ht2, hTouch1.trans (touches_drop hk hs hpage), ht2.vacant ?_⟩
      rw [drop_table ρ1 h1.root]
      exact Role.noConfusion
  unfold uvmfree
  by_cases hpos : sz > 0
  · have hb := h.bound
    rw [if_pos hpos, wp_bind, pgroundup_npages hsz, show npages sz * 4096 / pgsize = npages sz by
      simp only [pgsize]; omega]
    refine wp_post (uvmunmap_spec ht h.root (by decide) ?_ ?_) ?_
    · rw [trapframeVpn] at hb
      rw [maxva_eq]
      omega
    · intro v _ hv
      exact h.backed (by omega)
    · rintro - m1 ⟨ρ1, ht1, hShr⟩
      refine hWalk ht1 (h.shrunk ht1 hShr (Nat.zero_le _) ?_) hShr.touches ?_
      · intro v hv hOut
        omega
      · grind [hShr.view, h.root]
  · obtain rfl : sz = 0 := by omega
    rw [if_neg hpos]
    exact hWalk ht h (Touches.refl r m ρ) hTop

lemma unmapTop_spec {va : Nat} (ht : Typed m ρ) (h : UserTable m ρ r tf tr b)
    (hva : va = trampolineVa ∨ va = trapframeVa) :
    wp (uvmunmap r va 1 false) E (fun _ m' => Typed m' ρ ∧ UserTable m' ρ r tf tr b ∧
      Shrunk r (· = va / 4096) m ρ m' ρ) m := by
  have hb := h.bound
  have hVpn : trapframeVpn ≤ va / 4096 := by
    obtain rfl | rfl := hva <;> decide
  refine wp_post (uvmunmap_nofree_spec ht h.root ?_ ?_ ?_) ?_
  · obtain rfl | rfl := hva <;> decide
  · obtain rfl | rfl := hva <;> decide
  · intro p hp
    have hv := h.leaf p _ hp
    omega
  · rintro - m' ⟨ht', hShr⟩
    refine ⟨ht', h.shrunk ht' hShr h.bound (fun v hv _ => hv), hShr⟩

lemma procFreepagetable_spec {sz : Nat} (ht : Typed m ρ) (h : UserTable m ρ r tf tr (npages sz))
    (hsz : sz ≤ trapframeVa) :
    wp (procFreepagetable r sz) E (fun _ m' => ∃ ρ', Typed m' ρ' ∧ Touches r m ρ m' ρ' ∧ Vacant ρ' r) m := by
  unfold procFreepagetable
  rw [wp_bind]
  refine wp_post (unmapTop_spec ht h (.inl rfl)) ?_
  rintro - m1 ⟨ht1, h1, hShr1⟩
  rw [wp_bind]
  refine wp_post (unmapTop_spec ht1 h1 (.inr rfl)) ?_
  rintro - m2 ⟨ht2, h2, hShr2⟩
  rw [trampolineVa_vpn] at hShr1
  rw [trapframeVa_vpn] at hShr2
  refine wp_post (uvmfree_spec ht2 h2 hsz ?_) ?_
  · intro v hv hlt
    cases hV : (m2.view r v).has pteV with
    | false => rfl
    | true =>
      obtain ⟨-, ⟨rfl, -⟩ | ⟨rfl, -⟩⟩ := h2.top v hv hlt hV
      · rw [hShr2.gone _ rfl hlt] at hV
        cases hV
      · rw [hShr2.view r trampolineVpn h.root hlt (.inr (by decide)), hShr1.gone _ rfl hlt] at hV
        cases hV
  · rintro - m3 ⟨ρ3, ht3, hTouch, hVacant⟩
    exact ⟨ρ3, ht3, (hShr1.touches.trans hShr2.touches).trans hTouch, hVacant⟩

end

/-! ## Making a table -/

section

variable {E : Stop → Prop} {m : Mem} {ρ : Roles} {tf tr : Nat}

lemma uvmcreate_spec (tf tr : Nat) (ht : Typed m ρ) :
    wp uvmcreate E (fun r m' => r = 0 ∧ m' = m ∨ r ≠ 0 ∧ ρ r = .free ∧
      ∃ ρ', Typed m' ρ' ∧ Extends r m ρ m' ρ' ∧ UserTable m' ρ' r tf tr 0 ∧ ∀ v, m'.view r v = 0#64) m := by
  unfold uvmcreate
  rw [wp_bind]
  refine kalloc_spec ht (c := .held) trivial ?_ ?_
  · intro _
    rw [if_pos rfl, wp_pure]
    exact .inl ⟨rfl, rfl⟩
  · intro r m1 hpos hFree hTook h1
    rw [if_neg hpos]
    simp only [memset, wp_bind, wp_update, wp_pure]
    have hHold : Holding r r (Bytes.fill 0) m ρ _ _ := holding_of_took (r := r) hFree hTook h1 (Bytes.fill 0)
    have hz : ∀ i, (m1.setPage r (Bytes.fill 0)).pte r i = 0#64 :=
      fun i => pte_of_zero _ (setPage_page_same ..) i
    have hNew := hHold.typed.newRoot (by rw [hHold.held]; trivial) hz
    have hView : ∀ v, (m1.setPage r (Bytes.fill 0)).view r v = 0#64 := by
      intro v
      refine view_of_slot_none ?_
      rw [Mem.slot, hz, if_neg (by decide)]
    refine .inr ⟨hpos, hFree, _, hNew, hHold.ext_update rfl rfl rfl (fun _ _ => rfl), ?_, hView⟩
    refine ⟨Function.update_self .., Nat.zero_le _, ?_, ?_, ?_⟩
    · intro v _ hV
      rw [hView] at hV
      exact absurd hV (by decide)
    · intro v _ _ hV
      rw [hView] at hV
      exact absurd hV (by decide)
    · intro p v hp
      have hpr : p ≠ r := by
        rintro rfl
        rw [Function.update_self] at hp
        cases hp
      have hOld := (ht.leafRoot p r v (hHold.leaf_of_update hpr hp)).1
      rw [hFree] at hOld
      cases hOld

lemma Vm.UserTable.mapTop {m' : Mem} {ρ' : Roles} {r va pa b : Nat} {perm : Pte} (h : UserTable m ρ r tf tr b)
    (hva : va = trampolineVa ∧ pa = tr ∨ va = trapframeVa ∧ pa = tf) (hGrown : Grown r m ρ m' ρ')
    (hView : ∀ r' v, ρ r' = .table r' 2 0 → v < 512 ^ 3 →
      m'.view r' v = if r' = r ∧ v = va / 4096 then pa2pte pa ||| perm ||| pteV else m.view r' v)
    (hpa : pte2pa (pa2pte pa ||| perm ||| pteV) = pa) (hUser : perm.getLsbD 4 = false) :
    UserTable m' ρ' r tf tr b := by
  have hTopVpn : va / 4096 = trampolineVpn ∧ pa = tr ∨ va / 4096 = trapframeVpn ∧ pa = tf := by
    grind [trampolineVa_vpn, trapframeVa_vpn]
  have hTop : trapframeVpn ≤ va / 4096 := by
    simp only [trapframeVpn, trampolineVpn] at *
    omega
  refine ⟨hGrown.role_of_ne_free h.root Role.noConfusion, h.bound, ?_, ?_, ?_⟩
  · intro v hv hV
    rw [hView r v h.root (vpn_lt hv), if_neg (by omega)] at hV ⊢
    obtain ⟨hvb, hLeaf⟩ := h.user v hv hV
    exact ⟨hvb, hGrown.role_of_ne_free hLeaf Role.noConfusion⟩
  · grind [h.root, h.top, has_pteU, getLsbD_entry]
  · intro p v hp
    obtain hEq | ⟨-, l, a, hT⟩ := hGrown.role p
    · exact h.leaf p v (hEq.symm.trans hp)
    · rw [hT] at hp
      cases hp

def Pageable (pa : Nat) : Prop := pa % 4096 = 0 ∧ pa < 2 ^ 56

lemma Vm.Typed.pageable_frame {m : Mem} {ρ : Roles} (h : Typed m ρ) {p : Nat} {me : Pid} (hp : ρ p = .frame me) : Pageable p := by
  obtain ⟨-, hAlign, hlt⟩ := h.toAlloc.pos_of_role (p := p) (by rw [hp]; exact Role.noConfusion)
  exact ⟨hAlign, by omega⟩

/-- `proc_pagetable` returns a table without user pages, or leaves all roles as they were. -/
lemma procPagetable_spec (ht : Typed m ρ) (htr : Pageable tr) (htf : Pageable tf) :
    wp (procPagetable tr tf) E (fun r m' =>
      r = 0 ∧ Typed m' ρ ∧ m'.kend = m.kend ∧ m'.phystop = m.phystop ∧ (∀ p, ρ p ≠ .free → m'.page p = m.page p) ∨
      r ≠ 0 ∧ ρ r = .free ∧ ∃ ρ', Typed m' ρ' ∧ Extends r m ρ m' ρ' ∧ UserTable m' ρ' r tf tr 0) m := by
  unfold procPagetable
  rw [wp_bind]
  refine wp_post (uvmcreate_spec tf tr ht) ?_
  rintro r m1 (⟨rfl, rfl⟩ | ⟨hpos, hFree, ρ1, ht1, hExt1, h1, hView1⟩)
  · rw [if_pos rfl, wp_pure]
    exact .inl ⟨rfl, ht, rfl, rfl, fun _ _ => rfl⟩
  have hVacant : Vacant ρ r := ht.vacant (by rw [hFree]; exact Role.noConfusion)
  -- giving the table back restores the roles
  have hUndo : ∀ {m2 : Mem} {ρ2 : Roles}, Touches r m ρ m2 ρ2 → Typed m2 ρ2 → Vacant ρ2 r →
      Typed m2 ρ ∧ m2.kend = m.kend ∧ m2.phystop = m.phystop ∧ ∀ p, ρ p ≠ .free → m2.page p = m.page p := by
    intro m2 ρ2 hTouch ht2 hVacant2
    obtain rfl := roles_eq_of_vacant hTouch hVacant hVacant2
    refine ⟨ht2, hTouch.kend, hTouch.phystop, fun p hp => ?_⟩
    exact (hTouch.keep rfl (fun hOf => hp (hVacant p hOf))).2
  have hInvalid : ∀ v, (m1.view r v).has pteV = false := by
    intro v
    rw [hView1]
    decide
  rw [if_neg hpos, wp_bind]
  refine wp_post (mappages_one_spec ht1 h1.root (by decide) (by decide) (hInvalid _)) ?_
  rintro ok m2 ⟨ρ2, ht2, hGrown2, hView2, -⟩
  have hRoot2 : ρ2 r = .table r 2 0 := hGrown2.role_of_ne_free h1.root Role.noConfusion
  cases ok with
  | false =>
    simp only [Bool.not_false, if_true, wp_bind, wp_pure]
    have h2 : UserTable m2 ρ2 r tf tr (npages 0) := by
      refine h1.unmapped ⟨ht2, hGrown2.ext, fun r' v hr' hv => by simpa using hView2 r' v hr' hv, ?_⟩
      intro q w hq
      obtain hEq | ⟨-, l, a, hT⟩ := hGrown2.role q
      · exact hEq.symm.trans hq
      · rw [hT] at hq
        cases hq
    refine wp_post (uvmfree_spec ht2 h2 (Nat.zero_le _) ?_) ?_
    · intro v _ hlt
      rw [hView2 r v h1.root hlt, if_neg (by simp)]
      exact hInvalid v
    · rintro - m3 ⟨ρ3, ht3, hTouch3, hVacant3⟩
      exact .inl ⟨trivial, hUndo ((hExt1.trans hGrown2.ext).touches.trans hTouch3) ht3 hVacant3⟩
  | true =>
    simp only [Bool.not_true, Bool.false_eq_true, if_false, wp_bind]
    have h2 : UserTable m2 ρ2 r tf tr 0 :=
      h1.mapTop (.inl ⟨rfl, rfl⟩) hGrown2 (fun r' v hr' hv => by simpa using hView2 r' v hr' hv)
        (pte2pa_entry htr.1 htr.2 (by decide)) (by decide)
    have hTramp : ∀ v < 512 ^ 3, v ≠ trampolineVpn → (m2.view r v).has pteV = false := by
      grind [h1.root, trampolineVa_vpn]
    refine wp_post (mappages_one_spec ht2 hRoot2 (by decide) (by decide) (hTramp _ (by decide) (by decide))) ?_
    rintro ok m3 ⟨ρ3, ht3, hGrown3, hView3, -⟩
    have hExt3 := (hExt1.trans hGrown2.ext).trans hGrown3.ext
    cases ok with
    | true =>
      simp only [Bool.not_true, Bool.false_eq_true, if_false, wp_pure]
      refine .inr ⟨hpos, hFree, ρ3, ht3, hExt3, ?_⟩
      exact h2.mapTop (.inr ⟨rfl, rfl⟩) hGrown3 (fun r' v hr' hv => by simpa using hView3 r' v hr' hv)
        (pte2pa_entry htf.1 htf.2 (by decide)) (by decide)
    | false =>
      simp only [Bool.not_false, if_true, wp_bind, wp_pure]
      have h3 : UserTable m3 ρ3 r tf tr (npages 0) := by
        refine h2.unmapped ⟨ht3, hGrown3.ext, fun r' v hr' hv => by simpa using hView3 r' v hr' hv, ?_⟩
        intro q w hq
        obtain hEq | ⟨-, l, a, hT⟩ := hGrown3.role q
        · exact hEq.symm.trans hq
        · rw [hT] at hq
          cases hq
      refine wp_post (unmapTop_spec ht3 h3 (.inl rfl)) ?_
      rintro - m4 ⟨ht4, h4, hShr⟩
      rw [trampolineVa_vpn] at hShr
      refine wp_post (uvmfree_spec ht4 h4 (Nat.zero_le _) ?_) ?_
      · grind [hShr.gone, hShr.view, h3.root]
      · rintro - m5 ⟨ρ5, ht5, hTouch5, hVacant5⟩
        exact .inl ⟨trivial, hUndo ((hExt3.touches.trans hShr.touches).trans hTouch5) ht5 hVacant5⟩

end

end Xv6K230
