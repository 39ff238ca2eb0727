import Xv6K230.Vm.Space

/-! # The shape of a user table and the operations that change its size

Growing, shrinking and faulting keep the shape.
-/

namespace Xv6K230.Vm

open Riscv Prog

/-- The number of pages of an address space of `sz` bytes. -/
def npages (sz : Nat) : Nat := (sz + 4095) / 4096

lemma pgroundup_npages {sz : Nat} (h : sz ≤ trapframeVa) : pgroundup sz = npages sz * 4096 := by
  rw [trapframeVa_eq] at h
  exact pgroundup_eq (by omega)

lemma npages_le {sz : Nat} (h : sz ≤ trapframeVa) : npages sz ≤ trapframeVpn := by
  rw [trapframeVa_eq] at h
  rw [npages, trapframeVpn]
  omega

/-- The table at `r` with trapframe `tf` and trampoline `tr`, whose user pages lie below
page number `b`. -/
structure UserTable (m : Mem) (ρ : Roles) (r tf tr b : Nat) : Prop where
  root : ρ r = .table r 2 0
  bound : b ≤ trapframeVpn
  user : ∀ v < trapframeVpn, (m.view r v).has pteV → v < b ∧ ρ (pte2pa (m.view r v)) = .leaf r v
  top : ∀ v, trapframeVpn ≤ v → v < 512 ^ 3 → (m.view r v).has pteV → (m.view r v).has pteU = false ∧
    (v = trapframeVpn ∧ pte2pa (m.view r v) = tf ∨ v = trampolineVpn ∧ pte2pa (m.view r v) = tr)
  leaf : ∀ p v, ρ p = .leaf r v → v < b

lemma vpn_lt {v : Nat} (h : v < trapframeVpn) : v < 512 ^ 3 := by
  rw [trapframeVpn] at h
  omega

namespace UserTable

variable {m m' : Mem} {ρ ρ' : Roles} {r tf tr b : Nat}

lemma backed (h : UserTable m ρ r tf tr b) {v : Nat} (hv : v < trapframeVpn) : Backed m ρ r v :=
  fun hV => (h.user v hv hV).2

lemma mono (h : UserTable m ρ r tf tr b) {b' : Nat} (hb : b ≤ b') (hb' : b' ≤ trapframeVpn) :
    UserTable m ρ r tf tr b' := by
  refine ⟨h.root, hb', ?_, h.top, fun p v hp => lt_of_lt_of_le (h.leaf p v hp) hb⟩
  intro v hv hV
  obtain ⟨hvb, hLeaf⟩ := h.user v hv hV
  exact ⟨lt_of_lt_of_le hvb hb, hLeaf⟩

lemma frame (h : UserTable m ρ r tf tr b) (ht : Typed m ρ) {r' : Nat} (hTouch : Touches r' m ρ m' ρ')
    (hne : r ≠ r') : UserTable m' ρ' r tf tr b := by
  have hView := fun v => hTouch.view_eq ht h.root hne v
  refine ⟨(hTouch.keep h.root hne).1, h.bound, ?_, ?_, ?_⟩
  · intro v hv hV
    rw [hView] at hV ⊢
    obtain ⟨hvb, hLeaf⟩ := h.user v hv hV
    exact ⟨hvb, (hTouch.keep hLeaf hne).1⟩
  · intro v hv hlt hV
    rw [hView] at hV ⊢
    exact h.top v hv hlt hV
  · intro p v hp
    exact h.leaf p v ((hTouch.keep_iff (c := .leaf r v) hne).mp hp)

lemma added (h : UserTable m ρ r tf tr b) {v p : Nat} {e : Pte} {pg : Page}
    (hAdd : Added r v e p pg m ρ m' ρ') (hv : v < trapframeVpn) :
    UserTable m' ρ' r tf tr (max b (v + 1)) := by
  refine ⟨hAdd.ext.keep h.root Role.noConfusion, ?_, ?_, ?_, ?_⟩
  · have hb := h.bound
    omega
  · intro v' hv' hV
    by_cases hEq : v' = v
    · subst hEq
      rw [(hAdd.typed.leafUp p r v' hAdd.leaf).2]
      exact ⟨by omega, hAdd.leaf⟩
    · rw [hAdd.view r v' h.root (vpn_lt hv'), if_neg (by tauto)] at hV ⊢
      obtain ⟨hvb, hLeaf⟩ := h.user v' hv' hV
      exact ⟨by omega, hAdd.ext.keep hLeaf Role.noConfusion⟩
  · grind [hAdd.view, h.root, h.top]
  · intro q w hq
    obtain hOld | ⟨-, rfl⟩ := hAdd.only q w hq
    · have hw := h.leaf q w hOld
      omega
    · omega

lemma unmapped (h : UserTable m ρ r tf tr b) (hUn : Unmapped r m ρ m' ρ') :
    UserTable m' ρ' r tf tr b := by
  refine ⟨hUn.ext.keep h.root Role.noConfusion, h.bound, ?_, ?_, fun q w hq => h.leaf q w (hUn.only q w hq)⟩
  · intro v hv hV
    rw [hUn.view r v h.root (vpn_lt hv)] at hV ⊢
    obtain ⟨hvb, hLeaf⟩ := h.user v hv hV
    exact ⟨hvb, hUn.ext.keep hLeaf Role.noConfusion⟩
  · intro v hv hlt hV
    rw [hUn.view r v h.root hlt] at hV ⊢
    exact h.top v hv hlt hV

lemma shrunk (h : UserTable m ρ r tf tr b) (ht' : Typed m' ρ') {b' : Nat} {S : Nat → Prop}
    (hShr : Shrunk r S m ρ m' ρ') (hb : b' ≤ trapframeVpn) (hS : ∀ v < b, ¬ S v → v < b') :
    UserTable m' ρ' r tf tr b' := by
  have hOut : ∀ v < 512 ^ 3, (m'.view r v).has pteV → ¬ S v := by
    intro v hv hV hSv
    rw [hShr.gone v hSv hv] at hV
    cases hV
  refine ⟨hShr.table h.root, hb, ?_, ?_, ?_⟩
  · grind [hShr.view, h.root, h.user, hShr.role, vpn_lt]
  · grind [hShr.view, h.root, h.top]
  · intro p v hp
    obtain hEq | ⟨hFree, -⟩ := hShr.role p
    · have hvb := h.leaf p v (hEq.symm.trans hp)
      exact hS v hvb (hOut v (ht'.leafRoot p r v hp).2 (ht'.leafUp p r v hp).1)
    · rw [hFree] at hp
      cases hp

/-- Distinct user pages are distinct physical pages, so there are fewer of them than
pages of physical memory. -/
lemma bound_of_full (h : UserTable m ρ r tf tr b) (ht : Typed m ρ)
    (hFull : ∀ v < b, (m.view r v).has pteV) : b < trapframeVpn := by
  have hLeaf : ∀ v < b, ρ (pte2pa (m.view r v)) = .leaf r v :=
    fun v hv => (h.user v (lt_of_lt_of_le hv h.bound) (hFull v hv)).2
  have hMaps : ∀ v ∈ Finset.range b, pte2pa (m.view r v) / 4096 ∈ Finset.Ico 1 trapframeVpn := by
    intro v hv
    obtain ⟨hAlign, hLow, hHigh⟩ := (ht.managed (pte2pa (m.view r v))).mp
      (by rw [hLeaf v (Finset.mem_range.mp hv)]; exact Role.noConfusion)
    obtain ⟨hk, hs⟩ := ht.bounds
    rw [trapframeVa_eq] at hs
    rw [Finset.mem_Ico, trapframeVpn]
    omega
  have hInj : Set.InjOn (fun v => pte2pa (m.view r v) / 4096) (Finset.range b : Set Nat) := by
    intro v hv w hw hEq
    have hv' := hLeaf v (Finset.mem_range.mp (Finset.mem_coe.mp hv))
    have hw' := hLeaf w (Finset.mem_range.mp (Finset.mem_coe.mp hw))
    have hav := (ht.toAlloc.pos_of_role (p := pte2pa (m.view r v)) (by rw [hv']; exact Role.noConfusion)).2.1
    have haw := (ht.toAlloc.pos_of_role (p := pte2pa (m.view r w)) (by rw [hw']; exact Role.noConfusion)).2.1
    have hpa : pte2pa (m.view r v) = pte2pa (m.view r w) := by
      simp only at hEq
      omega
    rw [hpa, hw'] at hv'
    injection hv' with _ hvw
    exact hvw.symm
  have hCard := Finset.card_le_card_of_injOn _ hMaps hInj
  rw [Finset.card_range, Nat.card_Ico] at hCard
  rw [trapframeVpn] at *
  omega

end UserTable

/-! ## Shrinking and growing -/

section

variable {E : Stop → Prop} {m : Mem} {ρ : Roles} {r tf tr : Nat}

lemma uvmdealloc_spec {oldsz newsz : Nat} (ht : Typed m ρ) (h : UserTable m ρ r tf tr (npages oldsz))
    (hOld : oldsz ≤ trapframeVa) :
    wp (uvmdealloc r oldsz newsz) E (fun res m' => res = min oldsz newsz ∧ ∃ ρ', Typed m' ρ' ∧
      UserTable m' ρ' r tf tr (npages res) ∧
      Shrunk r (fun v => npages res ≤ v ∧ v < npages oldsz) m ρ m' ρ') m := by
  have hOldPages := npages_le hOld
  have hSame : ∀ res, npages res = npages oldsz →
      Shrunk r (fun v => npages res ≤ v ∧ v < npages oldsz) m ρ m ρ :=
    fun res hEq => shrunk_same (fun v hv _ => by omega)
  unfold uvmdealloc
  by_cases hge : newsz ≥ oldsz
  · simp only [if_pos hge, wp_pure]
    exact ⟨by omega, ρ, ht, h, hSame oldsz rfl⟩
  · have hNew : newsz ≤ trapframeVa := by omega
    have hMono : npages newsz ≤ npages oldsz := by
      simp only [npages]
      omega
    simp only [if_neg hge, pgroundup_npages hOld, pgroundup_npages hNew]
    have hRes : newsz = min oldsz newsz := by omega
    by_cases hlt : npages newsz * 4096 < npages oldsz * 4096
    · simp only [if_pos hlt, wp_bind, wp_pure]
      have hCount : (npages oldsz * 4096 - npages newsz * 4096) / pgsize = npages oldsz - npages newsz := by
        simp only [pgsize]
        omega
      have hDiv : npages newsz * 4096 / 4096 = npages newsz := by omega
      rw [trapframeVpn] at hOldPages
      rw [hCount]
      refine wp_post (uvmunmap_spec ht h.root (by omega) ?_ ?_) ?_
      · rw [maxva_eq]
        omega
      · intro v hLow hHigh
        refine h.backed ?_
        rw [trapframeVpn]
        omega
      · rintro - m' ⟨ρ', h', hShr⟩
        have hShr' := hShr.weaken (T := fun v => npages newsz ≤ v ∧ v < npages oldsz) (fun v => by
          simp only [hDiv]
          omega)
        refine ⟨hRes, ρ', h', h.shrunk h' hShr' ?_ ?_, hShr'⟩
        · rw [trapframeVpn]
          omega
        · intro v hv hOut
          omega
    · simp only [if_neg hlt, wp_pure]
      have hEq : npages newsz = npages oldsz := by omega
      refine ⟨hRes, ρ, ht, ?_, hSame newsz hEq⟩
      rw [hEq]
      exact h

/-- The pages from `b` up to `b'` are mapped with permissions `perm` and filled with zeros. -/
def FreshRange (m : Mem) (ρ : Roles) (r b b' : Nat) (perm : Pte) : Prop :=
  ∀ v, b ≤ v → v < b' → ∃ p, ρ p = .leaf r v ∧ m.view r v = pa2pte p ||| perm ||| pteV ∧
    m.page p = Bytes.fill 0

/-- The permissions `uvmalloc` gives the pages it maps. -/
def userPerm (xperm : Pte) : Pte := pteR ||| pteU ||| xperm ||| pteA ||| pteD ||| pteTheadMaee

structure Regrown (r tf tr b : Nat) (m : Mem) (ρ : Roles) (b' : Nat) (m' : Mem) (ρ' : Roles) : Prop where
  typed : Typed m' ρ'
  touches : Touches r m ρ m' ρ'
  table : UserTable m' ρ' r tf tr b'
  view : ∀ v < 512 ^ 3, v < b ∨ trapframeVpn ≤ v → m'.view r v = m.view r v
  keep : ∀ p v, v < b → ρ p = .leaf r v → ρ' p = .leaf r v ∧ m'.page p = m.page p

namespace Regrown

variable {b k : Nat} {m1 m2 : Mem} {ρ1 ρ2 : Roles}

lemma refl (ht : Typed m ρ) (h : UserTable m ρ r tf tr b) : Regrown r tf tr b m ρ b m ρ :=
  ⟨ht, Touches.refl r m ρ, h, fun _ _ _ => rfl, fun _ _ _ hp => ⟨hp, rfl⟩⟩

lemma added {p : Nat} {e : Pte} {pg : Page} (h : Regrown r tf tr b m ρ k m1 ρ1)
    (hAdd : Added r k e p pg m1 ρ1 m2 ρ2) (hbk : b ≤ k) (hk : k < trapframeVpn) :
    Regrown r tf tr b m ρ (k + 1) m2 ρ2 := by
  have hTable := h.table.added hAdd hk
  rw [show max k (k + 1) = k + 1 by omega] at hTable
  refine ⟨hAdd.typed, h.touches.trans hAdd.ext.touches, hTable, ?_, ?_⟩
  · intro v hlt hv
    rw [hAdd.view r v h.table.root hlt, if_neg (by omega), h.view v hlt hv]
  · intro q v hv hq
    obtain ⟨hq1, hpage1⟩ := h.keep q v hv hq
    refine ⟨hAdd.ext.keep hq1 Role.noConfusion, ?_⟩
    rw [hAdd.ext.page q, hpage1]
    · rw [hq1]
      exact Role.noConfusion
    · intro l a
      rw [hq1]
      exact Role.noConfusion

lemma unmapped (h : Regrown r tf tr b m ρ k m1 ρ1) (hUn : Unmapped r m1 ρ1 m2 ρ2) :
    Regrown r tf tr b m ρ k m2 ρ2 := by
  refine ⟨hUn.typed, h.touches.trans hUn.ext.touches, h.table.unmapped hUn, ?_, ?_⟩
  · intro v hlt hv
    rw [hUn.view r v h.table.root hlt, h.view v hlt hv]
  · intro q v hv hq
    obtain ⟨hq1, hpage1⟩ := h.keep q v hv hq
    refine ⟨hUn.ext.keep hq1 Role.noConfusion, ?_⟩
    rw [hUn.ext.page q, hpage1]
    · rw [hq1]
      exact Role.noConfusion
    · intro l a
      rw [hq1]
      exact Role.noConfusion

lemma shrunk (h : Regrown r tf tr b m ρ k m1 ρ1) (h2 : Typed m2 ρ2) (hTable : UserTable m2 ρ2 r tf tr b)
    (hShr : Shrunk r (fun v => b ≤ v ∧ v < k) m1 ρ1 m2 ρ2) : Regrown r tf tr b m ρ b m2 ρ2 := by
  have hk := h.table.bound
  refine ⟨h2, h.touches.trans hShr.touches, hTable, ?_, ?_⟩
  · intro v hlt hv
    rw [hShr.view r v h.table.root hlt (.inr (by omega)), h.view v hlt hv]
  · grind [h.keep, hShr.role, hShr.page]

end Regrown

lemma npages_mul (k : Nat) : npages (k * 4096) = k := by
  rw [npages]
  omega

lemma uvmdealloc_undo_spec {b k : Nat} {m1 : Mem} {ρ1 : Roles} (h : Regrown r tf tr b m ρ k m1 ρ1)
    (hbk : b ≤ k) : wp (uvmdealloc r (k * 4096) (b * 4096)) E (fun _ m2 => ∃ ρ2, Regrown r tf tr b m ρ b m2 ρ2)
      m1 := by
  have hk := h.table.bound
  have hOld : k * 4096 ≤ trapframeVa := by
    rw [trapframeVpn] at hk
    rw [trapframeVa_eq]
    omega
  have hTable : UserTable m1 ρ1 r tf tr (npages (k * 4096)) := by
    rw [npages_mul]
    exact h.table
  refine wp_post (uvmdealloc_spec h.typed hTable hOld) ?_
  rintro res m2 ⟨hRes, ρ2, h2, hTable2, hShr⟩
  rw [show res = b * 4096 by omega, npages_mul] at hTable2 hShr
  rw [npages_mul] at hShr
  exact ⟨ρ2, h.shrunk h2 hTable2 hShr⟩

lemma FreshRange.added {b k p : Nat} {m1 m2 : Mem} {ρ1 ρ2 : Roles} {perm : Pte}
    (h : FreshRange m1 ρ1 r b k perm) (hr : ρ1 r = .table r 2 0) (hk : k < trapframeVpn)
    (hAdd : Added r k (pa2pte p ||| perm ||| pteV) p (Bytes.fill 0) m1 ρ1 m2 ρ2) :
    FreshRange m2 ρ2 r b (k + 1) perm := by
  intro v hbv hv
  have hlt : v < 512 ^ 3 := vpn_lt (by omega)
  by_cases hEq : v = k
  · grind [hAdd.leaf, hAdd.content, hAdd.view]
  · obtain ⟨q, hq, hView, hPage⟩ := h v hbv (by omega)
    refine ⟨q, hAdd.ext.keep hq Role.noConfusion, ?_, ?_⟩
    · rw [hAdd.view r v hr hlt, if_neg (by tauto), hView]
    · rw [hAdd.ext.page q, hPage]
      · rw [hq]
        exact Role.noConfusion
      · intro l a
        rw [hq]
        exact Role.noConfusion

lemma uvmallocLoop_spec {b newsz : Nat} {xperm : Pte} (hPerm : userPerm xperm &&& ppnMask = 0#64) :
    ∀ (n k : Nat) {m1 : Mem} {ρ1 : Roles}, Regrown r tf tr b m ρ k m1 ρ1 → b ≤ k →
    FreshRange m1 ρ1 r b k (userPerm xperm) →
    (k + n ≤ trapframeVpn ∨ ∀ v < k, (m1.view r v).has pteV) →
    wp (uvmallocLoop r (b * 4096) newsz xperm n (k * 4096)) E (fun res m' =>
      res = 0 ∧ (∃ ρ', Regrown r tf tr b m ρ b m' ρ') ∨
      res = newsz ∧ ∃ ρ', Regrown r tf tr b m ρ (k + n) m' ρ' ∧ FreshRange m' ρ' r b (k + n) (userPerm xperm)) m1 := by
  intro n
  induction n with
  | zero =>
    intro k m1 ρ1 h _ hFresh _
    simp only [uvmallocLoop, wp_pure]
    exact .inr ⟨trivial, ρ1, h, hFresh⟩
  | succ n ih =>
    intro k m1 ρ1 h hbk hFresh hOk
    have hk : k < trapframeVpn := by
      obtain hEnd | hFull := hOk
      · omega
      · exact h.table.bound_of_full h.typed hFull
    have hInvalid : (m1.view r k).has pteV = false := by
      cases hV : (m1.view r k).has pteV with
      | false => rfl
      | true => exact absurd (h.table.user k hk hV).1 (lt_irrefl k)
    simp only [uvmallocLoop, wp_bind]
    refine kalloc_spec h.typed (c := .held) trivial ?_ ?_
    · intro _
      simp only [if_true, wp_bind, wp_pure]
      refine wp_post (uvmdealloc_undo_spec h hbk) ?_
      rintro - m2 hm2
      exact .inl ⟨trivial, hm2⟩
    · intro p m2 hpos hFree hTook h2
      rw [if_neg hpos]
      simp only [wp_bind, memset, wp_update]
      refine wp_post (place_spec h.typed h.table.root (by rw [trampolineVpn]; rw [trapframeVpn] at hk; omega)
        hInvalid hPerm hFree hTook h2) ?_
      intro ok m3 hPlaced
      cases ok with
      | true =>
        obtain ⟨ρ3, hAdd⟩ := hPlaced
        rw [if_pos rfl, show k * 4096 + pgsize = (k + 1) * 4096 by rw [pgsize]; omega]
        refine wp_post (ih (k + 1) (h.added hAdd hbk hk) (by omega) (hFresh.added h.table.root hk hAdd) ?_) ?_
        · refine hOk.imp (fun hEnd => by omega) ?_
          intro hFull v hv
          rw [hAdd.view r v h.table.root (vpn_lt (by omega))]
          split
          · rw [has_pteV, getLsbD_entry _ _ (by decide)]
            simp
          · exact hFull v (by omega)
        · grind
      | false =>
        obtain ⟨ρ3, hHold, -, hView⟩ := hPlaced
        simp only [Bool.false_eq_true, if_false, wp_bind, wp_pure]
        refine wp_post (unplaced_spec hHold hView) ?_
        rintro - m4 ⟨ρ4, hUn⟩
        refine wp_post (uvmdealloc_undo_spec (h.unmapped hUn) hbk) ?_
        rintro - m5 hm5
        exact .inl ⟨trivial, hm5⟩

/-- `uvmalloc` either leaves a space of the old size, or maps zeroed pages up to the new
one. A size beyond the trapframe must be impossible to reach, because `newsz` is
bounded or because all pages below are mapped. -/
lemma uvmalloc_spec {oldsz newsz : Nat} {xperm : Pte} (hPerm : userPerm xperm &&& ppnMask = 0#64)
    (ht : Typed m ρ) (h : UserTable m ρ r tf tr (npages oldsz)) (hOld : oldsz ≤ trapframeVa)
    (hOk : newsz ≤ trapframeVa ∨ ∀ v < npages oldsz, (m.view r v).has pteV) :
    wp (uvmalloc r oldsz newsz xperm) E (fun res m' =>
      res = 0 ∧ (∃ ρ', Regrown r tf tr (npages oldsz) m ρ (npages oldsz) m' ρ') ∨
      res = max oldsz newsz ∧ ∃ ρ', Regrown r tf tr (npages oldsz) m ρ (npages res) m' ρ' ∧
        FreshRange m' ρ' r (npages oldsz) (npages res) (userPerm xperm)) m := by
  unfold uvmalloc
  by_cases hlt : newsz < oldsz
  · simp only [if_pos hlt, wp_pure]
    refine .inr ⟨by omega, ρ, Regrown.refl ht h, ?_⟩
    intro v hLow hHigh
    omega
  · simp only [if_neg hlt, pgroundup_npages hOld, pgsize]
    have hPages : npages oldsz + (newsz - npages oldsz * 4096 + (4096 - 1)) / 4096 = npages newsz := by
      simp only [npages]
      omega
    refine wp_post (uvmallocLoop_spec hPerm _ _ (Regrown.refl ht h) (le_refl _) ?_ ?_) ?_
    · intro v hLow hHigh
      omega
    · rw [hPages]
      exact hOk.imp_left npages_le
    · grind

end

end Xv6K230.Vm
