import Xv6K230.Vm.Logical

/-! # Building and copying images

What `exec` and `fork` need: writing to pages that are already mapped, the guard page, and `uvmcopy`.
-/

namespace Xv6K230.Vm

open Riscv Prog

/-! ## Writing to mapped pages -/

section

variable {E : Stop → Prop} {r tf tr b : Nat}

def UserRange (m : Mem) (r va len : Nat) : Prop :=
  ∀ v, va / 4096 ≤ v → v * 4096 < va + len → (m.view r v).has pteV ∧ (m.view r v).has pteU

lemma UserTable.lt_of_user {m : Mem} {ρ : Roles} (h : UserTable m ρ r tf tr b) {v : Nat}
    (hv : v < 512 ^ 3) (hV : (m.view r v).has pteV) (hU : (m.view r v).has pteU) : v < b := by
  by_cases hlt : v < trapframeVpn
  · exact (h.user v hlt hV).1
  · have hTop := (h.top v (by omega) hv hV).1
    rw [hU] at hTop
    cases hTop

lemma userAddr_of_user {m : Mem} {ρ : Roles} (ht : Typed m ρ) (h : UserTable m ρ r tf tr b) {va : Nat}
    (hva : va < maxva) (hV : (m.view r (va / 4096)).has pteV) (hU : (m.view r (va / 4096)).has pteU) :
    m.userAddr r va = pte2pa (m.view r (va / 4096)) ∧ m.userAddr r va ≠ 0 := by
  have hEq : m.userAddr r va = pte2pa (m.view r (va / 4096)) := by
    rw [Mem.userAddr, if_pos ⟨hva, hV, hU⟩]
  have hb := h.bound
  have hlt := h.lt_of_user (vpn_lt_of_lt_maxva hva) hV hU
  have hLeaf := (h.user _ (by omega) hV).2
  refine ⟨hEq, ?_⟩
  rw [hEq]
  exact (ht.toAlloc.pos_of_role (by rw [hLeaf]; exact Role.noConfusion)).1

lemma copyoutLoop_mapped_spec {pt psz : Nat} {ρ : Roles} : ∀ (fuel dstva : Nat) (src : Text) {m : Mem},
    Typed m ρ → UserTable m ρ r tf tr b → UserRange m r dstva src.length → dstva + src.length ≤ maxva →
    wp (copyoutLoop pt psz r fuel dstva src) E (fun _ m' => Served r tf tr b m ρ m' ρ ∧
      ∀ v < 512 ^ 3, m'.view r v = m.view r v) m := by
  intro fuel
  induction fuel with
  | zero =>
    intro dstva src m ht h _ _
    rw [copyoutLoop, wp_pure]
    exact ⟨Served.refl ht h, fun _ _ => rfl⟩
  | succ fuel ih =>
    intro dstva src m ht h hRange hEnd
    simp only [copyoutLoop]
    by_cases hsrc : src = []
    · rw [if_pos hsrc, wp_pure]
      exact ⟨Served.refl ht h, fun _ _ => rfl⟩
    have hlen : 0 < src.length := List.length_pos_iff.mpr hsrc
    have hDown : pgrounddown dstva = dstva / 4096 * 4096 := rfl
    have hDiv : dstva / 4096 * 4096 / 4096 = dstva / 4096 := by omega
    have hva : pgrounddown dstva < maxva := by
      rw [hDown]
      omega
    obtain ⟨hV, hU⟩ := hRange (dstva / 4096) (le_refl _) (by omega)
    rw [← hDiv, ← hDown] at hV hU
    obtain ⟨hAddr, hNonzero⟩ := userAddr_of_user ht h hva hV hU
    have hLeaf := user_page h hNonzero
    rw [if_neg hsrc, if_neg (by omega)]
    simp only [wp_bind, faultIn, wp_walkaddr, if_neg hNonzero, wp_pure, wp_lookup hva]
    cases m.slot r (pgrounddown dstva / 4096) with
    | none =>
      rw [wp_pure]
      exact ⟨Served.refl ht h, fun _ _ => rfl⟩
    | some s =>
      simp only [wp_bind, wp_read]
      split
      · rw [wp_pure]
        exact ⟨Served.refl ht h, fun _ _ => rfl⟩
      · simp only [wp_bind, storeBytes, wp_update]
        have hStore := Served.of_store ht h hLeaf
          ((m.page (m.userAddr r (pgrounddown dstva))).write (dstva - pgrounddown dstva)
            (src.take (min (pgsize - (dstva - pgrounddown dstva)) src.length)))
        have hView : ∀ v, (m.setPage (m.userAddr r (pgrounddown dstva))
            ((m.page (m.userAddr r (pgrounddown dstva))).write (dstva - pgrounddown dstva)
              (src.take (min (pgsize - (dstva - pgrounddown dstva)) src.length)))).view r v = m.view r v := by
          intro v
          refine ht.toTrees.view_congr h.root (fun q l a hq => setPage_page_of_ne m _ ?_) v
          exact ne_of_role hq hLeaf Role.noConfusion
        have hDrop : pgrounddown dstva + pgsize +
            (src.drop (min (pgsize - (dstva - pgrounddown dstva)) src.length)).length =
            max (dstva + src.length) (pgrounddown dstva + pgsize) := by
          rw [List.length_drop, hDown]
          simp only [pgsize]
          omega
        by_cases hDone : dstva + src.length ≤ pgrounddown dstva + pgsize
        · have hNil : src.drop (min (pgsize - (dstva - pgrounddown dstva)) src.length) = [] := by
            apply List.eq_nil_of_length_eq_zero
            omega
          rw [hNil]
          have hStop : ∀ va, copyoutLoop pt psz r fuel va [] = pure true := by
            intro va
            cases fuel <;> rfl
          rw [hStop, wp_pure]
          exact ⟨hStore, fun v _ => hView v⟩
        · refine wp_post (ih _ _ hStore.typed hStore.table ?_ ?_) ?_
          · intro v hLow hHigh
            rw [hView]
            rw [hDrop] at hHigh
            refine hRange v ?_ (by omega)
            rw [hDown] at hLow
            simp only [pgsize] at hLow
            omega
          · rw [hDrop]
            omega
          · rintro - m2 ⟨hRest, hView2⟩
            refine ⟨hStore.trans hRest, fun v hv => ?_⟩
            rw [hView2 v hv, hView]

end

/-! ## The guard page -/

section

variable {E : Stop → Prop} {m : Mem} {ρ : Roles} {r tf tr b : Nat}

lemma pte2pa_clear_user (e : Pte) : pte2pa (e &&& ~~~pteU) = pte2pa e := by
  have hShift : (e &&& ~~~pteU) >>> 10 = e >>> 10 := by
    apply BitVec.eq_of_getLsbD_eq
    intro k hk
    simp only [BitVec.getLsbD_ushiftRight, BitVec.getLsbD_and, BitVec.getLsbD_not, pteU]
    have hBit : (1#64 <<< 4).getLsbD (10 + k) = false := by
      simp only [BitVec.getLsbD_shiftLeft, BitVec.getLsbD_one, Bool.and_eq_false_iff, decide_eq_false_iff_not]
      omega
    rw [hBit]
    by_cases h64 : 10 + k < 64
    · simp [h64]
    · simp [BitVec.getLsbD_of_ge e (10 + k) (by omega)]
  rw [pte2pa, pte2pa, hShift]

lemma valid_clear_user (e : Pte) : (e &&& ~~~pteU).has pteV = e.has pteV := by
  rw [has_pteV, has_pteV, BitVec.getLsbD_and]
  simp [pteU]

lemma user_clear_user (e : Pte) : (e &&& ~~~pteU).has pteU = false := by
  rw [has_pteU, BitVec.getLsbD_and]
  simp [pteU]

lemma uvmclear_spec {va : Nat} (ht : Typed m ρ) (h : UserTable m ρ r tf tr b)
    (hva : va / 4096 < trapframeVpn) (hV : (m.view r (va / 4096)).has pteV) :
    wp (uvmclear r va) E (fun _ m' => Typed m' ρ ∧ Touches r m ρ m' ρ ∧ UserTable m' ρ r tf tr b ∧
      (∀ v < 512 ^ 3, m'.view r v = if v = va / 4096 then m.view r v &&& ~~~pteU else m.view r v) ∧
      ∀ p, (∀ l a, ρ p ≠ .table r l a) → m'.page p = m.page p) m := by
  have hlt : va < maxva := by
    rw [trapframeVpn] at hva
    rw [maxva_eq]
    omega
  simp only [uvmclear, wp_bind, wp_lookup hlt]
  obtain ⟨q, hq, hs, hw⟩ | ⟨-, -, hw⟩ := ht.toTrees.view_cases h.root (vpn_lt hva)
  · rw [hs]
    simp only [wp_update, ← hw]
    obtain ⟨h', hGrown, hView⟩ := setEntry_grown ht (e := m.view r (va / 4096) &&& ~~~pteU) hq (by
      intro p hp
      rw [valid_clear_user, pte2pa_clear_user]
      exact ⟨hV, (ht.leafUp p r _ hp).2⟩)
    have hView' : ∀ v < 512 ^ 3, (m.setPte q (va / 4096 % 512) (m.view r (va / 4096) &&& ~~~pteU)).view r v =
        if v = va / 4096 then m.view r v &&& ~~~pteU else m.view r v := by
      intro v hv
      rw [hView r v h.root hv]
      by_cases hEq : v = va / 4096
      · rw [if_pos ⟨rfl, hEq⟩, if_pos hEq, hEq]
      · rw [if_neg (by tauto), if_neg hEq]
    have hSame : ∀ v < 512 ^ 3, ((m.setPte q (va / 4096 % 512) (m.view r (va / 4096) &&& ~~~pteU)).view r v).has
        pteV = (m.view r v).has pteV ∧
        pte2pa ((m.setPte q (va / 4096 % 512) (m.view r (va / 4096) &&& ~~~pteU)).view r v) =
          pte2pa (m.view r v) := by
      intro v hv
      rw [hView' v hv]
      split
      · exact ⟨valid_clear_user _, pte2pa_clear_user _⟩
      · exact ⟨rfl, rfl⟩
    refine ⟨h', ?_, ⟨h.root, h.bound, ?_, ?_, h.leaf⟩, hView', hGrown.page⟩
    · refine ⟨rfl, rfl, fun p => ?_⟩
      by_cases hp : ∃ l a, ρ p = .table r l a
      · obtain ⟨l, a, hp⟩ := hp
        refine .inr ⟨?_, ?_⟩ <;> rw [hp] <;> rfl
      · exact .inl ⟨rfl, hGrown.page p (fun l a hEq => hp ⟨l, a, hEq⟩)⟩
    · intro v hv hVv
      rw [(hSame v (vpn_lt hv)).1] at hVv
      rw [(hSame v (vpn_lt hv)).2]
      exact h.user v hv hVv
    · grind [h.top]
  · rw [hw] at hV
    exact absurd hV (by decide)

end

/-! ## Copying a space -/

section

variable {E : Stop → Prop} {m : Mem} {ρ : Roles} {r r' tf tf' tr b : Nat}

/-- The first `k` pages of `r` have copies in `r'`: fresh pages with the same contents,
under the same bits outside the page number. -/
structure Copied (r r' tf' tr k : Nat) (m : Mem) (ρ : Roles) (m1 : Mem) (ρ1 : Roles) : Prop where
  grown : Regrown r' tf' tr 0 m ρ k m1 ρ1
  ext : Extends r' m ρ m1 ρ1
  pages : ∀ v < k, ∃ p, ρ p = .free ∧ ρ1 p = .leaf r' v ∧
    m1.view r' v = pa2pte p ||| (m.view r v &&& ~~~ppnMask) ||| pteV ∧
    m1.page p = m.page (pte2pa (m.view r v))

lemma flags_mask (e : Pte) : (e &&& ~~~ppnMask) &&& ppnMask = 0#64 := by
  rw [BitVec.and_assoc, BitVec.and_comm (~~~ppnMask) ppnMask, BitVec.and_not_self]
  exact BitVec.and_zero

lemma entry_valid (p : Nat) (perm : Pte) : (pa2pte p ||| perm ||| pteV).has pteV := by
  rw [has_pteV, getLsbD_entry p _ (by decide)]
  exact Bool.or_true _

lemma Copied.added {k p : Nat} {m1 m2 : Mem} {ρ1 ρ2 : Roles} (h : Copied r r' tf' tr k m ρ m1 ρ1)
    (hk : k < trapframeVpn) (hFree : ρ p = .free)
    (hAdd : Added r' k (pa2pte p ||| (m.view r k &&& ~~~ppnMask) ||| pteV) p
      (m.page (pte2pa (m.view r k))) m1 ρ1 m2 ρ2) :
    Copied r r' tf' tr (k + 1) m ρ m2 ρ2 := by
  refine ⟨h.grown.added hAdd (Nat.zero_le k) hk, h.ext.trans hAdd.ext, ?_⟩
  intro v hv
  have hlt : v < 512 ^ 3 := vpn_lt (by omega)
  by_cases hEq : v = k
  · subst hEq
    refine ⟨p, hFree, hAdd.leaf, ?_, hAdd.content⟩
    rw [hAdd.view r' v h.grown.table.root hlt, if_pos ⟨rfl, rfl⟩]
  · obtain ⟨q, hqFree, hq, hView, hPage⟩ := h.pages v (by omega)
    refine ⟨q, hqFree, hAdd.ext.keep hq Role.noConfusion, ?_, ?_⟩
    · rw [hAdd.view r' v h.grown.table.root hlt, if_neg (by tauto), hView]
    · rw [hAdd.ext.page q, hPage]
      · rw [hq]
        exact Role.noConfusion
      · intro l a
        rw [hq]
        exact Role.noConfusion

lemma uvmcopy_undo_spec {k : Nat} {m1 : Mem} {ρ1 : Roles} (h : Regrown r' tf' tr 0 m ρ k m1 ρ1) :
    wp (uvmunmap r' 0 (k * 4096 / pgsize) true) E
      (fun _ m2 => ∃ ρ2, Regrown r' tf' tr 0 m ρ 0 m2 ρ2) m1 := by
  have hk := h.table.bound
  have hCount : k * 4096 / pgsize = k := by
    simp only [pgsize]
    omega
  rw [hCount]
  refine wp_post (uvmunmap_spec h.typed h.table.root (by decide) ?_ ?_) ?_
  · rw [trapframeVpn] at hk
    rw [maxva_eq]
    omega
  · intro v _ hv
    exact h.table.backed (by omega)
  · rintro - m2 ⟨ρ2, h2, hShr⟩
    have hShr' := hShr.weaken (T := fun v => 0 ≤ v ∧ v < k) (fun v => by omega)
    refine ⟨ρ2, h.shrunk h2 (h.table.shrunk h2 hShr' (Nat.zero_le _) ?_) hShr'⟩
    intro v hv hOut
    omega

/-- The free pages do not last for the user pages from `k` to `v` in the space of `r'`. -/
def Mem.ShortOf (m : Mem) (r' sz k v : Nat) : Prop := m.freelist.length < m.demand r' sz (Finset.Ico k v)

lemma shortOf_self (m : Mem) (r' sz k : Nat) : ¬ m.ShortOf r' sz k k := by
  simp [Mem.ShortOf, Mem.demand]

lemma shortOf_of_lazy {m : Mem} {sz k v : Nat} (hLazy : m.Lazy r' sz k) (hShort : m.freelist.length < 1 + m.missing r' (k * 4096))
    (hkv : k < v) : m.ShortOf r' sz k v :=
  lt_of_lt_of_le hShort (le_demand (Finset.mem_Ico.mpr ⟨le_rfl, hkv⟩) hLazy)

lemma Added.shortOf_iff {m1 m2 : Mem} {ρ1 ρ2 : Roles} {e : Pte} {pg : Page} {p sz k v : Nat}
    (hAdd : Added r' k e p pg m1 ρ1 m2 ρ2) (hr : ρ1 r' = .table r' 2 0) (hValid : e.has pteV) (ht : Typed m1 ρ1)
    (hsz : sz ≤ trapframeVa) (hLazy : m1.Lazy r' sz k) (hkv : k < v) : m1.ShortOf r' sz k v ↔ m2.ShortOf r' sz (k + 1) v := by
  have hCount := hAdd.count
  have hSplit : Finset.Ico k v = insert k (Finset.Ico (k + 1) v) := by
    ext w
    simp only [Finset.mem_insert, Finset.mem_Ico]
    omega
  unfold Mem.ShortOf
  rw [hSplit, demand_insert_of_added hAdd hr hValid ht hsz hLazy (by simp)]
  omega

/-- The loop comes to a page that is not mapped and stops the kernel, unless the free pages end before. -/
lemma uvmcopyLoop_spec {sz : Nat} (ht : Typed m ρ) (h : UserTable m ρ r tf tr (npages sz)) (hne : r ≠ r') :
    ∀ (n k : Nat) {m1 : Mem} {ρ1 : Roles}, k + n = npages sz → Copied r r' tf' tr k m ρ m1 ρ1 →
    wp (uvmcopyLoop r r' n (k * 4096))
      (fun e => (e = .uvmcopyPte ∨ e = .uvmcopyPresent) ∧ ∃ v, k ≤ v ∧ v < npages sz ∧ (m.view r v).has pteV = false ∧
        ¬ m1.ShortOf r' sz k v)
      (fun ok m' => (∀ v, k ≤ v → v < npages sz → (m.view r v).has pteV = false → m1.ShortOf r' sz k v) ∧
        (ok = true ↔ ¬ m1.ShortOf r' sz k (npages sz)) ∧
        if ok then ∃ ρ', Copied r r' tf' tr (npages sz) m ρ m' ρ' else ∃ ρ', Regrown r' tf' tr 0 m ρ 0 m' ρ') m1 := by
  have hsz : sz ≤ trapframeVa := by
    have hb := h.bound
    rw [npages, trapframeVpn] at hb
    rw [trapframeVa_eq]
    omega
  intro n
  induction n with
  | zero =>
    intro k m1 ρ1 hkn hCopied
    simp only [uvmcopyLoop, wp_pure, if_true]
    obtain rfl : k = npages sz := by omega
    exact ⟨fun v hkv hv => absurd hv (not_lt.mpr hkv), iff_of_true trivial (shortOf_self _ _ _ _), ρ1, hCopied⟩
  | succ n ih =>
    intro k m1 ρ1 hkn hCopied
    have hk : k < trapframeVpn := by
      have hb := h.bound
      omega
    have hva : k * 4096 < maxva := by
      rw [trapframeVpn] at hk
      rw [maxva_eq]
      omega
    have hDiv : k * 4096 / 4096 = k := by omega
    have hTouch := hCopied.grown.touches
    have ht1 := hCopied.grown.typed
    have hRoot1 : ρ1 r = .table r 2 0 := (hTouch.keep h.root hne).1
    have hOld : m1.view r k = m.view r k := hTouch.view_eq ht h.root hne k
    simp only [uvmcopyLoop, wp_bind, wp_lookup hva, hDiv]
    obtain ⟨q, -, hs, hw⟩ | ⟨-, hs, hw⟩ := ht1.toTrees.view_cases hRoot1 (vpn_lt hk)
    · rw [hs]
      simp only [wp_bind, wp_read, ← hw, hOld]
      cases hV : (m.view r k).has pteV with
      | false =>
        simp only [Bool.not_false, if_true, wp_stop]
        exact ⟨.inr trivial, k, le_rfl, by omega, hV, shortOf_self _ _ _ _⟩
      | true =>
        simp only [Bool.not_true, Bool.false_eq_true, if_false, wp_bind]
        have hLeaf := (h.user k hk hV).2
        have hInvalid : (m1.view r' k).has pteV = false := by
          cases hV' : (m1.view r' k).has pteV with
          | false => rfl
          | true => exact absurd (hCopied.grown.table.user k hk hV').1 (lt_irrefl k)
        have hLazy : m1.Lazy r' sz k := ⟨by rw [npages] at hkn; omega, hInvalid⟩
        have hAfter : ∀ v, k ≤ v → (m.view r v).has pteV = false → k < v := by
          intro v hkv hHole
          refine lt_of_le_of_ne hkv ?_
          rintro rfl
          rw [hV] at hHole
          cases hHole
        -- without memory for page `k` there is none for the pages from `k` on
        have hFails : m1.freelist.length < 1 + m1.missing r' (k * 4096) →
            (∀ v, k ≤ v → v < npages sz → (m.view r v).has pteV = false → m1.ShortOf r' sz k v) ∧
            (false = true ↔ ¬ m1.ShortOf r' sz k (npages sz)) := by
          intro hShort
          refine ⟨fun v hkv _ hHole => shortOf_of_lazy hLazy hShort (hAfter v hkv hHole), iff_of_false (by decide) ?_⟩
          exact not_not.mpr (shortOf_of_lazy hLazy hShort (by omega))
        refine kalloc_spec ht1 (c := .held) trivial ?_ ?_
        · intro hNone
          simp only [if_true, wp_bind, wp_pure]
          refine wp_post (uvmcopy_undo_spec hCopied.grown) ?_
          rintro - m2 hm2
          obtain ⟨hHoles, hOk⟩ := hFails (by rw [hNone, List.length_nil]; omega)
          exact ⟨hHoles, hOk, hm2⟩
        · intro p m2 hpos hFree hTook h2
          rw [if_neg hpos]
          simp only [wp_bind, wp_update]
          have hSrc : m2.page (pte2pa (m.view r k)) = m.page (pte2pa (m.view r k)) := by
            obtain ⟨hKeep, hPage⟩ := hTouch.keep hLeaf (by exact hne)
            rw [hTook.page _ (ne_of_role hKeep hFree Role.noConfusion), hPage]
          rw [hSrc]
          have hFree0 : ρ p = .free := by
            by_contra hUsed
            exact hUsed ((hCopied.ext.role p hUsed).symm.trans hFree)
          refine wp_post (place_spec ht1 hCopied.grown.table.root (v := k) ?_ hInvalid (flags_mask _) hFree hTook h2) ?_
          · rw [trapframeVpn] at hk
            rw [trampolineVpn]
            omega
          · intro ok m3 hPlaced
            cases ok with
            | true =>
              obtain ⟨ρ3, hAdd⟩ := hPlaced
              rw [if_pos rfl, show k * 4096 + pgsize = (k + 1) * 4096 by rw [pgsize]; omega]
              have hIff : ∀ {v}, k < v → (m1.ShortOf r' sz k v ↔ m3.ShortOf r' sz (k + 1) v) :=
                hAdd.shortOf_iff hCopied.grown.table.root (entry_valid p _) ht1 hsz hLazy
              apply wp_mono (ih (k + 1) (by omega) (hCopied.added hk hFree0 hAdd))
              · rintro e ⟨he, v, hkv, hv, hHole, hEnough⟩
                exact ⟨he, v, by omega, hv, hHole, fun hShort => hEnough ((hIff hkv).mp hShort)⟩
              · rintro ok' m' ⟨hHoles, hOk, hEnd⟩
                refine ⟨fun v hkv hv hHole => ?_, hOk.trans (not_congr (hIff (by omega)).symm), hEnd⟩
                exact (hIff (hAfter v hkv hHole)).mpr (hHoles v (hAfter v hkv hHole) hv hHole)
            | false =>
              obtain ⟨ρ3, hHold, hShort, hView⟩ := hPlaced
              simp only [Bool.false_eq_true, if_false, wp_bind, wp_pure]
              refine wp_post (unplaced_spec hHold hView) ?_
              rintro - m4 ⟨ρ4, hUn⟩
              refine wp_post (uvmcopy_undo_spec (hCopied.grown.unmapped hUn)) ?_
              rintro - m5 hm5
              obtain ⟨hHoles, hOk⟩ := hFails hShort
              exact ⟨hHoles, by simpa using hOk, hm5⟩
    · rw [hs]
      simp only [wp_stop]
      refine ⟨.inl trivial, k, le_rfl, by omega, ?_, shortOf_self _ _ _ _⟩
      rw [← hOld, hw]
      decide

/-- `uvmcopy` into a table without user pages. -/
lemma uvmcopy_spec {sz : Nat} (ht : Typed m ρ) (h : UserTable m ρ r tf tr (npages sz)) (hne : r ≠ r')
    (h' : UserTable m ρ r' tf' tr 0) :
    wp (uvmcopy r r' sz)
      (fun e => (e = .uvmcopyPte ∨ e = .uvmcopyPresent) ∧ ∃ v < npages sz, (m.view r v).has pteV = false ∧ ¬ m.ShortOf r' sz 0 v)
      (fun ok m' => (∀ v < npages sz, (m.view r v).has pteV = false → m.ShortOf r' sz 0 v) ∧
        (ok = true ↔ ¬ m.ShortOf r' sz 0 (npages sz)) ∧
        if ok then ∃ ρ', Copied r r' tf' tr (npages sz) m ρ m' ρ' else ∃ ρ', Regrown r' tf' tr 0 m ρ 0 m' ρ') m := by
  have hStart : Copied r r' tf' tr 0 m ρ m ρ :=
    ⟨Regrown.refl ht h', Extends.refl r' m ρ, fun v hv => absurd hv (Nat.not_lt_zero v)⟩
  have hLoop := uvmcopyLoop_spec ht h hne (npages sz) 0 (Nat.zero_add _) hStart
  rw [Nat.zero_mul] at hLoop
  apply wp_mono hLoop
  · rintro e ⟨he, v, -, hv⟩
    exact ⟨he, v, hv⟩
  · rintro ok m' ⟨hHoles, hOk, hEnd⟩
    exact ⟨fun v => hHoles v (Nat.zero_le v), hOk, hEnd⟩

end

/-! ## What the copy reads as -/

/-- The byte at `va` of the space with root `r`; a page that is not there yet reads as zero. -/
def Mem.load (m : Mem) (r va : Nat) : UInt8 :=
  if (m.view r (va / 4096)).has pteV then (m.page (pte2pa (m.view r (va / 4096)))).get (va % 4096) else 0

structure SpaceCopied (m : Mem) (r : Nat) (m' : Mem) (r' sz : Nat) : Prop where
  load : ∀ va < sz, m'.load r' va = m.load r va
  parent : ∀ va < sz, m'.load r va = m.load r va
  flags : ∀ v < npages sz, m'.view r' v &&& ~~~ppnMask = m.view r v &&& ~~~ppnMask
  fresh : ∀ v < npages sz, pte2pa (m'.view r' v) ∈ m.freelist
  distinct : ∀ v < npages sz, ∀ w < npages sz, pte2pa (m'.view r' v) = pte2pa (m'.view r' w) → v = w
  rest : ∀ v, npages sz ≤ v → v < trapframeVpn → (m'.view r' v).has pteV = false

section

variable {m m1 : Mem} {ρ ρ1 : Roles} {r r' tf tf' tr sz : Nat}

lemma page_lt {sz va : Nat} (h : va < sz) : va / 4096 < npages sz := by
  rw [npages]
  omega

lemma load_congr {va : Nat} (hView : m1.view r (va / 4096) = m.view r (va / 4096))
    (hPage : (m.view r (va / 4096)).has pteV → m1.page (pte2pa (m.view r (va / 4096))) =
      m.page (pte2pa (m.view r (va / 4096)))) : m1.load r va = m.load r va := by
  rw [Mem.load, Mem.load, hView]
  split
  · rename_i hV
    rw [hPage hV]
  · rfl

lemma Copied.entry (h : Copied r r' tf' tr (npages sz) m ρ m1 ρ1) (ht : Typed m ρ) {v : Nat} (hv : v < npages sz) :
    (m1.view r' v).has pteV ∧ ρ (pte2pa (m1.view r' v)) = .free ∧ ρ1 (pte2pa (m1.view r' v)) = .leaf r' v ∧
      m1.page (pte2pa (m1.view r' v)) = m.page (pte2pa (m.view r v)) ∧
      m1.view r' v &&& ~~~ppnMask = (m.view r v &&& ~~~ppnMask) ||| pteV := by
  obtain ⟨p, hFree, hLeaf, hView, hPage⟩ := h.pages v hv
  obtain ⟨-, hAlign, hlt⟩ := ht.toAlloc.pos_of_role (p := p) (by rw [hFree]; exact Role.noConfusion)
  have hlt' : p < 2 ^ 56 := lt_trans hlt (by norm_num)
  have hPa : pte2pa (m1.view r' v) = p := by
    rw [hView]
    exact pte2pa_entry hAlign hlt' (flags_mask _)
  rw [hPa]
  refine ⟨?_, hFree, hLeaf, hPage, ?_⟩
  · rw [hView]
    exact entry_valid p _
  · rw [hView]
    exact entry_flags hlt' (flags_mask _)

lemma flags_valid {e : Pte} (h : e.has pteV) : (e &&& ~~~ppnMask) ||| pteV = e &&& ~~~ppnMask := by
  rw [has_pteV] at h
  apply BitVec.eq_of_getLsbD_eq
  intro i hi
  simp only [BitVec.getLsbD_or, pteV]
  by_cases h0 : i = 0
  · subst h0
    simp [h, ppnMask]
  · simp [h0]

lemma Copied.space (h : Copied r r' tf' tr (npages sz) m ρ m1 ρ1) (ht : Typed m ρ) (hne : r ≠ r')
    (hTable : UserTable m ρ r tf tr (npages sz)) (hFull : ∀ v < npages sz, (m.view r v).has pteV) :
    SpaceCopied m r m1 r' sz := by
  refine ⟨fun va hva => ?_, fun va hva => ?_, fun v hv => ?_, fun v hv => ?_, fun v hv w hw hEq => ?_, ?_⟩
  · obtain ⟨hV, -, -, hPage, -⟩ := h.entry ht (page_lt hva)
    rw [Mem.load, Mem.load, if_pos hV, if_pos (hFull _ (page_lt hva)), hPage]
  · have hSame := h.grown.touches.view_eq ht hTable.root hne (va / 4096)
    refine load_congr hSame fun hV => (h.grown.touches.keep (hTable.user _ ?_ hV).2 hne).2
    exact lt_of_lt_of_le (page_lt hva) hTable.bound
  · rw [(h.entry ht hv).2.2.2.2, flags_valid (hFull v hv)]
  · exact (ht.free _).mp (h.entry ht hv).2.1
  · have hLeaf := (h.entry ht hv).2.2.1
    rw [hEq, (h.entry ht hw).2.2.1] at hLeaf
    injection hLeaf with _ hvw
    exact hvw.symm
  · intro v hv hlt
    by_contra hV
    have hBelow := (h.grown.table.user v hlt (by simpa using hV)).1
    omega

end

end Xv6K230.Vm
