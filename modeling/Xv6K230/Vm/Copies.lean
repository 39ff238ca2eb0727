import Xv6K230.Vm.Logical

/-! # Copies between the kernel and a process

`copyin` and `copyout` against the memory that the process sees: what they deliver, when
they fail, and what they leave alone.
-/

namespace Xv6K230.Vm

open Finset (mem_Ico mem_insert_self)
open Riscv Prog

section

variable {va len w : Nat}

lemma mem_touched : w ∈ touched va len ↔ 0 < len ∧ va / 4096 ≤ w ∧ w * 4096 < va + len := by
  unfold touched
  rw [Finset.mem_image]
  constructor
  · rintro ⟨a, ha, rfl⟩
    rw [mem_Ico] at ha
    omega
  · rintro ⟨hPos, hLow, hHigh⟩
    refine ⟨max va (w * 4096), mem_Ico.mpr ?_, ?_⟩ <;> omega

lemma touched_zero (va : Nat) : touched va 0 = ∅ := by
  ext w
  rw [mem_touched]
  simp

lemma touched_step (h : 0 < len) :
    touched va len = insert (va / 4096) (touched (va / 4096 * 4096 + 4096) (len - min (4096 - va % 4096) len)) := by
  ext w
  rw [Finset.mem_insert, mem_touched, mem_touched]
  omega

lemma not_mem_rest (len : Nat) : va / 4096 ∉ touched (va / 4096 * 4096 + 4096) len := by
  rw [mem_touched]
  omega

end

/-- The process sees `bytes` at `dst` and everything else as before; pages may have been mapped. -/
structure Stores (r tf tr sz : Nat) (m : Mem) (ρ : Roles) (dst : Nat) (bytes : Text) (m' : Mem) (ρ' : Roles) : Prop where
  served : Served r tf tr (npages sz) m ρ m' ρ'
  logical : ∀ va, m'.logical r sz va = if dst ≤ va ∧ va < dst + bytes.length then bytes[va - dst]? else m.logical r sz va
  writable : ∀ v, m'.Writable r sz v ↔ m.Writable r sz v
  page : ∀ p, ρ p ≠ .free → (∀ l a, ρ p ≠ .table r l a) → (∀ v, m.MappedUser r v → p ≠ pte2pa (m.view r v)) →
    m'.page p = m.page p

section

variable {E : Stop → Prop} {m m1 m2 : Mem} {ρ ρ1 ρ2 : Roles} {r tf tr sz v va dst : Nat} {bytes bytes' : Text}

lemma mapped_leaf (h : UserTable m ρ r tf tr (npages sz)) (hv : m.MappedUser r v) :
    v < trapframeVpn ∧ ρ (pte2pa (m.view r v)) = .leaf r v := by
  obtain ⟨hlt, hV, hU⟩ := hv
  by_cases hlow : v < trapframeVpn
  · exact ⟨hlow, (h.user v hlow hV).2⟩
  · grind [h.top, maxva_eq]

lemma Mem.MappedUser.lt (h : m.MappedUser r v) : v < 512 ^ 3 := by
  have := h.1
  rw [maxva_eq] at this
  omega

lemma mappedUser_congr (hView : m1.view r v = m.view r v) : m1.MappedUser r v ↔ m.MappedUser r v := by
  unfold Mem.MappedUser
  rw [hView]

lemma lazy_congr (hView : m1.view r v = m.view r v) : m1.Lazy r sz v ↔ m.Lazy r sz v := by
  unfold Mem.Lazy
  rw [hView]

lemma writable_congr (hView : m1.view r v = m.view r v) : m1.Writable r sz v ↔ m.Writable r sz v := by
  unfold Mem.Writable
  rw [mappedUser_congr hView, lazy_congr hView, hView]

lemma logical_congr (hView : m1.view r (va / 4096) = m.view r (va / 4096))
    (hPage : m.MappedUser r (va / 4096) → m1.page (pte2pa (m.view r (va / 4096))) = m.page (pte2pa (m.view r (va / 4096)))) :
    m1.logical r sz va = m.logical r sz va := by
  by_cases hMapped : m.MappedUser r (va / 4096)
  · rw [logical_of_mapped hMapped, logical_of_mapped ((mappedUser_congr hView).mpr hMapped), hView, hPage hMapped]
  · grind [mappedUser_congr, lazy_congr, Mem.logical]

lemma logical_high (hsz : sz ≤ trapframeVa) (hv : ¬ va / 4096 < 512 ^ 3) : m.logical r sz va = none := by
  rw [logical_eq_none]
  rintro (hMapped | hLazy)
  · exact hv hMapped.lt
  · exact hv (vpn_lt (hLazy.lt hsz))

lemma not_writable_high (hsz : sz ≤ trapframeVa) (hv : ¬ v < 512 ^ 3) : ¬ m.Writable r sz v := by
  rintro (⟨hMapped, -⟩ | hLazy)
  · exact hv hMapped.lt
  · exact hv (vpn_lt (hLazy.lt hsz))

lemma stores_refl (ht : Typed m ρ) (h : UserTable m ρ r tf tr (npages sz)) (dst : Nat) : Stores r tf tr sz m ρ dst [] m ρ where
  served := Served.refl ht h
  logical va := by
    rw [if_neg]
    rintro ⟨hLow, hHigh⟩
    rw [List.length_nil] at hHigh
    omega
  writable _ := Iff.rfl
  page _ _ _ _ := rfl

lemma Stores.trans (h : Stores r tf tr sz m ρ dst bytes m1 ρ1) (ht : Typed m ρ)
    (h' : Stores r tf tr sz m1 ρ1 (dst + bytes.length) bytes' m2 ρ2) : Stores r tf tr sz m ρ dst (bytes ++ bytes') m2 ρ2 where
  served := h.served.trans h'.served
  logical va := by
    rw [h'.logical, h.logical, List.length_append]
    by_cases hLow : dst ≤ va ∧ va < dst + bytes.length
    · rw [if_neg (by omega), if_pos hLow, if_pos (by omega), List.getElem?_append_left (by omega)]
    · grind
  writable v := (h'.writable v).trans (h.writable v)
  page p hFree hTable hUser := by
    have hRole := h.served.role p hFree
    rw [h'.page p (by rw [hRole]; exact hFree) (by rw [hRole]; exact hTable), h.page p hFree hTable hUser]
    -- a page that the process had before is where it was
    intro v hv hEq
    obtain ⟨hlt, hLeaf⟩ := mapped_leaf h.served.table hv
    rw [← hEq, hRole] at hLeaf
    obtain ⟨hValid, hpa⟩ := ht.leafUp p r v hLeaf
    have hSame := h.served.view v (vpn_lt hlt) hValid
    have hU := hv.2.2
    rw [hSame] at hU
    exact hUser v ⟨hv.1, hValid, hU⟩ hpa.symm

lemma stores_of_unmapped (h : UserTable m ρ r tf tr (npages sz)) (hsz : sz ≤ trapframeVa) (hUn : Unmapped r m ρ m1 ρ1) (dst : Nat) :
    Stores r tf tr sz m ρ dst [] m1 ρ1 := by
  have hPage : ∀ v, m.MappedUser r v → m1.page (pte2pa (m.view r v)) = m.page (pte2pa (m.view r v)) := by
    intro v hv
    have hLeaf := (mapped_leaf h hv).2
    exact hUn.ext.page _ (by rw [hLeaf]; exact Role.noConfusion) (by rw [hLeaf]; exact fun _ _ => Role.noConfusion)
  refine ⟨Served.of_unmapped h hUn, ?_, ?_, ?_⟩
  · grind [hUn.view, h.root, List.length_nil, logical_congr, logical_high]
  · intro v
    by_cases hv : v < 512 ^ 3
    · exact writable_congr (hUn.view r v h.root hv)
    · exact iff_of_false (not_writable_high hsz hv) (not_writable_high hsz hv)
  · intro p hFree hTable _
    exact hUn.ext.page p hFree hTable

lemma stores_of_added {p : Nat} (h : UserTable m ρ r tf tr (npages sz)) (ht : Typed m ρ) (hsz : sz ≤ trapframeVa)
    (hLazy : m.Lazy r sz v) (hAdd : Added r v (pa2pte p ||| faultPerm ||| pteV) p (Bytes.fill 0) m ρ m1 ρ1) (dst : Nat) :
    Stores r tf tr sz m ρ dst [] m1 ρ1 ∧ m1.MappedUser r v ∧ m1.view r v = pa2pte p ||| faultPerm ||| pteV := by
  have hlt := hLazy.lt hsz
  have hv := vpn_lt hlt
  have hSelf : m1.view r v = pa2pte p ||| faultPerm ||| pteV := hAdd.view_self h.root hv
  obtain ⟨-, hAlign, hpa⟩ := ht.toAlloc.pos_of_role (p := p) (by rw [hAdd.fresh]; exact Role.noConfusion)
  have hAddr : pte2pa (m1.view r v) = p := by
    rw [hSelf]
    exact pte2pa_entry hAlign (by omega) (by decide)
  have hMapped : m1.MappedUser r v := by
    refine ⟨?_, ?_, ?_⟩
    · rw [maxva_eq]
      rw [trapframeVpn] at hlt
      omega
    · rw [hSelf, has_pteV, getLsbD_entry _ _ (by decide)]
      decide
    · rw [hSelf, has_pteU, getLsbD_entry _ _ (by decide)]
      decide
  have hWrite : (m1.view r v).has pteW := by
    rw [hSelf, has_pteW, getLsbD_entry _ _ (by decide)]
    decide
  refine ⟨⟨Served.of_added h hAdd ?_ hLazy.2, ?_, ?_, ?_⟩, hMapped, hSelf⟩
  · have := hLazy.1
    rw [npages]
    omega
  · intro va
    rw [if_neg (by rw [List.length_nil]; omega)]
    by_cases hHigh : va / 4096 < 512 ^ 3
    · by_cases hva : va / 4096 = v
      · grind [hAdd.content, logical_of_lazy, logical_of_mapped, Bytes.get_fill_zero]
      · refine logical_congr (hAdd.view_of_ne h.root hHigh hva) fun hm => ?_
        have hLeaf := (mapped_leaf h hm).2
        exact hAdd.ext.page _ (by rw [hLeaf]; exact Role.noConfusion) (by rw [hLeaf]; exact fun _ _ => Role.noConfusion)
    · rw [logical_high hsz hHigh, logical_high hsz hHigh]
  · intro w
    by_cases hHigh : w < 512 ^ 3
    · by_cases hw : w = v
      · subst hw
        exact iff_of_true (.inl ⟨hMapped, hWrite⟩) (.inr hLazy)
      · exact writable_congr (hAdd.view_of_ne h.root hHigh hw)
    · exact iff_of_false (not_writable_high hsz hHigh) (not_writable_high hsz hHigh)
  · intro q hFree hTable _
    exact hAdd.ext.page q hFree hTable

lemma stores_bytes (ht : Typed m ρ) (h : UserTable m ρ r tf tr (npages sz))
    (hMapped : m.MappedUser r (dst / 4096)) (hFits : dst % 4096 + bytes.length ≤ 4096) :
    Stores r tf tr sz m ρ dst bytes (m.setPage (pte2pa (m.view r (dst / 4096)))
      ((m.page (pte2pa (m.view r (dst / 4096)))).write (dst % 4096) bytes)) ρ := by
  obtain ⟨-, hLeaf⟩ := mapped_leaf h hMapped
  obtain ⟨p, hp⟩ : ∃ p, p = pte2pa (m.view r (dst / 4096)) := ⟨_, rfl⟩
  obtain ⟨m1, hm1⟩ : ∃ m1, m1 = m.setPage p ((m.page p).write (dst % 4096) bytes) := ⟨_, rfl⟩
  rw [← hp] at hLeaf ⊢
  rw [← hm1]
  have hServed : Served r tf tr (npages sz) m ρ m1 ρ := hm1 ▸ Served.of_store ht h hLeaf _
  have hView : ∀ w, m1.view r w = m.view r w := by
    intro w
    rw [hm1]
    refine ht.toTrees.view_congr h.root (fun q l a hq => setPage_page_of_ne m _ ?_) w
    exact ne_of_role hq hLeaf Role.noConfusion
  have hOther : ∀ q, q ≠ p → m1.page q = m.page q := fun q hq => by rw [hm1, setPage_page_of_ne _ _ hq]
  refine ⟨hServed, ?_, fun w => writable_congr (hView w), ?_⟩
  · intro va
    by_cases hva : va / 4096 = dst / 4096
    · grind [logical_of_mapped, mappedUser_congr, setPage_page_same, Bytes.get_write, Nat.mod_lt, List.getD_eq_getElem]
    · rw [if_neg (by omega)]
      refine logical_congr (hView _) fun hm => hOther _ ?_
      intro hEq
      have hLeaf' := (mapped_leaf h hm).2
      rw [hEq, hLeaf] at hLeaf'
      exact hva (Role.leaf.inj hLeaf').2.symm
  · intro q _ _ hUser
    exact hOther q (hp ▸ hUser _ hMapped)

lemma faultIn_exact (ht : Typed m ρ) (h : UserTable m ρ r tf tr (npages sz)) (hsz : sz ≤ trapframeVa) (v dst : Nat) :
    wp (faultIn r sz r (v * 4096)) E (fun pa m1 => ∃ ρ1, Stores r tf tr sz m ρ dst [] m1 ρ1 ∧
      ((pa = 0 ∧ (m.Readable r sz v → m.Lazy r sz v ∧ m.freelist.length < 1 + m.missing r (v * 4096))) ∨
      (pa ≠ 0 ∧ m.Readable r sz v ∧ m1.MappedUser r v ∧ pa = pte2pa (m1.view r v) ∧
        ∀ S, v ∉ S → (m.demand r sz (insert v S) ≤ m.freelist.length ↔ m1.demand r sz S ≤ m1.freelist.length)))) m := by
  have hDiv : v * 4096 / 4096 = v := by omega
  simp only [faultIn, wp_bind, wp_walkaddr]
  by_cases hMapped : m.MappedUser r v
  · have hAddr : m.userAddr r (v * 4096) = pte2pa (m.view r v) := by
      unfold Mem.userAddr
      rw [hDiv]
      exact if_pos hMapped
    have hne : pte2pa (m.view r v) ≠ 0 :=
      (ht.toAlloc.pos_of_role (by rw [(mapped_leaf h hMapped).2]; exact Role.noConfusion)).1
    rw [hAddr, if_neg hne, wp_pure]
    refine ⟨ρ, stores_refl ht h dst, .inr ⟨hne, .inl hMapped, hMapped, rfl, fun S _ => ?_⟩⟩
    rw [demand_insert_of_not_lazy hMapped.not_lazy]
  · have hAddr : m.userAddr r (v * 4096) = 0 := by
      unfold Mem.userAddr
      rw [hDiv]
      exact if_neg hMapped
    rw [hAddr, if_pos rfl]
    refine wp_post (vmfault_spec ht h hsz) ?_
    rintro res m1 (⟨hRes, hNot, ρ1, hUn⟩ | ⟨hRes, ⟨hlt, hInvalid, hEnough⟩, ρ1, hAdd⟩)
    · refine ⟨ρ1, stores_of_unmapped h hsz hUn dst, .inl ⟨hRes, ?_⟩⟩
      rintro (hm | hLazy)
      · exact absurd hm hMapped
      · refine ⟨hLazy, ?_⟩
        by_contra hMany
        refine hNot ⟨hLazy.1, ?_, ?_⟩
        · rw [hDiv]
          exact hLazy.2
        · rw [hDiv]
          omega
    · rw [hDiv] at hInvalid hEnough hAdd
      have hLazy : m.Lazy r sz v := ⟨hlt, hInvalid⟩
      obtain ⟨hStores, hMapped1, hView1⟩ := stores_of_added h ht hsz hLazy hAdd dst
      obtain ⟨-, hAlign, hpa⟩ := ht.toAlloc.pos_of_role (p := res) (by rw [hAdd.fresh]; exact Role.noConfusion)
      refine ⟨ρ1, hStores, .inr ⟨hRes, .inr hLazy, hMapped1, ?_, fun S hS => ?_⟩⟩
      · rw [hView1]
        exact (pte2pa_entry hAlign (by omega) (by decide)).symm
      · rw [demand_insert_of_added hAdd h.root (by rw [← hView1]; exact hMapped1.2.1) ht hsz hLazy hS]
        have hCount := hAdd.count
        omega

lemma Stores.logical_nil (h : Stores r tf tr sz m ρ dst [] m1 ρ1) (va : Nat) : m1.logical r sz va = m.logical r sz va := by
  rw [h.logical, if_neg (by rw [List.length_nil]; omega)]

lemma readable_iff : m.Readable r sz v ↔ m.logical r sz (v * 4096) ≠ none := by
  rw [Ne, logical_eq_none, not_not, show v * 4096 / 4096 = v by omega]

lemma Stores.readable_nil (h : Stores r tf tr sz m ρ dst [] m1 ρ1) (v : Nat) : m1.Readable r sz v ↔ m.Readable r sz v := by
  rw [readable_iff, readable_iff, h.logical_nil]

lemma read_logical (sz : Nat) {n : Nat} (h : m.MappedUser r (va / 4096)) (hn : va % 4096 + n ≤ 4096) :
    ((m.page (pte2pa (m.view r (va / 4096)))).read (va % 4096) n).map some = (List.range n).map fun i => m.logical r sz (va + i) := by
  unfold Bytes.read
  rw [List.map_map]
  apply List.map_congr_left
  intro i hi
  have hlt := List.mem_range.mp hi
  have hPage : (va + i) / 4096 = va / 4096 := by omega
  have hOff : (va + i) % 4096 = va % 4096 + i := by omega
  have hMapped : m.MappedUser r ((va + i) / 4096) := by rw [hPage]; exact h
  rw [logical_of_mapped hMapped, hPage, hOff]
  rfl

lemma copyinLoop_exact (hsz : sz ≤ trapframeVa) : ∀ (fuel srcva len : Nat) (acc : Text) {m : Mem} {ρ : Roles}, len ≤ fuel →
    Typed m ρ → UserTable m ρ r tf tr (npages sz) →
    wp (copyinLoop r sz r fuel srcva len acc) E (fun res m' =>
      (∃ ρ', Stores r tf tr sz m ρ 0 [] m' ρ') ∧
      (res.2 = true ↔ (∀ v ∈ touched srcva len, m.Readable r sz v) ∧ m.demand r sz (touched srcva len) ≤ m.freelist.length) ∧
      (res.2 = true → res.1.map some = acc.map some ++ (List.range len).map fun i => m.logical r sz (srcva + i))) m := by
  intro fuel
  induction fuel with
  | zero =>
    intro srcva len acc m ρ hFuel ht h
    obtain rfl : len = 0 := by omega
    rw [copyinLoop, wp_pure]
    refine ⟨⟨ρ, stores_refl ht h 0⟩, iff_of_true rfl ?_, fun _ => by simp⟩
    rw [touched_zero]
    exact ⟨by simp, Nat.zero_le _⟩
  | succ fuel ih =>
    intro srcva len acc m ρ hFuel ht h
    rw [copyinLoop]
    by_cases hlen : len = 0
    · rw [if_pos hlen, wp_pure, hlen]
      refine ⟨⟨ρ, stores_refl ht h 0⟩, iff_of_true rfl ?_, fun _ => by simp⟩
      rw [touched_zero]
      exact ⟨by simp, Nat.zero_le _⟩
    rw [if_neg hlen]
    have hDown : pgrounddown srcva = srcva / 4096 * 4096 := rfl
    have hOff : srcva - srcva / 4096 * 4096 = srcva % 4096 := by omega
    simp only [hDown, hOff, show pgsize = 4096 from rfl, wp_bind]
    obtain ⟨n, hn⟩ : ∃ n, n = min (4096 - srcva % 4096) len := ⟨_, rfl⟩
    rw [← hn, touched_step (by omega), ← hn]
    obtain ⟨S, hS⟩ : ∃ S, S = touched (srcva / 4096 * 4096 + 4096) (len - n) := ⟨_, rfl⟩
    have hNotIn : srcva / 4096 ∉ S := hS ▸ not_mem_rest _
    rw [← hS]
    refine wp_post (faultIn_exact ht h hsz (srcva / 4096) 0) ?_
    rintro pa m1 ⟨ρ1, hStores, ⟨hZero, hWhy⟩ | ⟨hne, hReadable, hMapped, hAddr, hDemand⟩⟩
    · rw [if_pos hZero, wp_pure]
      refine ⟨⟨ρ1, hStores⟩, iff_of_false (by simp) ?_, (fun h => by cases h)⟩
      rintro ⟨hAll, hEnough⟩
      obtain ⟨hLazy, hFew⟩ := hWhy (hAll _ (mem_insert_self _ _))
      have := le_demand (mem_insert_self (srcva / 4096) S) hLazy
      omega
    · rw [if_neg hne]
      simp only [wp_bind, wp_read]
      refine wp_post (ih _ (len - n) _ (by omega) hStores.served.typed hStores.served.table) ?_
      rintro ⟨bytes, ok⟩ m2 ⟨⟨ρ2, hRest⟩, hWhen, hBytes⟩
      rw [← hS] at hWhen
      refine ⟨⟨ρ2, hStores.trans ht hRest⟩, ?_, ?_⟩
      · rw [hWhen, hDemand S hNotIn, Finset.forall_mem_insert]
        simp only [hStores.readable_nil]
        exact ⟨fun hAll => ⟨⟨hReadable, hAll.1⟩, hAll.2⟩, fun hAll => ⟨hAll.1.2, hAll.2⟩⟩
      · intro hOk
        have hSplit : (List.range len).map (fun i => m.logical r sz (srcva + i)) = (List.range n).map (fun i => m.logical r sz (srcva + i)) ++
            (List.range (len - n)).map (fun i => m.logical r sz (srcva / 4096 * 4096 + 4096 + i)) := by
          obtain ⟨k, hk⟩ : ∃ k, k = len - n := ⟨_, rfl⟩
          rw [← hk, show len = n + k by omega, List.range_add, List.map_append, List.map_map, List.append_cancel_left_eq]
          apply List.map_congr_left
          intro i hi
          have hlt := List.mem_range.mp hi
          rw [Function.comp_apply, show srcva / 4096 * 4096 + 4096 + i = srcva + (n + i) by omega]
        rw [hBytes hOk, List.map_append, hAddr, read_logical sz hMapped (by omega), List.append_assoc, hSplit]
        simp only [hStores.logical_nil]

lemma copyoutLoop_exact (hsz : sz ≤ trapframeVa) : ∀ (fuel dstva : Nat) (src : Text) {m : Mem} {ρ : Roles}, src.length ≤ fuel →
    Typed m ρ → UserTable m ρ r tf tr (npages sz) →
    wp (copyoutLoop r sz r fuel dstva src) E (fun ok m' =>
      (ok = true ↔ (∀ v ∈ touched dstva src.length, m.Writable r sz v) ∧
        m.demand r sz (touched dstva src.length) ≤ m.freelist.length) ∧
      ∃ j, (ok = true → src.length ≤ j) ∧ ∃ ρ', Stores r tf tr sz m ρ dstva (src.take j) m' ρ') m := by
  intro fuel
  induction fuel with
  | zero =>
    intro dstva src m ρ hFuel ht h
    obtain rfl : src = [] := List.eq_nil_of_length_eq_zero (by omega)
    rw [copyoutLoop, wp_pure]
    refine ⟨iff_of_true rfl ?_, 0, fun _ => Nat.zero_le _, ρ, stores_refl ht h dstva⟩
    rw [List.length_nil, touched_zero]
    exact ⟨by simp, Nat.zero_le _⟩
  | succ fuel ih =>
    intro dstva src m ρ hFuel ht h
    rw [copyoutLoop]
    by_cases hsrc : src = []
    · rw [if_pos hsrc, wp_pure, hsrc]
      refine ⟨iff_of_true rfl ?_, 0, fun _ => Nat.zero_le _, ρ, stores_refl ht h dstva⟩
      rw [List.length_nil, touched_zero]
      exact ⟨by simp, Nat.zero_le _⟩
    rw [if_neg hsrc]
    have hLen : 0 < src.length := List.length_pos_iff.mpr hsrc
    have hDown : pgrounddown dstva = dstva / 4096 * 4096 := rfl
    have hOff : dstva - dstva / 4096 * 4096 = dstva % 4096 := by omega
    have hDiv : dstva / 4096 * 4096 / 4096 = dstva / 4096 := by omega
    simp only [hDown, hOff, show pgsize = 4096 from rfl]
    obtain ⟨n, hn⟩ : ∃ n, n = min (4096 - dstva % 4096) src.length := ⟨_, rfl⟩
    rw [← hn, touched_step hLen, ← hn]
    obtain ⟨S, hS⟩ : ∃ S, S = touched (dstva / 4096 * 4096 + 4096) (src.length - n) := ⟨_, rfl⟩
    have hNotIn : dstva / 4096 ∉ S := hS ▸ not_mem_rest _
    rw [← hS]
    by_cases hva : dstva / 4096 * 4096 ≥ maxva
    · rw [if_pos hva, wp_pure]
      refine ⟨iff_of_false (by decide) ?_, 0, (fun h => by cases h), ρ, stores_refl ht h dstva⟩
      rintro ⟨hAll, -⟩
      rcases hAll _ (mem_insert_self _ _) with ⟨hMapped, -⟩ | hLazy
      · exact absurd hMapped.1 (by omega)
      · have := hLazy.1
        rw [trapframeVa_eq] at hsz
        rw [maxva_eq] at hva
        omega
    rw [if_neg hva]
    simp only [wp_bind]
    refine wp_post (faultIn_exact ht h hsz (dstva / 4096) dstva) ?_
    rintro pa m1 ⟨ρ1, hStores, ⟨hZero, hWhy⟩ | ⟨hne, hReadable, hMapped, hAddr, hDemand⟩⟩
    · rw [if_pos hZero, wp_pure]
      refine ⟨iff_of_false (by decide) ?_, 0, (fun h => by cases h), ρ1, hStores⟩
      rintro ⟨hAll, hEnough⟩
      obtain ⟨hLazy, hFew⟩ := hWhy (hAll _ (mem_insert_self _ _)).readable
      have := le_demand (mem_insert_self (dstva / 4096) S) hLazy
      omega
    · rw [if_neg hne]
      simp only [wp_bind, wp_lookup (show dstva / 4096 * 4096 < maxva by omega), hDiv]
      cases hSlot : m1.slot r (dstva / 4096) with
      | none =>
        have hNone := hMapped.2.1
        rw [view_of_slot_none hSlot] at hNone
        exact absurd hNone (by decide)
      | some q =>
        obtain ⟨q, i⟩ := q
        simp only [wp_bind, wp_read]
        rw [← view_of_slot_some hSlot]
        have hWritable : m.Writable r sz (dstva / 4096) ↔ (m1.view r (dstva / 4096)).has pteW := by
          rw [← hStores.writable]
          constructor
          · rintro (⟨-, hW⟩ | hLazy)
            · exact hW
            · exact absurd hLazy hMapped.not_lazy
          · exact fun hW => .inl ⟨hMapped, hW⟩
        by_cases hW : (m1.view r (dstva / 4096)).has pteW
        · rw [if_neg (by rw [hW]; decide)]
          simp only [wp_bind, storeBytes, wp_update]
          have hTake : (src.take n).length = n := by
            rw [List.length_take]
            omega
          have hStore : Stores r tf tr sz m1 ρ1 dstva (src.take n) _ ρ1 :=
            stores_bytes hStores.served.typed hStores.served.table hMapped (by omega)
          rw [← hAddr] at hStore
          obtain ⟨m2, hm2⟩ : ∃ m2, m2 = m1.setPage pa ((m1.page pa).write (dstva % 4096) (src.take n)) := ⟨_, rfl⟩
          rw [← hm2] at hStore ⊢
          have hBoth : Stores r tf tr sz m ρ dstva (src.take n) m2 ρ1 := by
            rw [← List.nil_append (src.take n)]
            exact hStores.trans ht hStore
          have hLeaf := (mapped_leaf hStores.served.table hMapped).2
          have hSame : m2.demand r sz S = m1.demand r sz S := by
            have hTables : ∀ q l a, ρ1 q = .table r l a → m2.page q = m1.page q := by
              intro q l a hq
              rw [hm2, setPage_page_of_ne]
              rw [hAddr]
              exact ne_of_role hq hLeaf Role.noConfusion
            refine demand_congr ?_ ?_ hsz S
            · intro w _
              exact hStores.served.typed.toTrees.view_congr hStores.served.table.root hTables w
            · intro w
              exact missingFrom_congr hStores.served.typed.toTrees hTables 2 r 0 hStores.served.table.root
          have hFreelist : m2.freelist = m1.freelist := by rw [hm2, setPage_freelist]
          refine wp_post (ih (dstva / 4096 * 4096 + 4096) (src.drop n) (by rw [List.length_drop]; omega) hStore.served.typed
            hStore.served.table) ?_
          rintro ok m3 ⟨hWhen, j, hj, ρ3, hRest⟩
          rw [List.length_drop, ← hS, hSame, hFreelist, ← hDemand S hNotIn] at hWhen
          refine ⟨?_, ?_⟩
          · rw [hWhen, Finset.forall_mem_insert]
            simp only [hStore.writable, hStores.writable]
            exact ⟨fun hAll => ⟨⟨hWritable.mpr hW, hAll.1⟩, hAll.2⟩, fun hAll => ⟨hAll.1.2, hAll.2⟩⟩
          · by_cases hLast : src.length ≤ n
            · -- this was the last pass
              have hDrop : src.drop n = [] := List.drop_eq_nil_of_le hLast
              rw [hDrop, List.take_nil] at hRest
              refine ⟨n, fun _ => hLast, ρ3, ?_⟩
              have hNil : Stores r tf tr sz m2 ρ1 (dstva + (src.take n).length) [] m3 ρ3 :=
                ⟨hRest.served, fun va => by rw [hRest.logical_nil, if_neg (by rw [List.length_nil]; omega)], hRest.writable, hRest.page⟩
              rw [← List.append_nil (src.take n)]
              exact hBoth.trans ht hNil
            · refine ⟨n + j, fun hOk => ?_, ρ3, ?_⟩
              · have := hj hOk
                rw [List.length_drop] at this
                omega
              · rw [show dstva / 4096 * 4096 + 4096 = dstva + (src.take n).length by omega] at hRest
                rw [List.take_add]
                exact hBoth.trans ht hRest
        · rw [if_pos (by simpa using hW), wp_pure]
          refine ⟨iff_of_false (by decide) ?_, 0, (fun h => by cases h), ρ1, hStores⟩
          rintro ⟨hAll, -⟩
          exact hW (hWritable.mp (hAll _ (mem_insert_self _ _)))

end

/-! ## The copies of a process -/

def AddressSpace (m : Mem) (r sz : Nat) : Prop :=
  sz ≤ trapframeVa ∧ ∃ ρ tf tr, Typed m ρ ∧ UserTable m ρ r tf tr (npages sz)

def Mem.TablePage (m : Mem) (root p : Nat) : Prop :=
  p = root ∨
  (∃ i < 512, (m.pte root i).has pteV ∧ pte2pa (m.pte root i) = p) ∨
  ∃ i < 512, ∃ j < 512, (m.pte root i).has pteV ∧ (m.pte (pte2pa (m.pte root i)) j).has pteV ∧
    pte2pa (m.pte (pte2pa (m.pte root i)) j) = p

lemma Trees.tablePage_iff {m : Mem} {ρ : Roles} (h : Trees m ρ) {r p : Nat} (hr : ρ r = .table r 2 0) :
    m.TablePage r p ↔ ∃ l a, ρ p = .table r l a := by
  constructor
  · rintro (rfl | ⟨i, hi, hV, rfl⟩ | ⟨i, hi, j, hj, hV, hV', rfl⟩)
    · exact ⟨2, 0, hr⟩
    · exact ⟨1, _, (h.down r r 1 0 hr i hi hV).1⟩
    · exact ⟨0, _, (h.down _ r 0 _ (h.down r r 1 0 hr i hi hV).1 j hj hV').1⟩
  · rintro ⟨l, a, hp⟩
    obtain ⟨hl, -⟩ := h.level p r l a hp
    match l, hl, hp with
    | 2, _, hp => exact .inl (h.root p r a hp)
    | 1, _, hp =>
      obtain ⟨q, hq, hV, hqp⟩ := h.up p r 1 a hp (by omega)
      rw [h.root q r _ hq] at hV hqp
      exact .inr (.inl ⟨a % 512, Nat.mod_lt _ (by decide), hV, hqp⟩)
    | 0, _, hp =>
      obtain ⟨q, hq, hV, hqp⟩ := h.up p r 0 a hp (by omega)
      obtain ⟨q', hq', hV', hqp'⟩ := h.up q r 1 _ hq (by omega)
      rw [h.root q' r _ hq'] at hV' hqp'
      rw [← hqp'] at hV hqp
      exact .inr (.inr ⟨_, Nat.mod_lt _ (by decide), a % 512, Nat.mod_lt _ (by decide), hV', hV, hqp⟩)

def Mem.Foreign (m : Mem) (r p : Nat) : Prop :=
  p ∉ m.freelist ∧ ¬ m.TablePage r p ∧ ∀ v, m.MappedUser r v → p ≠ pte2pa (m.view r v)

section

variable {m m' : Mem} {ρ ρ' : Roles} {r tf tr sz dst : Nat} {bytes : Text}

lemma Stores.foreign (h : Stores r tf tr sz m ρ dst bytes m' ρ') (ht : Typed m ρ) (hr : ρ r = .table r 2 0) {p : Nat}
    (hp : m.Foreign r p) : m'.page p = m.page p :=
  h.page p (fun hFree => hp.1 ((ht.free p).mp hFree)) (fun l a hTable => hp.2.1 ((ht.toTrees.tablePage_iff hr).mpr ⟨l, a, hTable⟩)) hp.2.2

/-- `copyin` delivers what the process sees and `copyout` changes what it sees, exactly if all pages of the
range are there for it or can be had from the allocator. -/
theorem user_copies (h : AddressSpace m r sz) :
    (∀ srcva len, ∃ bytes ok m', copyin r sz r srcva len m = .ok ((bytes, ok), m') ∧
      (ok = true ↔ (∀ i < len, m.logical r sz (srcva + i) ≠ none) ∧ m.demand r sz (touched srcva len) ≤ m.freelist.length) ∧
      (ok = true → bytes.map some = (List.range len).map fun i => m.logical r sz (srcva + i)) ∧
      (∀ va, m'.logical r sz va = m.logical r sz va) ∧ (∀ p, m.Foreign r p → m'.page p = m.page p) ∧ AddressSpace m' r sz) ∧
    ∀ dstva src, ∃ ok m', copyout r sz r dstva src m = .ok (ok, m') ∧
      (ok = true ↔ (∀ i < src.length, m.Writable r sz ((dstva + i) / 4096)) ∧
        m.demand r sz (touched dstva src.length) ≤ m.freelist.length) ∧
      ∃ j ≤ src.length, (ok = true → j = src.length) ∧
        (∀ va, m'.logical r sz va = if dstva ≤ va ∧ va < dstva + j then src[va - dstva]? else m.logical r sz va) ∧
        (∀ p, m.Foreign r p → m'.page p = m.page p) ∧ AddressSpace m' r sz := by
  obtain ⟨hsz, ρ, tf, tr, ht, hTable⟩ := h
  have hPages : ∀ (P : Nat → Prop) (va len : Nat), (∀ v ∈ touched va len, P v) ↔ ∀ i < len, P ((va + i) / 4096) := by
    intro P va len
    unfold touched
    rw [Finset.forall_mem_image]
    constructor
    · exact fun hAll i hi => hAll (mem_Ico.mpr ⟨by omega, by omega⟩)
    · intro hAll a ha
      obtain ⟨hLow, hHigh⟩ := mem_Ico.mp ha
      have hAt := hAll (a - va) (by omega)
      rwa [show va + (a - va) = a by omega] at hAt
  constructor
  · intro srcva len
    have hRun : wp (copyin r sz r srcva len) (fun _ => False) _ m :=
      copyinLoop_exact hsz len srcva len [] le_rfl ht hTable
    obtain ⟨⟨bytes, ok⟩, m', hEq, ⟨ρ', hStores⟩, hWhen, hBytes⟩ := wp_total hRun
    refine ⟨bytes, ok, m', hEq, ?_, fun hOk => by simpa using hBytes hOk, hStores.logical_nil, fun p hp => hStores.foreign ht hTable.root hp,
      hsz, ρ', tf, tr, hStores.served.typed, hStores.served.table⟩
    rw [hWhen, hPages]
    simp only [Ne, logical_eq_none, not_not]
  · intro dstva src
    have hRun : wp (copyout r sz r dstva src) (fun _ => False) _ m :=
      copyoutLoop_exact hsz src.length dstva src le_rfl ht hTable
    obtain ⟨ok, m', hEq, hWhen, j, hj, ρ', hStores⟩ := wp_total hRun
    refine ⟨ok, m', hEq, ?_, min j src.length, by omega, fun hOk => by have := hj hOk; omega, ?_, fun p hp => hStores.foreign ht hTable.root hp,
      hsz, ρ', tf, tr, hStores.served.typed, hStores.served.table⟩
    · rw [hWhen, hPages]
    · grind [hStores.logical]

end

namespace LazySample

/-- The memory of an address space of two pages, none of them touched yet. -/
def mem : Mem := ⟨4096, 20480, [8192, 12288, 16384], fun _ => Bytes.fill 0⟩

def roles (p : Nat) : Role :=
  if p = 4096 then .table 4096 2 0 else if p ∈ mem.freelist then .free else .outside

lemma roles_table {p r l a : Nat} (h : roles p = .table r l a) : p = 4096 ∧ r = 4096 ∧ l = 2 ∧ a = 0 := by
  unfold roles at h
  split at h
  · cases h
    exact ⟨‹_›, rfl, rfl, rfl⟩
  · split at h <;> cases h

lemma roles_leaf (p r v : Nat) : roles p ≠ .leaf r v := by
  unfold roles
  split
  · exact Role.noConfusion
  · split <;> exact Role.noConfusion

lemma pte_zero (p i : Nat) : mem.pte p i = 0#64 := pte_of_zero mem rfl i

lemma view_zero (r v : Nat) : mem.view r v = 0#64 := by
  unfold Mem.view Mem.slot
  rw [pte_zero, if_neg (by decide)]

lemma typed : Typed mem roles where
  bounds := ⟨by decide, by decide⟩
  managed p := by
    unfold roles Mem.Managed
    simp only [mem, List.mem_cons, List.not_mem_nil, or_false]
    split
    · simp [*]
    · grind
  free p := by
    unfold roles
    split
    · refine iff_of_false Role.noConfusion ?_
      simp [mem, *]
    · grind
  nodup := by decide
  level p r l a h := by
    obtain ⟨-, -, rfl, rfl⟩ := roles_table h
    decide
  root p r a h := by
    obtain ⟨hp, hr, -⟩ := roles_table h
    rw [hp, hr]
  down p r l a _ i _ hValid := by
    rw [pte_zero] at hValid
    exact absurd hValid (by decide)
  up p r l a h hl := by
    obtain ⟨-, -, rfl, -⟩ := roles_table h
    omega
  leafRoot p r v h := absurd h (roles_leaf p r v)
  leafUp p r v h := absurd h (roles_leaf p r v)

lemma space : AddressSpace mem 4096 8192 := by
  refine ⟨by decide, roles, 0, 0, typed, rfl, by decide, ?_, ?_, fun p v hp => absurd hp (roles_leaf p _ v)⟩
  · intro v _ hValid
    rw [view_zero] at hValid
    exact absurd hValid (by decide)
  · intro v _ _ hValid
    rw [view_zero] at hValid
    exact absurd hValid (by decide)

end LazySample

open LazySample in
/-- The first four bytes of an untouched space are zeros. -/
theorem user_copies_lazy : ∃ bytes ok m', copyin 4096 8192 4096 0 4 mem = .ok ((bytes, ok), m') ∧ ok = true ∧ bytes = [0, 0, 0, 0] ∧
    ∀ va, m'.logical 4096 8192 va = mem.logical 4096 8192 va := by
  obtain ⟨bytes, ok, m', hRun, hWhen, hBytes, hSame, -⟩ := (user_copies space).1 0 4
  have hLazy : ∀ i < 4, mem.logical 4096 8192 (0 + i) = some 0 := by
    intro i hi
    apply logical_of_lazy
    exact ⟨by omega, by rw [view_zero]; decide⟩
  have hOk : ok = true := by
    rw [hWhen]
    exact ⟨fun i hi => by rw [hLazy i hi]; simp, by decide +kernel⟩
  have hList : bytes.map some = [0, 0, 0, 0].map some := by
    rw [hBytes hOk]
    exact (List.map_congr_left fun i hi => hLazy i (List.mem_range.mp hi)).trans rfl
  exact ⟨bytes, ok, m', hRun, hOk, List.map_injective_iff.mpr (Option.some_injective _) hList, hSame⟩

open LazySample in
/-- Reading one byte of an untouched space writes an entry into the root of the page table, a page that is
neither fresh nor mapped for the user. -/
theorem copyin_writes_page_table : ∃ bytes m', AddressSpace mem 4096 8192 ∧ copyin 4096 8192 4096 0 1 mem = .ok ((bytes, true), m') ∧
    4096 ∉ mem.freelist ∧ (∀ v, mem.MappedUser 4096 v → 4096 ≠ pte2pa (mem.view 4096 v)) ∧ m'.page 4096 ≠ mem.page 4096 := by
  have hTest : (match copyin 4096 8192 4096 0 1 mem with
      | .ok ((_, ok), m') => ok && (m'.page 4096).get 0 ≠ 0
      | .error _ => false) = true := by decide +kernel
  split at hTest
  · rename_i bytes ok m' hRun
    obtain ⟨hOk, hByte⟩ := Bool.and_eq_true_iff.mp hTest
    rw [hOk] at hRun
    refine ⟨bytes, m', space, hRun, by decide, ?_, ?_⟩
    · intro v hv
      have hValid := hv.2.1
      rw [view_zero] at hValid
      exact absurd hValid (by decide)
    · intro hSame
      rw [hSame] at hByte
      exact absurd hByte (by decide)
  · cases hTest

end Xv6K230.Vm
