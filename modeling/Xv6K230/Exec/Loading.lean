import Xv6K230.Exec.Elf
import Xv6K230.Vm.Copies

/-! # What the loader leaves in memory

`loadseg` stores exactly the bytes of the file range it is given.
-/

namespace Xv6K230

open Vm Fs Riscv Prog Elf

/-! ## The bytes of one segment -/

section

variable {E : Stop → Prop} {m : Mem} {ρ : Roles} {r tf tr sz : Nat}

lemma Building.mapped (h : Building r tf tr sz m ρ) {v : Nat} (hv : v < npages sz) : m.MappedUser r v := by
  refine ⟨?_, h.full v hv⟩
  have hBound := h.table.bound
  rw [trapframeVpn] at hBound
  rw [maxva_eq]
  omega

lemma Building.regrown_same (h : Building r tf tr sz m ρ) {m' : Mem} {ρ' : Roles}
    (hSame : Regrown r tf tr (npages sz) m ρ (npages sz) m' ρ') : Building r tf tr sz m' ρ' := by
  have hNone : FreshRange m' ρ' r (npages sz) (npages sz) (userPerm 0) := fun p hLow hHigh => absurd hHigh (not_lt.mpr hLow)
  exact h.of_regrown hSame hNone

lemma Building.of_stores (h : Building r tf tr sz m ρ) {dst : Nat} {bytes : Text} {m' : Mem}
    (hStores : Stores r tf tr sz m ρ dst bytes m' ρ) : Building r tf tr sz m' ρ := by
  refine ⟨hStores.served.typed, hStores.served.table, h.size, fun v hv => ?_⟩
  rw [hStores.served.view v (vpn_lt (lt_of_lt_of_le hv h.table.bound)) (h.full v hv).1]
  exact h.full v hv

lemma found_le (v : Node) (off n : Nat) : v.found off n ≤ n := by
  unfold Node.found
  split <;> omega

lemma found_full {v : Node} {off n : Nat} (h : v.found off n = n) (hn : 0 < n) : off + n ≤ v.size := by
  unfold Node.found at h
  split at h <;> omega

lemma readiKernel_slice {s : FsState} {ip : Ip} {i : Nat} (h : Consistent s) (hip : Loaded s ip i) (off n : Nat) :
    wp (readiKernel ip off n) E (fun r t => t = s ∧
      r = (((s.files i).found off n : Int), (s.files i).slice off ((s.files i).found off n))) s := by
  apply wp_post (readi_slice h hip (fun _ _ => true) off n)
  rintro r t ⟨rfl, ⟨-, k, l, hFalse⟩ | hr⟩
  · cases hFalse
  · exact ⟨rfl, hr⟩

lemma length_slice (v : Node) (off n : Nat) : (v.slice off n).length = n := by
  rw [Node.slice, List.length_map, List.length_range]

/-- `loadseg` stores a part of the file range in front of the address, and all of it if it succeeds. -/
lemma loadsegLoop_stores {k : Kernel} {ip : Ip} {inum : Nat} (hFs : Consistent k.fs) (hip : Loaded k.fs ip inum) {va offset len : Nat}
    (hEnd : va + len ≤ sz) : ∀ (fuel i : Nat) {m : Mem}, len ≤ fuel + i → i ≤ len → (i = 0 ∨ offset + i ≤ (k.fs.files inum).size) →
    offset < 2 ^ 32 → Building r tf tr sz m ρ →
    wp (loadsegLoop r va ip offset len fuel i) E (fun ok k' => ∃ m' j, k' = k.setMem m' ∧ i + j ≤ len ∧
      Stores r tf tr sz m ρ (va + i) ((k.fs.files inum).slice (offset + i) j) m' ρ ∧
      (∀ p, (∀ u, m.MappedUser r u → p ≠ pte2pa (m.view r u)) → m'.page p = m.page p) ∧
      (ok = true → i + j = len ∧ (i < len → offset + len ≤ (k.fs.files inum).size))) (k.setMem m) := by
  intro fuel
  induction fuel with
  | zero =>
    intro i m hFuel hi _ _ h
    rw [loadsegLoop, wp_pure]
    exact ⟨m, 0, rfl, hi, stores_refl h.typed h.table _, fun _ _ => rfl, fun _ => ⟨by omega, fun hlt => by omega⟩⟩
  | succ fuel ih =>
    intro i m hFuel hi hSeen hOff h
    have hSize := hFs.size_le inum
    generalize hv : k.fs.files inum = v at hSeen hSize ⊢
    simp only [loadsegLoop]
    split
    · rename_i hlt
      have hsz := h.size
      rw [trapframeVa_eq] at hsz
      have hAddr : uint64 (va + i) = va + i := Nat.mod_eq_of_lt (by omega)
      have hMod : (offset + i) % 2 ^ 32 = offset + i := Nat.mod_eq_of_lt (by omega)
      have hBelow : va + i < sz := by omega
      have hMapped := h.mapped (page_lt hBelow)
      have hMax : va + i < maxva := by
        rw [maxva_eq]
        omega
      obtain ⟨hEq, hne⟩ := userAddr_of_user h.typed h.table hMax hMapped.2.1 hMapped.2.2
      simp only [wp_bind, wp_onMem, wp_walkaddr, hAddr, Kernel.setMem_mem]
      rw [if_neg hne]
      simp only [wp_bind, wp_onFs, Kernel.setMem_fs, hMod]
      obtain ⟨n, hn⟩ : ∃ n, n = min (len - i) (pgsize - (va + i) % pgsize) := ⟨_, rfl⟩
      rw [← hn]
      have hnPos : 0 < n := by
        rw [hn, pgsize]
        omega
      refine wp_post (readiKernel_slice hFs hip (offset + i) n) ?_
      rintro ⟨got, l⟩ fs ⟨rfl, hGot⟩
      rw [hv] at hGot
      obtain ⟨rfl, rfl⟩ := Prod.mk.inj hGot
      have hFound := found_le v (offset + i) n
      simp only [wp_onMem, storeBytes, wp_update, hEq]
      have hStores : Stores r tf tr sz m ρ (va + i) (v.slice (offset + i) (v.found (offset + i) n))
          (m.setPage (pte2pa (m.view r ((va + i) / 4096)))
            ((m.page (pte2pa (m.view r ((va + i) / 4096)))).write ((va + i) % 4096)
              (v.slice (offset + i) (v.found (offset + i) n)))) ρ := by
        refine stores_bytes h.typed h.table hMapped ?_
        rw [length_slice]
        rw [pgsize] at hn
        omega
      have hOthers : ∀ p, (∀ u, m.MappedUser r u → p ≠ pte2pa (m.view r u)) →
          (m.setPage (pte2pa (m.view r ((va + i) / 4096)))
            ((m.page (pte2pa (m.view r ((va + i) / 4096)))).write ((va + i) % 4096)
              (v.slice (offset + i) (v.found (offset + i) n)))).page p = m.page p :=
        fun p hp => setPage_page_of_ne m _ (hp _ hMapped)
      split
      · rw [wp_pure]
        exact ⟨_, v.found (offset + i) n, rfl, by omega, hStores, hOthers, fun hFalse => by cases hFalse⟩
      · rename_i hFull
        have hFull : v.found (offset + i) n = n := by omega
        rw [hFull] at hStores hOthers
        have hInside := found_full hFull hnPos
        have hNext := ih (i + n) (by omega) (by omega) (.inr (by rw [hv]; omega)) hOff (h.of_stores hStores)
        rw [hFull]
        refine wp_post hNext ?_
        rintro ok k' ⟨m', j, rfl, hj, hStores', hOthers', hOk⟩
        rw [hv] at hStores' hOk
        refine ⟨m', n + j, rfl, by omega, ?_, fun p hp => ?_, ?_⟩
        · rw [Node.slice_add]
          refine hStores.trans h.typed ?_
          rw [length_slice, show va + i + n = va + (i + n) by omega, show offset + i + n = offset + (i + n) by omega]
          exact hStores'
        · rw [hOthers' p fun u hu => ?_, hOthers p hp]
          -- the page tables are the same, so a page mapped afterwards was mapped before
          have hLow := hStores.served.table.lt_of_user hu.lt hu.2.1 hu.2.2
          have hBefore := h.mapped hLow
          rw [hStores.served.view u hu.lt hBefore.2.1]
          exact hp u hBefore
        · grind
    · rw [wp_pure]
      exact ⟨m, 0, rfl, hi, stores_refl h.typed h.table _, fun _ _ => rfl, fun _ => ⟨by omega, fun hlt => by omega⟩⟩

end

/-! ## The segment loop -/

lemma has_pteX (e : Pte) : e.has pteX = e.getLsbD 3 := has_shift e (by decide)

lemma perm_of_flags (p : Nat) (s : Segment) :
    (pa2pte p ||| userPerm (flags2perm s.flags) ||| pteV).has pteW = s.writable ∧
      (pa2pte p ||| userPerm (flags2perm s.flags) ||| pteV).has pteX = s.executable := by
  rw [has_pteW, has_pteX, getLsbD_entry _ _ (by decide), getLsbD_entry _ _ (by decide)]
  unfold Segment.writable Segment.executable flags2perm
  by_cases hX : s.flags &&& 1 = 0 <;> by_cases hW : s.flags &&& 2 = 0 <;>
    simp only [hX, hW, ne_eq, not_true_eq_false, not_false_eq_true, if_true, if_false] <;> decide

/-- The segments have been loaded: the image is there, and all its pages have the permissions of the
segment they were mapped for. -/
structure Laid (v : Node) (segs : List Segment) (r tf tr : Nat) (m : Mem) (ρ : Roles) : Prop where
  building : Building r tf tr (extent segs) m ρ
  file : ∀ s ∈ segs, s.filesz ≤ s.memsz
  byte : ∀ va, va / 4096 < npages (extent segs) → m.logical r (extent segs) va = some (image v segs va)
  perm : ∀ p < npages (extent segs), ∃ s, mapper segs p = some s ∧ (m.view r p).has pteW = s.writable ∧
    (m.view r p).has pteX = s.executable

section

variable {E : Stop → Prop} {v : Node} {segs : List Segment} {s : Segment} {r tf tr : Nat} {m m1 m2 : Mem} {ρ ρ1 : Roles}

lemma Laid.nil (h : Building r tf tr 0 m ρ) : Laid v [] r tf tr m ρ :=
  ⟨h, fun _ hs => absurd hs List.not_mem_nil, fun _ hva => absurd hva (Nat.not_lt_zero _),
    fun _ hp => absurd hp (Nat.not_lt_zero _)⟩

lemma Laid.grow (h : Laid v segs r tf tr m ρ)
    (hGrown : Regrown r tf tr (npages (extent segs)) m ρ (npages (extent (segs ++ [s]))) m1 ρ1)
    (hFresh : FreshRange m1 ρ1 r (npages (extent segs)) (npages (extent (segs ++ [s]))) (userPerm (flags2perm s.flags))) :
    Building r tf tr (extent (segs ++ [s])) m1 ρ1 ∧
      (∀ va, va / 4096 < npages (extent (segs ++ [s])) → m1.logical r (extent (segs ++ [s])) va = some (image v segs va)) ∧
      ∀ p < npages (extent (segs ++ [s])), ∃ t, mapper (segs ++ [s]) p = some t ∧ (m1.view r p).has pteW = t.writable ∧
        (m1.view r p).has pteX = t.executable := by
  have hBuilding := h.building.of_regrown hGrown hFresh
  have hPages : ∀ p < npages (extent (segs ++ [s])), p < 512 ^ 3 := fun p hp => vpn_lt (lt_of_lt_of_le hp hGrown.table.bound)
  refine ⟨hBuilding, fun va hva => ?_, fun p hp => ?_⟩
  · rw [logical_of_mapped (hBuilding.mapped hva)]
    by_cases hOld : va / 4096 < npages (extent segs)
    · have hMapped := h.building.mapped hOld
      have hLeaf := (h.building.table.user _ (lt_of_lt_of_le hOld h.building.table.bound) hMapped.2.1).2
      have hByte := h.byte va hOld
      rw [logical_of_mapped hMapped] at hByte
      rw [hGrown.view _ (hPages _ hva) (.inl hOld), (hGrown.keep _ _ hOld hLeaf).2, hByte]
    · obtain ⟨p, hLeaf, hView, hPage⟩ := hFresh _ (by omega) hva
      obtain ⟨-, hAlign, hlt⟩ := hGrown.typed.toAlloc.pos_of_role (p := p) (by rw [hLeaf]; exact Role.noConfusion)
      have hBeyond : extent segs ≤ va := by
        rw [npages] at hOld
        omega
      rw [image_beyond h.file hBeyond, hView, pte2pa_entry hAlign (lt_trans hlt (by norm_num)) (userPerm_flags2perm _), hPage,
        Bytes.get_fill_zero]
  · rw [mapper_append]
    by_cases hOld : p < npages (extent segs)
    · grind [h.perm, hGrown.view]
    · obtain ⟨q, -, hView, -⟩ := hFresh p (by omega) hp
      have hTop : p < npages s.top := by
        grind [extent_append, le_total, max_eq_right, max_eq_left]
      rw [mapper_beyond (by omega), if_pos hTop, hView]
      exact ⟨s, rfl, perm_of_flags q s⟩

lemma Laid.load (hFile : ∀ t ∈ segs, t.filesz ≤ t.memsz) (hs : s.filesz ≤ s.memsz)
    (h : Building r tf tr (extent (segs ++ [s])) m ρ ∧
      (∀ va, va / 4096 < npages (extent (segs ++ [s])) → m.logical r (extent (segs ++ [s])) va = some (image v segs va)) ∧
      ∀ p < npages (extent (segs ++ [s])), ∃ t, mapper (segs ++ [s]) p = some t ∧ (m.view r p).has pteW = t.writable ∧
        (m.view r p).has pteX = t.executable)
    (hStores : Stores r tf tr (extent (segs ++ [s])) m ρ s.vaddr (v.slice s.off s.filesz) m1 ρ) :
    Laid v (segs ++ [s]) r tf tr m1 ρ := by
  obtain ⟨hBuilding, hByte, hPerm⟩ := h
  refine ⟨hBuilding.of_stores hStores, ?_, fun va hva => ?_, fun p hp => ?_⟩
  · grind
  · grind [hStores.logical, image_append, length_slice, Node.slice]
  · rw [hStores.served.view p (vpn_lt (lt_of_lt_of_le hp hBuilding.table.bound)) (hBuilding.full p hp).1]
    exact hPerm p hp

/-- The segment loop on a consistent file system never stops. If it reaches its end, the headers are accepted
and their segments loaded. -/
lemma loadSegments_lays (r tf tr : Nat) {k : Kernel} {ip : Ip} {inum : Nat} (hFs : Consistent k.fs) (hip : Loaded k.fs ip inum) :
    ∀ (n off : Nat) {segs : List Segment} {m : Mem} {ρ : Roles}, Laid (k.fs.files inum) segs r tf tr m ρ →
    wp (loadSegments r ip n off (extent segs)) E (fun res k' => ∃ m' ρ', k' = k.setMem m' ∧ Touches r m ρ m' ρ' ∧
      Building r tf tr res.2 m' ρ' ∧ (res.1 = true → Accepted (k.fs.files inum) n off ∧
        res.2 = extent (segs ++ loaded (k.fs.files inum) n off) ∧
        Laid (k.fs.files inum) (segs ++ loaded (k.fs.files inum) n off) r tf tr m' ρ')) (k.setMem m) := by
  have hSize := hFs.size_le inum
  generalize hv : k.fs.files inum = v at hSize ⊢
  intro n
  induction n with
  | zero =>
    intro off segs m ρ h
    rw [loadSegments, wp_pure]
    refine ⟨m, ρ, rfl, Touches.refl r m ρ, h.building, fun _ => ⟨trivial, ?_⟩⟩
    rw [show loaded v 0 off = [] from rfl, List.append_nil]
    exact ⟨rfl, h⟩
  | succ n ih =>
    intro off segs m ρ h
    simp only [loadSegments, wp_bind, wp_onFs, Kernel.setMem_fs]
    refine wp_post (readiKernel_slice hFs hip off proghdrSize) ?_
    rintro ⟨got, ph⟩ fs ⟨rfl, hGot⟩
    rw [hv] at hGot
    obtain ⟨rfl, rfl⟩ := Prod.mk.inj hGot
    have hFail : ∃ m' ρ', k.setMem m = k.setMem m' ∧ Touches r m ρ m' ρ' ∧ Building r tf tr (extent segs) m' ρ' ∧
        (false = true → Accepted v (n + 1) off ∧ extent segs = extent (segs ++ loaded v (n + 1) off) ∧
          Laid v (segs ++ loaded v (n + 1) off) r tf tr m' ρ') :=
      ⟨m, ρ, rfl, Touches.refl r m ρ, h.building, fun hFalse => by cases hFalse⟩
    dsimp only
    split
    · rw [wp_pure]
      exact hFail
    rename_i hFull
    have hFull : v.found off proghdrSize = proghdrSize := by omega
    have hInside := found_full hFull (by decide)
    rw [hFull]
    obtain ⟨s, hs⟩ : ∃ s, s = proghdr v off := ⟨_, rfl⟩
    have hFields : field (v.slice off proghdrSize) 0 4 = s.type ∧ field (v.slice off proghdrSize) 4 4 = s.flags ∧
        field (v.slice off proghdrSize) 8 8 = s.off ∧ field (v.slice off proghdrSize) 16 8 = s.vaddr ∧
        field (v.slice off proghdrSize) 32 8 = s.filesz ∧ field (v.slice off proghdrSize) 40 8 = s.memsz := by
      rw [hs]
      exact ⟨rfl, rfl, rfl, rfl, rfl, rfl⟩
    obtain ⟨hType, hFlags, hOff, hVaddr, hFilesz, hMemsz⟩ := hFields
    have hVaddrLt := field_lt (v.slice off proghdrSize) 16 8
    have hMemszLt := field_lt (v.slice off proghdrSize) 40 8
    rw [hVaddr] at hVaddrLt
    rw [hMemsz] at hMemszLt
    rw [hType, hFlags, hOff, hVaddr, hFilesz, hMemsz]
    split
    · rename_i hSkip
      refine wp_post (ih _ h) ?_
      rintro res k' ⟨m', ρ', rfl, hTouch, hBuilding, hOk⟩
      refine ⟨m', ρ', rfl, hTouch, hBuilding, fun hTrue => ?_⟩
      obtain ⟨hAccepted, hRest⟩ := hOk hTrue
      rw [loaded_succ, ← hs, if_neg hSkip, List.nil_append]
      exact ⟨⟨hInside, fun hLoad => absurd (hs ▸ hLoad) hSkip, hAccepted⟩, hRest⟩
    rename_i hLoad
    have hLoad : s.type = 1 := not_not.mp hLoad
    split
    · rw [wp_pure]
      exact hFail
    split
    · rw [wp_pure]
      exact hFail
    rename_i hFile hWrap
    have hTop : s.top < 2 ^ 64 ∧ uint64 (s.vaddr + s.memsz) = s.top := by
      simp only [uint64, Segment.top] at hWrap ⊢
      omega
    rw [hTop.2]
    simp only [wp_bind, wp_onMem]
    have hFull := h.building.full
    refine wp_post (uvmalloc_spec (userPerm_flags2perm _) h.building.typed h.building.table h.building.size
      (.inr fun p hp => (hFull p hp).1)) ?_
    rintro sz1 m1 hGrown
    have hNarrow : extent (segs ++ [s.narrow]) = max (extent segs) s.top := extent_append
    by_cases hZero : sz1 = 0
    · rw [if_pos hZero, wp_pure]
      have hSame : ∃ ρ1, Regrown r tf tr (npages (extent segs)) m ρ (npages (extent segs)) m1 ρ1 := by
        rcases hGrown with ⟨-, hGrown⟩ | ⟨hRes, ρ1, hGrown, -⟩
        · exact hGrown
        · rw [show sz1 = extent segs by omega] at hGrown
          exact ⟨ρ1, hGrown⟩
      obtain ⟨ρ1, hSame⟩ := hSame
      refine ⟨m1, ρ1, rfl, hSame.touches, ?_, fun hFalse => by cases hFalse⟩
      exact h.building.regrown_same hSame
    · obtain ⟨hEq, -⟩ | ⟨hRes, ρ1, hGrown, hFresh⟩ := hGrown
      · exact absurd hEq hZero
      rw [if_neg hZero]
      rw [← hNarrow] at hRes
      subst hRes
      have hLaid := h.grow (s := s.narrow) hGrown hFresh
      have hNarrowFile : s.narrow.filesz ≤ s.narrow.memsz := le_trans (Nat.mod_le _ _) (not_lt.mp hFile)
      have hEnd : s.vaddr + s.filesz % 2 ^ 32 ≤ extent (segs ++ [s.narrow]) := by
        grind [Segment.top]
      simp only [wp_bind, loadseg]
      refine wp_post (loadsegLoop_stores hFs hip hEnd (s.filesz % 2 ^ 32) 0 (le_refl _) (Nat.zero_le _) (.inl rfl)
        (Nat.mod_lt _ (by decide)) hLaid.1) ?_
      rintro ok k2 ⟨m2, j, rfl, hj, hStores, -, hOk⟩
      rw [hv, Nat.add_zero, Nat.add_zero] at hStores
      rw [hv] at hOk
      have hTouch := hGrown.touches.trans hStores.served.touches
      cases ok with
      | true =>
        obtain ⟨hAll, hRange⟩ := hOk rfl
        rw [Nat.zero_add] at hAll
        subst hAll
        rw [if_pos rfl]
        refine wp_post (ih _ (Laid.load (s := s.narrow) h.file hNarrowFile hLaid hStores)) ?_
        rintro res k3 ⟨m3, ρ3, rfl, hTouch3, hBuilding, hDone⟩
        refine ⟨m3, ρ3, rfl, hTouch.trans hTouch3, hBuilding, fun hTrue => ?_⟩
        obtain ⟨hAccepted, hRest⟩ := hDone hTrue
        rw [loaded_succ, ← hs, if_pos hLoad, ← List.append_assoc]
        exact ⟨⟨hInside, fun _ => hs ▸ ⟨by omega, hTop.1, hRange⟩, hAccepted⟩, hRest⟩
      | false =>
        simp only [Bool.false_eq_true, if_false, wp_pure]
        exact ⟨m2, ρ1, rfl, hTouch, hLaid.1.of_stores hStores, fun hFalse => by cases hFalse⟩

end

end Xv6K230
