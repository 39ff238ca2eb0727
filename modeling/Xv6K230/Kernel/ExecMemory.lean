import Xv6K230.Kernel.Image
import Xv6K230.Kernel.Memory

/-! # Memory under exec

`kexec` keeps memory and process table in agreement on each of its exits: the new table is
handed over whole or given back, and the argument pages of `sys_exec` are given back.
-/

namespace Xv6K230

open Vm Fs Riscv Prog

section

variable {E : Stop → Prop} {k : Kernel} {A : List Nat}

lemma Owned.setFs (hk : Owned k A) (fs : FsState) : Owned (k.setFs fs) A :=
  ⟨hk.spaces, hk.live, hk.idle⟩

lemma Owned.of_spaces (hk : Owned k A) {m' : Mem} {ρ' : Roles} {A' : List Nat}
    (h : Spaces m' ρ' k.trampoline k.kpgtbl k.space 0 A') : Owned (k.setMem m') A' :=
  ⟨⟨ρ', h⟩, hk.live, hk.idle⟩

structure Pending (k : Kernel) (A : List Nat) (me : Pid) (x sz : Nat) (m : Mem) (ρ : Roles) : Prop where
  spaces : Spaces m ρ k.trampoline k.kpgtbl k.space x A
  pos : x ≠ 0
  size : sz ≤ trapframeVa
  table : UserTable m ρ x (k.proc me).trapframe k.trampoline (npages sz)

lemma Pending.touch {me : Pid} {x sz sz' : Nat} {m m' : Mem} {ρ ρ' : Roles} (h : Pending k A me x sz m ρ)
    (ht' : Typed m' ρ') (hTouch : Touches x m ρ m' ρ') (hsz : sz' ≤ trapframeVa)
    (hTable : UserTable m' ρ' x (k.proc me).trapframe k.trampoline (npages sz')) : Pending k A me x sz' m' ρ' :=
  ⟨h.spaces.touch_extra h.pos hTouch ht', h.pos, hsz, hTable⟩

lemma Pending.drop {me : Pid} {x sz : Nat} {m : Mem} {ρ : Roles} (h : Pending k A me x sz m ρ) :
    wp (procFreepagetable x sz) E (fun _ m' => ∃ ρ', Spaces m' ρ' k.trampoline k.kpgtbl k.space 0 A) m := by
  refine wp_post (procFreepagetable_spec h.spaces.typed h.table h.size) ?_
  rintro - m' ⟨ρ', ht', hTouch, hVacant⟩
  exact ⟨ρ', h.spaces.drop_extra h.pos hTouch ht' hVacant⟩

lemma states_setProc {i : Pid} {p : Proc} (hp : p.state = (k.proc i).state) (j : Pid) :
    ((k.setProc i p).proc j).state = (k.proc j).state := by
  by_cases hj : j = i
  · subst hj
    rw [setProc_proc_same, hp]
  · rw [setProc_proc_of_ne _ hj]

lemma Pending.commit {me : Pid} {x sz : Nat} {m : Mem} {ρ : Roles} (hk : Owned k A)
    (hMe : (k.proc me).state ≠ .unused) (h : Pending k A me x sz m ρ) {p : Proc}
    (hState : p.state = (k.proc me).state) (hTable : p.pagetable = x) (hSz : p.sz = sz)
    (hTf : p.trapframe = (k.proc me).trapframe) :
    wp (procFreepagetable (k.proc me).pagetable (k.proc me).sz) E
      (fun _ m' => Owned ((k.setMem m').setProc me p) A) m := by
  have hSwap := h.spaces.swap me h.size (fun _ => h.table)
  refine wp_post (procFreepagetable_spec h.spaces.typed (h.spaces.table me (hk.live me hMe).1) (h.spaces.size me)) ?_
  rintro - m' ⟨ρ', ht', hTouch, hVacant⟩
  have hDrop := hSwap.drop_extra (hk.live me hMe).1 hTouch ht' hVacant
  refine ⟨⟨ρ', ?_⟩, ?_, ?_⟩
  · rw [Kernel.Spaced, space_setProc, hTable, hSz, hTf]
    exact hDrop
  · intro j hj
    rw [states_setProc (k := k.setMem m') hState] at hj
    by_cases hji : j = me
    · grind [h.pos, hk.live, setProc_proc_same]
    · rw [setProc_proc_of_ne _ hji]
      exact hk.live j hj
  · intro j hj
    rw [states_setProc (k := k.setMem m') hState] at hj
    have hji : j ≠ me := by
      rintro rfl
      exact hMe hj
    rw [setProc_proc_of_ne _ hji]
    exact hk.idle j hj

lemma execCommit_owned (me : Pid) (path : Text) {argv : List Text} {x sz entry : Nat} {ρ : Roles}
    (hk : Owned k A) (hMe : (k.proc me).state ≠ .unused) {m : Mem} {fs : FsState}
    (h : Building x (k.proc me).trapframe k.trampoline sz m ρ)
    (hSpaces : Spaces m ρ k.trampoline k.kpgtbl k.space x A) (hx : x ≠ 0)
    (hLen : ∀ s ∈ argv, s.length < 4096) :
    wp (execCommit me path argv x sz entry) E (fun _ k' => Owned k' A ∧ ∀ j, (k'.proc j).state = (k.proc j).state)
      ((k.setMem m).setFs fs) := by
  have hPending : Pending k A me x sz m ρ := ⟨hSpaces, hx, h.size, h.table⟩
  simp only [execCommit, wp_bind, wp_getProc, wp_onMem, Kernel.setFs_proc, Kernel.setMem_proc, Kernel.setFs_mem,
    Kernel.setMem_mem]
  refine wp_post (buildStack_spec _ h hLen) ?_
  rintro ⟨sz1, _ | sp⟩ m1 ⟨ρ1, ht1, hTouch1, hsz1, hTable1⟩
  · have h1 := hPending.touch ht1 hTouch1 hsz1 hTable1
    simp only [execBad, wp_bind, wp_onMem, Kernel.setMem_mem, wp_pure]
    refine wp_post h1.drop ?_
    rintro - m2 ⟨ρ2, hSpaces2⟩
    exact ⟨(hk.of_spaces hSpaces2).setFs fs, fun _ => rfl⟩
  · have h1 := hPending.touch ht1 hTouch1 hsz1 hTable1
    simp only [wp_bind, wp_onMem, setEntry, wp_update, wp_modProc, wp_pure, Kernel.setMem_mem, Kernel.setProc_mem,
      Kernel.setMem_proc, Kernel.setFs_proc]
    have hFrame : ρ1 (k.proc me).trapframe = .frame me := h1.spaces.frame me (hk.live me hMe).2
    generalize ((((m1.page (k.proc me).trapframe).putLE 120 8 sp).putLE 24 8 entry).putLE 48 8 sp) = pg
    have hStore := h1.spaces.store_plain (by rw [hFrame]; trivial) pg
    have hTable2 : UserTable (m1.setPage (k.proc me).trapframe pg) ρ1 x (k.proc me).trapframe k.trampoline
        (npages sz1) := by
      have hPlain := hTable1.plain ht1 (p := (k.proc me).trapframe) (c := ρ1 (k.proc me).trapframe)
        (by rw [hFrame]; trivial) (by rw [hFrame]; trivial) (fun q hq => setPage_page_of_ne m1 pg hq)
      rw [Function.update_eq_self] at hPlain
      exact hPlain
    refine wp_post (Pending.commit hk hMe ⟨hStore, hx, hsz1, hTable2⟩
      (p := { k.proc me with name := lastElem path, pagetable := x, sz := sz1 }) rfl rfl rfl rfl) ?_
    intro _ m2 hOwned
    exact ⟨hOwned.setFs fs, states_setProc (k := (k.setMem m2).setFs fs) rfl⟩

lemma execBadLocked_zero (hE : ∀ e : Stop, ¬ e.OfVm → E e) (hk : Owned k A) (ip : Ip) :
    wp (execBadLocked 0 0 ip) E (fun _ k' => Owned k' A ∧ ∀ j, (k'.proc j).state = (k.proc j).state) k := by
  simp only [execBadLocked, ne_eq, not_true_eq_false, if_false, wp_bind, wp_pure, wp_onFs]
  refine wp_mono ((inner_iunlockput ip).noVm _) hE ?_
  intro _ fs1 _
  refine wp_mono (noVm_endOp _) hE ?_
  intro _ fs2 _
  exact ⟨hk.setFs fs2, fun _ => rfl⟩

lemma execBadLocked_owned (hE : ∀ e : Stop, ¬ e.OfVm → E e) (hk : Owned k A) (ip : Ip) {me : Pid} {x sz : Nat}
    {m : Mem} {fs : FsState} {ρ : Roles} (h : Pending k A me x sz m ρ) :
    wp (execBadLocked x sz ip) E (fun _ k' => Owned k' A ∧ ∀ j, (k'.proc j).state = (k.proc j).state)
      ((k.setMem m).setFs fs) := by
  unfold execBadLocked
  rw [if_pos h.pos]
  simp only [wp_bind, wp_pure, wp_onFs, wp_onMem, Kernel.setFs_mem, Kernel.setMem_mem]
  refine wp_post h.drop ?_
  rintro - m1 ⟨ρ1, h1⟩
  refine wp_mono ((inner_iunlockput ip).noVm _) hE ?_
  intro _ fs1 _
  refine wp_mono (noVm_endOp _) hE ?_
  intro _ fs2 _
  exact ⟨(hk.of_spaces h1).setFs fs2, fun _ => rfl⟩

lemma kexec_owned (hE : ∀ e : Stop, ¬ e.OfVm → E e) (me : Pid) (path : Text) {argv : List Text}
    (hLen : ∀ s ∈ argv, s.length < 4096) (hk : Owned k A) (hMe : (k.proc me).state ≠ .unused) :
    wp (kexec me path argv) E (fun _ k' => Owned k' A ∧ ∀ j, (k'.proc j).state = (k.proc j).state) k := by
  simp only [kexec, wp_bind, wp_getProc]
  cases (k.proc me).cwd with
  | none =>
    rw [wp_pure]
    exact ⟨hk, fun _ => rfl⟩
  | some cwd =>
    simp only [wp_bind, wp_onFs]
    refine wp_mono (noVm_beginOp _) hE ?_
    intro _ fs1 _
    refine wp_mono ((inner_namei cwd path).noVm _) hE ?_
    rintro (_ | ip) fs2 -
    · simp only [wp_bind, wp_onFs, wp_pure]
      refine wp_mono (noVm_endOp _) hE ?_
      intro _ fs3 _
      exact ⟨hk.setFs fs3, fun _ => rfl⟩
    · simp only [wp_bind, wp_onFs]
      refine wp_mono ((inner_ilock ip).noVm _) hE ?_
      intro _ fs3 _
      refine wp_mono ((inner_readiKernel ip _ _).noVm _) hE ?_
      rintro ⟨got, elf⟩ fs4 -
      simp only [setFs_setFs]
      split
      · exact execBadLocked_zero hE (hk.setFs fs4) ip
      · simp only [wp_bind, wp_read, wp_onMem, Kernel.setFs_mem, Kernel.setFs_trampoline]
        obtain ⟨ρ, hρ⟩ := hk.spaces
        have hFrame : ρ (k.proc me).trapframe = .frame me := hρ.frame me (hk.live me hMe).2
        have htf := hρ.typed.pageable_frame hFrame
        refine wp_post (procPagetable_spec hρ.typed hρ.tramp.1 htf) ?_
        rintro x m1 (⟨rfl, ht1, hkend, hstop, hPage⟩ | ⟨hpos, hFree, ρ1, ht1, hExt, hTable⟩)
        · rw [if_pos rfl]
          exact execBadLocked_zero hE ((hk.of_spaces (hρ.quiet ht1 hkend hstop hPage)).setFs fs4) ip
        · rw [if_neg hpos]
          simp only [wp_bind]
          have hSpaces := hρ.new_extra hFree hExt.touches ht1
          have hBuild : Building x (k.proc me).trapframe k.trampoline 0 m1 ρ1 :=
            ⟨ht1, hTable, Nat.zero_le _, fun v hv => absurd hv (Nat.not_lt_zero v)⟩
          refine wp_post (loadSegments_spec hE _ _ _ (k := (k.setFs fs4).setMem m1) hBuild) ?_
          rintro ⟨ok, sz⟩ k2 ⟨m2, fs5, ρ2, rfl, hTouch2, hBuild2⟩
          have hSpaces2 := hSpaces.touch_extra hpos hTouch2 hBuild2.typed
          cases ok with
          | true =>
            simp only [if_true, wp_bind, wp_onFs]
            refine wp_mono ((inner_iunlockput ip).noVm _) hE ?_
            intro _ fs6 _
            refine wp_mono (noVm_endOp _) hE ?_
            intro _ fs7 _
            exact execCommit_owned me path (k := k) (m := m2) hk hMe hBuild2 hSpaces2 hpos hLen
          | false =>
            simp only [Bool.false_eq_true, if_false]
            exact execBadLocked_owned (k := k) (m := m2) hE hk ip ⟨hSpaces2, hpos, hBuild2.size, hBuild2.table⟩

end

/-! ## Argument pages -/

section

variable {E : Stop → Prop} {m : Mem} {ρ : Roles} {tr kpt : Nat} {U : Pid → Space} {A : List Nat}

lemma Spaces.served (h : Spaces m ρ tr kpt U 0 A) {i : Pid} (hi : (U i).root ≠ 0) {m' : Mem} {ρ' : Roles}
    (hServed : Served (U i).root (U i).tf tr (npages (U i).sz) m ρ m' ρ') : Spaces m' ρ' tr kpt U 0 A := by
  have hTouched := h.touch_proc hi hServed.touches hServed.typed (h.size i) hServed.table
  rw [show { U i with sz := (U i).sz } = U i from rfl, Function.update_eq_self] at hTouched
  exact hTouched

lemma fetchaddr_spec {p : Proc} {i : Pid} (hp : U i = ⟨p.pagetable, p.sz, p.trapframe⟩) (hi : p.pagetable ≠ 0)
    (addr : Nat) (h : Spaces m ρ tr kpt U 0 A) :
    wp (fetchaddr p addr) E (fun _ m' => ∃ ρ', Spaces m' ρ' tr kpt U 0 A) m := by
  have hTable := h.table i (by rw [hp]; exact hi)
  have hSize := h.size i
  have hServe : ∀ {m' : Mem} {ρ' : Roles}, Served (U i).root (U i).tf tr (npages (U i).sz) m ρ m' ρ' →
      Spaces m' ρ' tr kpt U 0 A := fun hServed => h.served (by rw [hp]; exact hi) hServed
  rw [hp] at hTable hSize hServe
  unfold fetchaddr
  split
  · rw [wp_pure]
    exact ⟨ρ, h⟩
  · simp only [wp_bind, copyin]
    refine wp_post (copyinLoop_spec hSize _ _ _ _ h.typed hTable) ?_
    rintro ⟨l, ok⟩ m' ⟨ρ', hServed⟩
    simp only [wp_pure]
    exact ⟨ρ', hServe hServed⟩

/-- The argument pages of `sys_exec` are pages of their own, and the strings are shorter
than a page. -/
lemma fetchArgs_spec {p : Proc} {i : Pid} (hp : U i = ⟨p.pagetable, p.sz, p.trapframe⟩) (hi : p.pagetable ≠ 0)
    (uargv : Nat) : ∀ (n j : Nat) (pages : List Nat) (strs : List Text) {m : Mem} {ρ : Roles},
    Spaces m ρ tr kpt U 0 pages → pages.Nodup → (∀ s ∈ strs, s.length < 4096) →
    wp (fetchArgs p uargv n j pages strs) E (fun res m' => (∃ ρ', Spaces m' ρ' tr kpt U 0 res.1) ∧ res.1.Nodup ∧
      ∀ argv, res.2 = some argv → ∀ s ∈ argv, s.length < 4096) m := by
  intro n
  induction n with
  | zero =>
    intro j pages strs m ρ h hnd _
    rw [fetchArgs, wp_pure]
    refine ⟨⟨ρ, h⟩, hnd, ?_⟩
    rintro argv ⟨⟩
  | succ n ih =>
    intro j pages strs m ρ h hnd hLen
    simp only [fetchArgs, wp_bind]
    refine wp_post (fetchaddr_spec hp hi _ h) ?_
    rintro (_ | uarg) m1 ⟨ρ1, h1⟩
    · simp only [wp_pure]
      refine ⟨⟨ρ1, h1⟩, hnd, ?_⟩
      rintro argv ⟨⟩
    dsimp only
    split
    · rw [wp_pure]
      refine ⟨⟨ρ1, h1⟩, hnd, ?_⟩
      rintro argv ⟨⟩
      exact hLen
    rw [wp_bind]
    refine kalloc_spec h1.typed (c := .arg) trivial ?_ ?_
    · intro _
      rw [if_pos rfl, wp_pure]
      refine ⟨⟨ρ1, h1⟩, hnd, ?_⟩
      rintro argv ⟨⟩
    · intro pg m2 hpos hFree hTook ht2
      have h2 := h1.new_arg hFree hTook ht2
      have hNew : pg ∉ pages := by
        intro hMem
        rw [(h1.args pg).mpr hMem] at hFree
        cases hFree
      have hnd2 : (pages ++ [pg]).Nodup := by
        grind
      rw [if_neg hpos]
      simp only [wp_bind, fetchstr, copyinstr]
      refine copyinstrLoop_spec 4096 ?_ ?_ _ _ _ _ (by simp [pgsize])
      · intro dst
        simp only [Bool.false_eq_true, if_false, wp_pure]
        refine ⟨⟨_, h2⟩, hnd2, ?_⟩
        rintro argv ⟨⟩
      · intro str hStr
        obtain ⟨s, hs⟩ : ∃ s, s = (str ++ [0]).takeWhile (· ≠ 0) := ⟨_, rfl⟩
        have hLess : s.length < 4096 := by
          grind [List.takeWhile_sublist, List.takeWhile_append, List.takeWhile_cons_of_neg]
        simp only [if_true, ← hs, wp_pure, wp_bind, storeBytes, wp_update]
        have hArg : Function.update ρ1 pg .arg pg = .arg := Function.update_self ..
        refine ih _ _ _ (h2.store_plain (by rw [hArg]; trivial) _) hnd2 ?_
        intro t ht
        rw [List.mem_append, List.mem_singleton] at ht
        obtain ht | rfl := ht
        · exact hLen t ht
        · exact hLess

lemma freeArgs_spec : ∀ {pages : List Nat} {m : Mem} {ρ : Roles}, Spaces m ρ tr kpt U 0 pages → pages.Nodup →
    wp (Prog.eachM kfree pages) E (fun _ m' => ∃ ρ', Spaces m' ρ' tr kpt U 0 []) m := by
  intro pages m ρ h hnd
  refine wp_post (wp_eachM (I := fun l m' => (∃ ρ', Spaces m' ρ' tr kpt U 0 l) ∧ l.Nodup) ?_ _ _ ⟨⟨ρ, h⟩, hnd⟩) ?_
  · rintro p l m1 ⟨⟨ρ1, h1⟩, hnd1⟩
    have hp : ρ1 p = .arg := (h1.args p).mpr List.mem_cons_self
    obtain ⟨hNew, hnd2⟩ := List.nodup_cons.mp hnd1
    refine kfree_spec h1.typed (by rw [hp]; trivial) ?_
    intro m2 hTook ht2
    exact ⟨⟨_, h1.free_arg hNew hTook ht2⟩, hnd2⟩
  · rintro - m' ⟨hm', -⟩
    exact hm'

lemma execStrings_owned {k : Kernel} (hE : ∀ e : Stop, ¬ e.OfVm → E e) (me : Pid) (path : Text)
    {strs : Option (List Text)} (hStrs : ∀ argv, strs = some argv → ∀ s ∈ argv, s.length < 4096)
    (hk : Owned k A) (hMe : (k.proc me).state ≠ .unused) :
    wp (execStrings me path strs) E (fun _ k' => Owned k' A ∧ ∀ j, (k'.proc j).state = (k.proc j).state) k := by
  cases strs with
  | none =>
    rw [execStrings, wp_pure]
    exact ⟨hk, fun _ => rfl⟩
  | some argv => exact kexec_owned hE me path (hStrs argv rfl) hk hMe

lemma sysExec_owned {k : Kernel} (hE : ∀ e : Stop, ¬ e.OfVm → E e) (me : Pid) (path : Option Text)
    (uargv : Nat) (hk : Owned k []) (hMe : (k.proc me).state ≠ .unused) :
    wp (sysExec me path uargv) E (fun _ k' => Owned k' [] ∧ ∀ j, (k'.proc j).state = (k.proc j).state) k := by
  cases path with
  | none =>
    rw [sysExec, wp_pure]
    exact ⟨hk, fun _ => rfl⟩
  | some path =>
    simp only [sysExec, wp_bind, wp_getProc, wp_onMem]
    obtain ⟨ρ, hρ⟩ := hk.spaces
    refine wp_post (fetchArgs_spec (p := k.proc me) rfl (hk.live me hMe).1 uargv _ _ _ _ hρ List.nodup_nil
      (fun s hs => absurd hs List.not_mem_nil)) ?_
    rintro ⟨pages, strs⟩ m1 ⟨⟨ρ1, h1⟩, hnd, hStrs⟩
    have hk1 : Owned (k.setMem m1) pages := hk.of_spaces h1
    simp only [wp_pure]
    refine wp_post (execStrings_owned hE me path hStrs hk1 hMe) ?_
    rintro ret k2 ⟨hk2, hState⟩
    obtain ⟨ρ2, h2⟩ := hk2.spaces
    refine wp_post (freeArgs_spec h2 hnd) ?_
    rintro - m3 ⟨ρ3, h3⟩
    exact ⟨hk2.of_spaces h3, hState⟩

end

end Xv6K230
