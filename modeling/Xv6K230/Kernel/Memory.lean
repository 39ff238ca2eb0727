import Xv6K230.Kernel.Invariant
import Xv6K230.Lib.Laws
import Xv6K230.Vm.Copies

/-! # Memory under the process calls

`growproc`, `kfork`, `kwait` and the fault handler on a kernel whose memory agrees with
its process table.
-/

namespace Xv6K230

open Vm Fs Riscv Prog

section

variable {E : Stop → Prop} {k : Kernel} {A : List Nat}

lemma Owned.resize (hk : Owned k A) {ρ : Roles} (hρ : k.Spaced ρ 0 A) {i : Pid}
    (hi : (k.proc i).state ≠ .unused) {m' : Mem} {ρ' : Roles} {sz' : Nat}
    (hTouch : Touches (k.proc i).pagetable k.mem ρ m' ρ') (ht' : Typed m' ρ') (hsz : sz' ≤ trapframeVa)
    (hTable : UserTable m' ρ' (k.proc i).pagetable (k.proc i).trapframe k.trampoline (npages sz')) :
    Owned ((k.setMem m').setProc i { k.proc i with sz := sz' }) A := by
  have hSpaces := hρ.touch_proc (i := i) (hk.live i hi).1 hTouch ht' hsz hTable
  refine ⟨⟨ρ', ?_⟩, ?_, ?_⟩
  · rw [Kernel.Spaced, space_setProc]
    exact hSpaces
  · intro j hj
    by_cases hji : j = i
    · subst hji
      rw [setProc_proc_same]
      exact hk.live j hi
    · rw [setProc_proc_of_ne _ hji] at hj ⊢
      exact hk.live j hj
  · intro j hj
    by_cases hji : j = i
    · subst hji
      rw [setProc_proc_same] at hj
      exact absurd hj hi
    · rw [setProc_proc_of_ne _ hji] at hj ⊢
      exact hk.idle j hj

lemma Owned.touch (hk : Owned k A) {ρ : Roles} (hρ : k.Spaced ρ 0 A) {i : Pid}
    (hi : (k.proc i).state ≠ .unused) {m' : Mem} {ρ' : Roles}
    (hTouch : Touches (k.proc i).pagetable k.mem ρ m' ρ') (ht' : Typed m' ρ')
    (hTable : UserTable m' ρ' (k.proc i).pagetable (k.proc i).trapframe k.trampoline (npages (k.proc i).sz)) :
    Owned (k.setMem m') A := by
  have hOwned := hk.resize hρ hi hTouch ht' (hρ.size i) hTable
  have hSame : Unmoved ((k.setMem m').setProc i (k.proc i)) (k.setMem m') := by
    refine ⟨rfl, rfl, rfl, ?_, ?_⟩
    · rw [space_setProc]
      exact (Function.update_eq_self i k.space).symm
    · intro j
      by_cases hj : j = i
      · rw [hj, setProc_proc_same]
        exact Iff.rfl
      · rw [setProc_proc_of_ne _ hj]
  exact hSame.owned hOwned

lemma Owned.table (hk : Owned k A) {ρ : Roles} (hρ : k.Spaced ρ 0 A) {i : Pid}
    (hi : (k.proc i).state ≠ .unused) :
    UserTable k.mem ρ (k.proc i).pagetable (k.proc i).trapframe k.trampoline (npages (k.proc i).sz) :=
  hρ.table i (hk.live i hi).1

lemma userPerm_mask : userPerm pteW &&& ppnMask = 0#64 := by decide

lemma growproc_owned (me : Pid) (n : Int32) (hk : Owned k A) (hMe : (k.proc me).state ≠ .unused) :
    wp (growproc me n) E (fun _ k' => Owned k' A ∧ ∀ j, (k'.proc j).state = (k.proc j).state) k := by
  obtain ⟨ρ, hρ⟩ := hk.spaces
  have hTable := hk.table hρ hMe
  have hState : ∀ (m' : Mem) (sz' : Nat) j,
      (((k.setMem m').setProc me { k.proc me with sz := sz' }).proc j).state = (k.proc j).state := by
    intro m' sz' j
    by_cases hj : j = me
    · rw [hj, setProc_proc_same]
    · rw [setProc_proc_of_ne _ hj]
      rfl
  simp only [growproc, wp_bind, wp_getProc]
  split
  · split
    · rw [wp_pure]
      exact ⟨hk, fun _ => rfl⟩
    · rename_i hFit
      simp only [wp_bind, wp_onMem]
      refine wp_post (uvmalloc_spec userPerm_mask hρ.typed hTable (hρ.size me) (.inl (by omega))) ?_
      rintro sz m' (⟨rfl, ρ', hGrown⟩ | ⟨hsz, ρ', hGrown, -⟩)
      · rw [if_pos rfl, wp_pure]
        exact ⟨hk.touch hρ hMe hGrown.touches hGrown.typed hGrown.table, fun _ => rfl⟩
      · split
        · rename_i hZero
          subst hZero
          have hOld : (k.proc me).sz = 0 := by omega
          rw [wp_pure]
          refine ⟨hk.touch hρ hMe hGrown.touches hGrown.typed ?_, fun _ => rfl⟩
          rw [hOld]
          exact hGrown.table
        · simp only [wp_bind, wp_modProc, wp_pure]
          refine ⟨hk.resize hρ hMe hGrown.touches hGrown.typed ?_ hGrown.table, hState m' sz⟩
          have hOld := hρ.size me
          have hOld' : (k.proc me).sz ≤ trapframeVa := hOld
          omega
  · split
    · simp only [wp_bind, wp_onMem, wp_modProc, wp_pure]
      refine wp_post (uvmdealloc_spec hρ.typed hTable (hρ.size me)) ?_
      rintro sz m' ⟨hsz, ρ', ht', hTable', hShr⟩
      refine ⟨hk.resize hρ hMe hShr.touches ht' ?_ hTable', hState m' sz⟩
      have hOld : (k.proc me).sz ≤ trapframeVa := hρ.size me
      omega
    · rw [wp_pure]
      exact ⟨hk, fun _ => rfl⟩

lemma sysSbrk_owned (me : Pid) (n t : Int32) (hk : Owned k A) (hMe : (k.proc me).state ≠ .unused) :
    wp (sysSbrk me n t) E (fun _ k' => Owned k' A ∧ ∀ j, (k'.proc j).state = (k.proc j).state) k := by
  obtain ⟨ρ, hρ⟩ := hk.spaces
  simp only [sysSbrk, wp_bind, wp_getProc]
  split
  · simp only [wp_bind]
    refine wp_post (growproc_owned me n hk hMe) ?_
    rintro ok k' hk'
    split <;> rw [wp_pure] <;> exact hk'
  · split
    · rw [wp_pure]
      exact ⟨hk, fun _ => rfl⟩
    · rename_i hWrap
      split
      · rw [wp_pure]
        exact ⟨hk, fun _ => rfl⟩
      · rename_i hFit
        simp only [wp_bind, wp_modProc, wp_pure]
        have hPages : npages (k.proc me).sz ≤ npages (uint64 ((k.proc me).sz + n.toInt.toNat)) := by
          simp only [npages]
          omega
        refine ⟨hk.resize hρ hMe (Touches.refl _ _ _) hρ.typed (by omega)
          ((hk.table hρ hMe).mono hPages (npages_le (by omega))), ?_⟩
        intro j
        by_cases hj : j = me
        · rw [hj, setProc_proc_same]
        · rw [setProc_proc_of_ne _ hj]

lemma Owned.storeFrame (hk : Owned k A) {i : Pid} (hi : (k.proc i).state ≠ .unused) (pg : Page) :
    Owned (k.setMem (k.mem.setPage (k.proc i).trapframe pg)) A := by
  obtain ⟨ρ, hρ⟩ := hk.spaces
  have hFrame : ρ (k.proc i).trapframe = .frame i := hρ.frame i (hk.live i hi).2
  exact ⟨⟨ρ, hρ.store_plain (by rw [hFrame]; trivial) pg⟩, hk.live, hk.idle⟩

lemma setResult_owned (me : Pid) (r : Int) (hk : Owned k A) (hMe : (k.proc me).state ≠ .unused) :
    wp (setResult me r) E (fun _ k' => Owned k' A ∧ k'.proc = k.proc) k := by
  simp only [setResult, wp_bind, wp_getProc, wp_onMem, wp_update]
  exact ⟨hk.storeFrame hMe _, rfl⟩

lemma trapReturn_owned (me : Pid) (timer : Bool) (hE : E .initExiting) (hk : Owned k A)
    (hMe : (k.proc me).state ≠ .unused) : wp (trapReturn me timer) E (fun _ k' => Owned k' A) k := by
  simp only [trapReturn, wp_bind, wp_getProc]
  split
  · exact wp_post (kexit_unmoved me _ hE hMe) (fun _ k' hk' => hk'.owned hk)
  · split
    · simp only [wp_modProc]
      refine Unmoved.owned (k := k) (Unmoved.setProc (by rfl) (by rfl) (by rfl) ?_) hk
      simp [hMe]
    · rw [wp_pure]
      exact hk

lemma vmfault_owned (me : Pid) (va : Nat) (hk : Owned k A) (hMe : (k.proc me).state ≠ .unused) :
    wp (onMem (vmfault (k.proc me).pagetable (k.proc me).sz (k.proc me).pagetable va)) E
      (fun _ k' => Owned k' A ∧ k'.proc = k.proc) k := by
  obtain ⟨ρ, hρ⟩ := hk.spaces
  have hTable := hk.table hρ hMe
  simp only [wp_onMem]
  refine wp_post (vmfault_spec hρ.typed hTable (hρ.size me)) ?_
  rintro res m' (⟨-, -, ρ', hUn⟩ | ⟨-, ⟨hlt, hInvalid, -⟩, ρ', hAdd⟩)
  · exact ⟨hk.touch hρ hMe hUn.ext.touches hUn.typed (hTable.unmapped hUn), rfl⟩
  · have hServed := Served.of_added hTable hAdd (by rw [npages]; omega) hInvalid
    exact ⟨hk.touch hρ hMe hServed.touches hServed.typed hServed.table, rfl⟩

lemma copyout_owned (me : Pid) (va : Nat) (src : Text) (hk : Owned k A)
    (hMe : (k.proc me).state ≠ .unused) :
    wp (onMem (copyout (k.proc me).pagetable (k.proc me).sz (k.proc me).pagetable va src)) E
      (fun _ k' => Owned k' A ∧ k'.proc = k.proc) k := by
  obtain ⟨ρ, hρ⟩ := hk.spaces
  simp only [wp_onMem, copyout]
  refine wp_post (copyoutLoop_spec (hρ.size me) _ _ _ hρ.typed (hk.table hρ hMe)) ?_
  rintro - m' ⟨ρ', hServed⟩
  exact ⟨hk.touch hρ hMe hServed.touches hServed.typed hServed.table, rfl⟩

lemma freeproc_owned (i : Pid) (hk : Owned k A) :
    wp (freeproc i) E (fun _ k' => Owned k' A ∧ (∀ j, j ≠ i → k'.proc j = k.proc j) ∧
      k'.proc i = (k.proc i).clear) k := by
  obtain ⟨ρ, hρ⟩ := hk.spaces
  refine wp_post (freeproc_spec hρ i) ?_
  rintro - k' ⟨m', ρ', rfl, hSpaced⟩
  refine ⟨⟨⟨ρ', hSpaced⟩, ?_, ?_⟩, ?_, setProc_proc_same ..⟩
  · intro j hj
    by_cases hji : j = i
    · subst hji
      rw [setProc_proc_same] at hj
      exact absurd rfl hj
    · rw [setProc_proc_of_ne _ hji] at hj ⊢
      exact hk.live j hj
  · intro j hj
    by_cases hji : j = i
    · subst hji
      rw [setProc_proc_same]
      exact ⟨rfl, rfl, rfl⟩
    · rw [setProc_proc_of_ne _ hji] at hj ⊢
      exact hk.idle j hj
  · intro j hj
    rw [setProc_proc_of_ne _ hj]
    rfl

lemma waitOn_owned (me : Pid) (addr : Nat) (pp : Pid) (hk : Owned k A) (hMe : (k.proc me).state = .running) :
    wp (waitOn me addr pp) E (fun res k' => Owned k' A ∧ (k'.proc me).state = .running ∧
      (res = none → k' = k)) k := by
  have hUsed : (k.proc me).state ≠ .unused := by
    rw [hMe]
    decide
  simp only [waitOn, wp_bind, wp_getProc]
  split
  · rename_i hChild
    have hne : me ≠ pp := by
      rintro rfl
      rw [hMe] at hChild
      cases hChild.2
    have hReap : ∀ k1, Owned k1 A → k1.proc = k.proc →
        wp (freeproc pp >>= fun _ => pure (some (k.proc pp).pid)) E (fun res k' => Owned k' A ∧
          (k'.proc me).state = .running ∧ (res = none → k' = k)) k1 := by
      intro k1 hk1 hProc
      rw [wp_bind]
      refine wp_post (freeproc_owned pp hk1) ?_
      rintro - k2 ⟨hk2, hOther, -⟩
      rw [wp_pure]
      refine ⟨hk2, ?_, fun hNone => by cases hNone⟩
      rw [hOther me hne, hProc]
      exact hMe
    simp only [wp_bind, wp_getProc]
    split
    · rw [wp_bind, wp_pure, if_pos rfl]
      exact hReap k hk rfl
    · simp only [wp_bind]
      refine wp_post (copyout_owned me _ _ hk hUsed) ?_
      rintro ok k1 ⟨hk1, hProc⟩
      split
      · exact hReap k1 hk1 hProc
      · rw [wp_pure]
        refine ⟨hk1, ?_, fun hNone => by cases hNone⟩
        rw [hProc]
        exact hMe
  · rw [wp_pure]
    exact ⟨hk, hMe, fun _ => rfl⟩

lemma kwait_owned (me : Pid) (addr : Nat) (hk : Owned k A) (hMe : (k.proc me).state = .running) :
    wp (kwait me addr) E (fun res k' => Owned k' A ∧ (res ≠ none → (k'.proc me).state = .running)) k := by
  simp only [kwait, wp_bind]
  refine wp_post (wp_firstM (I := fun _ k1 => Owned k1 A ∧ (k1.proc me).state = .running)
    (R := fun _ k1 => Owned k1 A ∧ (k1.proc me).state = .running) (fun _ h => h) ?_ _ k ⟨hk, hMe⟩) ?_
  · rintro pp rest k1 ⟨hk1, hMe1⟩
    refine wp_post (waitOn_owned me addr pp hk1 hMe1) ?_
    rintro res k2 ⟨hk2, hMe2, -⟩
    cases res with
    | none => exact ⟨hk2, hMe2⟩
    | some a => exact ⟨hk2, hMe2⟩
  · rintro res k1 ⟨hk1, hMe1⟩
    cases res with
    | some r =>
      simp only [wp_pure]
      exact ⟨hk1, fun _ => hMe1⟩
    | none =>
      simp only [wp_bind, wp_read]
      split
      · rw [wp_pure]
        exact ⟨hk1, fun _ => hMe1⟩
      · simp only [wp_bind, wp_modProc, wp_pure]
        refine ⟨Unmoved.owned (k := k1) (Unmoved.setProc (by rfl) (by rfl) (by rfl) ?_) hk1,
          fun hNone => absurd rfl hNone⟩
        simp [hMe1]

/-! ## Fork -/

lemma Unmoved.setFs (s : FsState) : Unmoved k (k.setFs s) := ⟨rfl, rfl, rfl, rfl, fun _ => Iff.rfl⟩

lemma dupOfile_unmoved (me np : Pid) (fd : Fd) (hE : ∀ f, (k.proc me).ofile fd = some f → E .filedup) :
    wp (dupOfile me np fd) E (fun _ k' => Unmoved k k') k := by
  simp only [dupOfile, wp_bind, wp_getProc]
  cases hf : (k.proc me).ofile fd with
  | none =>
    simp only [wp_pure]
    exact Unmoved.refl k
  | some f =>
    simp only [filedup, setOfile, wp_bind, wp_getFile]
    split
    · simp only [wp_stop]
      exact hE f hf
    · simp only [wp_modFile, wp_modProc]
      have hFile : Unmoved k (k.setFile f { k.ftable f with ref := (k.ftable f).ref + 1 }) :=
        ⟨rfl, rfl, rfl, rfl, fun _ => Iff.rfl⟩
      exact hFile.trans (Unmoved.setProc (by rfl) (by rfl) (by rfl) Iff.rfl)

lemma dupOfile_ofile (me np : Pid) (fd : Fd) (hne : me ≠ np) (hE : ∀ f, (k.proc me).ofile fd = some f → E .filedup) :
    wp (dupOfile me np fd) E (fun _ k' => k'.proc me = k.proc me) k := by
  simp only [dupOfile, wp_bind, wp_getProc]
  cases hf : (k.proc me).ofile fd with
  | none => simp only [wp_pure]
  | some f =>
    simp only [filedup, setOfile, wp_bind, wp_getFile]
    split
    · simp only [wp_stop]
      exact hE f hf
    · simp only [wp_modFile, wp_modProc]
      exact setProc_proc_of_ne _ hne

lemma dupLoop_unmoved (me np : Pid) (hne : me ≠ np) (hE : ∀ fd f, (k.proc me).ofile fd = some f → E .filedup) :
    wp (eachM (dupOfile me np) (List.finRange nofile)) E (fun _ k' => Unmoved k k' ∧ k'.proc me = k.proc me) k := by
  refine wp_eachM_inv (I := fun k' => Unmoved k k' ∧ k'.proc me = k.proc me) ?_ ⟨Unmoved.refl k, rfl⟩
  rintro fd - k1 ⟨hk1, hMe1⟩
  have hE1 : ∀ f, (k1.proc me).ofile fd = some f → E .filedup := by
    rw [hMe1]
    exact hE fd
  refine wp_post (wp_and (dupOfile_unmoved me np fd hE1) (dupOfile_ofile me np fd hne hE1)) ?_
  rintro - k2 ⟨hk2, hMe2⟩
  exact ⟨hk1.trans hk2, hMe2.trans hMe1⟩

lemma Allocated.owned_none {k' : Kernel} (hk : Owned k A) (h : Allocated k none k') {ρ : Roles}
    (hρ : k'.Spaced ρ 0 A) : Owned k' A := by
  refine ⟨⟨ρ, hρ⟩, ?_, ?_⟩
  · intro j hj
    obtain hSame | ⟨-, hClear⟩ := h j
    · rw [hSame] at hj ⊢
      exact hk.live j hj
    · rw [hClear] at hj
      exact absurd rfl hj
  · intro j hj
    obtain hSame | ⟨-, hClear⟩ := h j
    · rw [hSame] at hj ⊢
      exact hk.idle j hj
    · rw [hClear]
      exact ⟨rfl, rfl, rfl⟩

lemma Allocated.owned_some {k' : Kernel} {i : Pid} (hk : Owned k A) (h : Allocated k (some i) k') {ρ : Roles}
    (hρ : k'.Spaced ρ 0 A) : Owned k' A := by
  obtain ⟨hFind, hOther, tf, pt, htf, hpt, hi⟩ := h
  refine ⟨⟨ρ, hρ⟩, ?_, ?_⟩
  · grind [hk.live]
  · grind [hk.idle]

structure ForkSpaces (k : Kernel) (me np : Pid) (k1 : Kernel) (ρ1 : Roles) : Prop where
  ne : me ≠ np
  caller : k1.proc me = k.proc me
  parent : UserTable k1.mem ρ1 (k1.proc me).pagetable (k1.proc me).trapframe k1.trampoline (npages (k1.proc me).sz)
  child : UserTable k1.mem ρ1 (k1.proc np).pagetable (k1.proc np).trapframe k1.trampoline 0
  size : (k1.proc np).sz = 0
  used : (k1.proc np).state ≠ .unused
  roots : (k1.proc me).pagetable ≠ (k1.proc np).pagetable
  view : ∀ v, k1.mem.view (k1.proc me).pagetable v = k.mem.view (k.proc me).pagetable v

lemma Allocated.forkSpaces {me np : Pid} {k1 : Kernel} {ρ ρ1 : Roles} (hAlloc : Allocated k (some np) k1)
    (hk : Owned k A) (hρ : k.Spaced ρ 0 A) (hρ1 : k1.Spaced ρ1 0 A) (hKept : Kept k.mem ρ k1.mem ρ1)
    (hMe : (k.proc me).state ≠ .unused) : ForkSpaces k me np k1 ρ1 := by
  have hk1 := hAlloc.owned_some hk hρ1
  obtain ⟨hFind, hOther, tf, pt, htf, hpt, hNp⟩ := hAlloc
  have hne : me ≠ np := by
    rintro rfl
    exact hMe (findUnused_state hFind)
  have hProc : k1.proc me = k.proc me := hOther me hne
  have hMe1 : (k1.proc me).state ≠ .unused := by rw [hProc]; exact hMe
  have hNp1 : (k1.proc np).state ≠ .unused := by rw [hNp]; exact ProcState.noConfusion
  have hsz : (k1.proc np).sz = 0 := by
    rw [hNp]
    exact (hk.idle np (findUnused_state hFind)).2.2
  have hChild := hk1.table hρ1 hNp1
  rw [hsz] at hChild
  refine ⟨hne, hProc, hk1.table hρ1 hMe1, hChild, hsz, hNp1, ?_, ?_⟩
  · exact fun hEq => hne (hρ1.inj me np (hk1.live me hMe1).1 hEq)
  · intro v
    rw [hProc]
    exact hKept.view hρ.typed (hk.table hρ hMe).root v

/-- `kfork` keeps memory in order, and stops only if it comes to a page of the parent that is missing, a
file count is broken or there is no current directory. -/
lemma kfork_owned (me : Pid) (hk : Owned k A) (hMe : (k.proc me).state ≠ .unused)
    (hCopy : ∀ np k1, allocproc k = .ok (some np, k1) → ∀ v < npages (k.proc me).sz,
      (k.mem.view (k.proc me).pagetable v).has pteV = false → ¬ k1.mem.ShortOf (k1.proc np).pagetable (k.proc me).sz 0 v →
      E .uvmcopyPte ∧ E .uvmcopyPresent)
    (hDup : ∀ fd f, (k.proc me).ofile fd = some f → E .filedup)
    (hCwd : (k.proc me).cwd = none → E .nullPointer) :
    wp (kfork me) E (fun _ k' => Owned k' A ∧ (k'.proc me).state = (k.proc me).state) k := by
  obtain ⟨ρ, hρ⟩ := hk.spaces
  simp only [kfork, wp_bind]
  apply wp_mono (wp_both (allocproc_spec (E := fun _ => False) hρ hk.idle) (wp_self _ k)) (fun _ he => he.1.elim)
  rintro res k1 ⟨⟨hAlloc, ρ1, hρ1, hTramp, hKept⟩, hr⟩
  cases res with
  | none =>
    simp only [wp_pure]
    refine ⟨hAlloc.owned_none hk hρ1, ?_⟩
    obtain hSame | ⟨hUnused, -⟩ := hAlloc me
    · rw [hSame]
    · exact absurd hUnused hMe
  | some np =>
    have hk1 := hAlloc.owned_some hk hρ1
    obtain ⟨hne, hProc, hParent, hChild, hsz, hNp1, hRoots, hView⟩ :=
      hAlloc.forkSpaces hk hρ hρ1 (hKept (by simp)) hMe
    simp only [wp_bind, wp_getProc, wp_onMem]
    apply wp_mono (uvmcopy_spec hρ1.typed hParent hRoots hChild)
    · rintro e ⟨he, v, hv, hHole, hEnough⟩
      rw [hProc] at hv hEnough
      obtain ⟨hPte, hPresent⟩ := hCopy np k1 hr v hv (hView v ▸ hHole) hEnough
      rcases he with rfl | rfl
      · exact hPte
      · exact hPresent
    · rintro ok m2 ⟨-, -, hCopied⟩
      cases ok with
      | false =>
        obtain ⟨ρ2, hGrown⟩ := hCopied
        simp only [Bool.not_false, if_true, wp_bind, wp_pure]
        have hk2 : Owned (k1.setMem m2) A :=
          hk1.touch hρ1 hNp1 hGrown.touches hGrown.typed (by rw [hsz]; exact hGrown.table)
        refine wp_post (freeproc_owned np hk2) ?_
        rintro - k3 ⟨hk3, hOther3, -⟩
        refine ⟨hk3, ?_⟩
        rw [hOther3 me hne]
        exact congrArg Proc.state hProc
      | true =>
        obtain ⟨ρ2, hCopied⟩ := hCopied
        simp only [Bool.not_true, Bool.false_eq_true, if_false, wp_bind, wp_modProc, wp_onMem, copyTrapframe,
          wp_update]
        have hk2 := hk1.resize hρ1 hNp1 hCopied.grown.touches hCopied.grown.typed (hρ1.size me) hCopied.grown.table
        have hk3 := hk2.storeFrame (i := np) (by rw [setProc_proc_same]; exact hNp1)
          (((m2.page (k1.proc np).trapframe).write 0 ((m2.page (k1.proc me).trapframe).read 0 288)).putLE 112 8 0)
        simp only [setProc_proc_same, setMem_setProc, setMem_setMem, Kernel.setProc_mem, Kernel.setMem_mem] at hk3 ⊢
        refine wp_post (dupLoop_unmoved me np hne ?_) ?_
        · grind [setProc_proc_of_ne, Kernel.setMem_proc]
        · rintro - k4 ⟨hMoved, hMe4⟩
          have hk4 := hMoved.owned hk3
          rw [setProc_proc_of_ne _ hne, Kernel.setMem_proc, hProc] at hMe4
          have hNp4 : (k4.proc np).state ≠ .unused := by
            rw [Ne, hMoved.unused, setProc_proc_same]
            exact hNp1
          cases hc : (k1.proc me).cwd with
          | none =>
            simp only [wp_stop]
            exact hCwd (by rw [← hProc]; exact hc)
          | some cwd =>
            simp only [idup, modInode, wp_bind, wp_onFs, wp_update, wp_pure, wp_modProc, setProc_setProc,
              setProc_proc_same]
            refine ⟨Unmoved.owned ((Unmoved.setFs _).trans (Unmoved.setProc (by rfl) (by rfl) (by rfl) ?_)) hk4, ?_⟩
            · simp [hNp4]
            · rw [setProc_proc_of_ne _ hne, Kernel.setFs_proc, hMe4]

end

end Xv6K230
