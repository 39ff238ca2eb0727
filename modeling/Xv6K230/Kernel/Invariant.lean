import Xv6K230.Kernel.Spaces
import Xv6K230.Kernel.Trap

/-! # The memory invariant of the kernel

Every call keeps the correspondence between the process table and the roles of the pages, on each of its exits.
-/

namespace Xv6K230

open Vm Fs Riscv Prog
open Function (update_eq_self update_idem update_of_ne update_self)

def Kernel.space (k : Kernel) (i : Pid) : Space :=
  ⟨(k.proc i).pagetable, (k.proc i).sz, (k.proc i).trapframe⟩

abbrev Kernel.Spaced (k : Kernel) (ρ : Roles) (x : Nat) (A : List Nat) : Prop :=
  Spaces k.mem ρ k.trampoline k.kpgtbl k.space x A

structure Owned (k : Kernel) (A : List Nat) : Prop where
  spaces : ∃ ρ, k.Spaced ρ 0 A
  live : ∀ i, (k.proc i).state ≠ .unused → (k.proc i).pagetable ≠ 0 ∧ (k.proc i).trapframe ≠ 0
  idle : ∀ i, (k.proc i).state = .unused →
    (k.proc i).pagetable = 0 ∧ (k.proc i).trapframe = 0 ∧ (k.proc i).sz = 0

lemma space_setProc (k : Kernel) (i : Pid) (p : Proc) :
    (k.setProc i p).space = Function.update k.space i ⟨p.pagetable, p.sz, p.trapframe⟩ := by
  funext j
  by_cases hj : j = i
  · subst hj
    rw [update_self, Kernel.space, setProc_proc_same]
  · rw [update_of_ne hj, Kernel.space, setProc_proc_of_ne p hj]
    rfl

/-! ## Process slots -/

section

variable {E : Stop → Prop} {k : Kernel} {ρ : Roles} {A : List Nat}

lemma freeproc_spec (h : k.Spaced ρ 0 A) (i : Pid) :
    wp (freeproc i) E (fun _ k' => ∃ m' ρ', k' = (k.setMem m').setProc i (k.proc i).clear ∧
      k'.Spaced ρ' 0 A) k := by
  have hSwap := h.swap i (Nat.zero_le trapframeVa) (fun h0 => absurd rfl h0)
  -- the table, once it is nobody's
  have hTable : ∀ {m1 : Mem} {ρ1 : Roles}, (k.space i).root ≠ 0 →
      UserTable m1 ρ1 (k.space i).root (k.space i).tf k.trampoline (npages (k.space i).sz) →
      Spaces m1 ρ1 k.trampoline k.kpgtbl (Function.update k.space i ⟨0, 0, 0⟩) (k.space i).root A →
      wp (procFreepagetable (k.space i).root (k.space i).sz) E (fun _ m' => ∃ ρ',
        Spaces m' ρ' k.trampoline k.kpgtbl (Function.update k.space i ⟨0, 0, 0⟩) 0 A) m1 := by
    intro m1 ρ1 hne hUser hSpaces
    refine wp_post (procFreepagetable_spec hSpaces.typed hUser (h.size i)) ?_
    rintro - m2 ⟨ρ2, ht2, hTouch, hVacant⟩
    exact ⟨ρ2, hSpaces.drop_extra hne hTouch ht2 hVacant⟩
  have hPages : wp (freePages (k.proc i)) E (fun _ m' => ∃ ρ',
      Spaces m' ρ' k.trampoline k.kpgtbl (Function.update k.space i ⟨0, 0, 0⟩) 0 A) k.mem := by
    have hRest : ∀ {m1 : Mem} {ρ1 : Roles},
        Spaces m1 ρ1 k.trampoline k.kpgtbl (Function.update k.space i ⟨0, 0, 0⟩) (k.space i).root A →
        ((k.space i).root ≠ 0 →
          UserTable m1 ρ1 (k.space i).root (k.space i).tf k.trampoline (npages (k.space i).sz)) →
        wp (if (k.proc i).pagetable ≠ 0 then procFreepagetable (k.proc i).pagetable (k.proc i).sz else pure ()) E
          (fun _ m' => ∃ ρ', Spaces m' ρ' k.trampoline k.kpgtbl (Function.update k.space i ⟨0, 0, 0⟩) 0 A) m1 := by
      intro m1 ρ1 hSpaces hUser
      by_cases hne : (k.proc i).pagetable = 0
      · rw [if_neg (not_not_intro hne), wp_pure]
        rw [show (k.space i).root = 0 from hne] at hSpaces
        exact ⟨ρ1, hSpaces⟩
      · rw [if_pos hne]
        exact hTable hne (hUser hne) hSpaces
    unfold freePages
    by_cases htf : (k.proc i).trapframe = 0
    · rw [if_neg (not_not_intro htf)]
      rw [show (k.space i).tf = 0 from htf] at hSwap
      exact hRest hSwap (h.table i)
    · rw [if_pos htf, wp_bind]
      have hFrame : ρ (k.space i).tf = .frame i := h.frame i htf
      refine kfree_spec h.typed (p := (k.space i).tf) (by rw [hFrame]; trivial) ?_
      intro m1 hTook ht1
      have hFree := fun {n : Mem} => hSwap.free_frame (i := i) (n := n)
      simp only [update_self, update_idem] at hFree
      refine hRest (hFree trivial htf hTook ht1) ?_
      intro hne
      exact (h.table i hne).plain h.typed (by rw [hFrame]; trivial) (by trivial)
        (fun q hq => (hTook.page q hq).symm)
  simp only [freeproc, wp_bind, wp_getProc, wp_onMem, wp_modProc]
  refine wp_post hPages ?_
  rintro - m' ⟨ρ', hSpaces⟩
  refine ⟨m', ρ', rfl, ?_⟩
  rw [Kernel.Spaced, space_setProc]
  exact hSpaces

def Kept (m : Mem) (ρ : Roles) (m' : Mem) (ρ' : Roles) : Prop :=
  ∀ p, ρ p ≠ .free → ρ' p = ρ p ∧ m'.page p = m.page p

lemma Kept.view {m m1 : Mem} {ρ ρ1 : Roles} {r : Nat} (h : Kept m ρ m1 ρ1) (ht : Typed m ρ)
    (hr : ρ r = .table r 2 0) (v : Nat) : m1.view r v = m.view r v := by
  refine ht.toTrees.view_congr hr (fun q l a hq => (h q ?_).2) v
  rw [hq]
  exact Role.noConfusion

lemma findUnused_state {t : Pid → Proc} {i : Pid} (h : findUnused t = some i) : (t i).state = .unused := by
  have hSome := List.find?_some h
  simpa using hSome

def Allocated (k : Kernel) (res : Option Pid) (k' : Kernel) : Prop :=
  match res with
  | none => ∀ j, k'.proc j = k.proc j ∨ (k.proc j).state = .unused ∧ k'.proc j = (k.proc j).clear
  | some i => findUnused k.proc = some i ∧ (∀ j, j ≠ i → k'.proc j = k.proc j) ∧
      ∃ tf pt, tf ≠ 0 ∧ pt ≠ 0 ∧ k'.proc i =
        { k.proc i with pid := k.nextpid, state := .used, trapframe := tf, pagetable := pt, susp := none }

lemma freeproc_undo_spec {k1 : Kernel} {r : Roles} {i : Pid} (h : k1.Spaced r 0 A)
    (hOther : ∀ j, j ≠ i → k1.proc j = k.proc j) (hClear : (k1.proc i).clear = (k.proc i).clear)
    (hState : (k.proc i).state = .unused) (hTramp : k1.trampoline = k.trampoline) :
    wp (freeproc i) E (fun _ k' => Allocated k none k' ∧ ∃ ρ', k'.Spaced ρ' 0 A ∧
      k'.trampoline = k.trampoline) k1 := by
  refine wp_post (freeproc_spec h i) ?_
  rintro - k' ⟨m', ρ', rfl, hSpaced⟩
  refine ⟨fun j => ?_, ρ', hSpaced, hTramp⟩
  by_cases hj : j = i
  · subst hj
    rw [setProc_proc_same, hClear]
    exact .inr ⟨hState, rfl⟩
  · rw [setProc_proc_of_ne _ hj]
    exact .inl (hOther j hj)

lemma allocSlot_spec {i : Pid} (h : k.Spaced ρ 0 A) (hFind : findUnused k.proc = some i)
    (hpt : (k.proc i).pagetable = 0) (htf : (k.proc i).trapframe = 0) (hsz : (k.proc i).sz = 0) :
    wp (allocSlot i) E (fun res k' => Allocated k res k' ∧ ∃ ρ', k'.Spaced ρ' 0 A ∧
      k'.trampoline = k.trampoline ∧ (res ≠ none → Kept k.mem ρ k'.mem ρ')) k := by
  have hState := findUnused_state hFind
  have hSame : Function.update k.space i ⟨0, 0, 0⟩ = k.space := by
    grind [update_eq_self, Kernel.space]
  simp only [allocSlot, allocpid, wp_bind, wp_read, wp_update, wp_pure, wp_modProc, wp_onMem]
  refine kalloc_spec h.typed (c := .frame i) trivial ?_ ?_
  · intro _
    rw [if_pos rfl]
    simp only [wp_bind, wp_pure, setMem_setProc, setProc_setProc, setProc_proc_same]
    refine wp_post (freeproc_undo_spec (A := A) (k := k) (r := ρ) ?_ ?_ ?_ hState rfl) ?_
    · rw [Kernel.Spaced, space_setProc]
      simp only [Kernel.bumpPid_proc, hpt, hsz]
      have hBump : ((k.bumpPid).setMem k.mem).space = k.space := rfl
      rw [hBump, hSame]
      exact h
    · intro j hj
      rw [setProc_proc_of_ne _ hj]
      rfl
    · simp [Proc.clear]
    · rintro - k' ⟨hAlloc, ρ', hSpaced, hTramp⟩
      exact ⟨hAlloc, ρ', hSpaced, hTramp, fun hne => absurd rfl hne⟩
  · intro tf m1 hpos hFree hTook ht1
    rw [if_neg hpos]
    simp only [wp_bind, wp_read, wp_onMem, setMem_setProc, setProc_setProc, setProc_proc_same,
      Kernel.setProc_trampoline, Kernel.setMem_trampoline, Kernel.bumpPid_trampoline, Kernel.setProc_mem,
      Kernel.setMem_mem, wp_modProc]
    have hFrame := h.new_frame (i := i) hpt htf hFree hTook ht1
    have hFramed : Function.update ρ tf (.frame i) tf = .frame i := update_self ..
    obtain ⟨-, hAlign, hlt⟩ := hFrame.typed.toAlloc.pos_of_role (p := tf) (by rw [hFramed]; exact Role.noConfusion)
    have hKept1 : Kept k.mem ρ m1 (Function.update ρ tf (.frame i)) := by
      intro p hp
      have hne : p ≠ tf := fun hEq => hp (hEq ▸ hFree)
      exact ⟨update_of_ne hne .., hTook.page p hne⟩
    refine wp_post (procPagetable_spec hFrame.typed h.tramp.1 ⟨hAlign, by omega⟩) ?_
    rintro pt m2 (⟨rfl, ht2, hk, hs, hpage⟩ | ⟨hne, hFree2, ρ2, ht2, hExt, hTable⟩)
    · rw [if_pos rfl]
      simp only [wp_bind, wp_pure]
      have hQuiet := hFrame.quiet ht2 hk hs hpage
      refine wp_post (freeproc_undo_spec (A := A) (k := k) (r := Function.update ρ tf (.frame i)) ?_ ?_ ?_
        hState rfl) ?_
      · rw [Kernel.Spaced, space_setProc]
        simp only [Kernel.bumpPid_proc, hsz]
        rw [show k.space i = ⟨0, 0, 0⟩ by rw [Kernel.space, hpt, htf, hsz]] at hQuiet
        exact hQuiet
      · intro j hj
        rw [setProc_proc_of_ne _ hj]
        rfl
      · simp [Proc.clear]
      · rintro - k' ⟨hAlloc, ρ', hSpaced, hTramp⟩
        exact ⟨hAlloc, ρ', hSpaced, hTramp, fun hne => absurd rfl hne⟩
    · rw [if_neg hne]
      simp only [wp_bind, wp_pure, wp_modProc, setProc_setProc, setProc_proc_same]
      have hExtra := hFrame.new_extra hFree2 hExt.touches ht2
      have hSwap := hExtra.swap i (Nat.zero_le trapframeVa) (fun _ => by
        rw [update_self]
        exact hTable)
      refine ⟨⟨hFind, ?_, tf, pt, hpos, hne, ?_⟩, ρ2, ?_, rfl, fun _ => ?_⟩
      · intro j hj
        rw [setProc_proc_of_ne _ hj]
        rfl
      · rw [setProc_proc_same]
        rfl
      · rw [Kernel.Spaced, space_setProc]
        simp only [update_self, update_idem] at hSwap
        simp only [Kernel.bumpPid_proc, hsz]
        rw [show (k.space i).root = 0 from hpt] at hSwap
        exact hSwap
      · intro p hp
        obtain ⟨hRole1, hPage1⟩ := hKept1 p hp
        refine ⟨(hExt.role p (by rw [hRole1]; exact hp)).trans hRole1, ?_⟩
        rw [← hPage1]
        refine hExt.page p (by rw [hRole1]; exact hp) ?_
        intro l a hEq
        have hRoot := hFrame.typed.toTrees.root_of_table hEq
        rw [hFree2] at hRoot
        cases hRoot

lemma allocproc_spec (h : k.Spaced ρ 0 A)
    (hIdle : ∀ i, (k.proc i).state = .unused →
      (k.proc i).pagetable = 0 ∧ (k.proc i).trapframe = 0 ∧ (k.proc i).sz = 0) :
    wp allocproc E (fun res k' => Allocated k res k' ∧ ∃ ρ', k'.Spaced ρ' 0 A ∧
      k'.trampoline = k.trampoline ∧ (res ≠ none → Kept k.mem ρ k'.mem ρ')) k := by
  simp only [allocproc, wp_bind, wp_read]
  cases hFind : findUnused k.proc with
  | none =>
    simp only [wp_pure]
    exact ⟨fun j => .inl rfl, ρ, h, trivial, fun hne => absurd rfl hne⟩
  | some i =>
    grind [findUnused_state, allocSlot_spec]

end

/-! ## Calls that leave memory alone -/

structure Unmoved (k k' : Kernel) : Prop where
  mem : k'.mem = k.mem
  trampoline : k'.trampoline = k.trampoline
  kpgtbl : k'.kpgtbl = k.kpgtbl
  space : k'.space = k.space
  unused : ∀ i, (k'.proc i).state = .unused ↔ (k.proc i).state = .unused

namespace Unmoved

variable {k k1 k2 : Kernel} {A : List Nat}

lemma refl (k : Kernel) : Unmoved k k := ⟨rfl, rfl, rfl, rfl, fun _ => Iff.rfl⟩

lemma trans (h1 : Unmoved k k1) (h2 : Unmoved k1 k2) : Unmoved k k2 :=
  ⟨h2.mem.trans h1.mem, h2.trampoline.trans h1.trampoline, h2.kpgtbl.trans h1.kpgtbl, h2.space.trans h1.space,
    fun i => (h2.unused i).trans (h1.unused i)⟩

lemma spaced (h : Unmoved k k1) {ρ : Roles} {x : Nat} (hk : k.Spaced ρ x A) : k1.Spaced ρ x A := by
  rw [Kernel.Spaced, h.mem, h.trampoline, h.kpgtbl, h.space]
  exact hk

lemma owned (h : Unmoved k k1) (hk : Owned k A) : Owned k1 A := by
  have hField : ∀ i, (k1.proc i).pagetable = (k.proc i).pagetable ∧ (k1.proc i).trapframe = (k.proc i).trapframe ∧
      (k1.proc i).sz = (k.proc i).sz := by
    intro i
    have hi := congrFun h.space i
    simp only [Kernel.space, Space.mk.injEq] at hi
    exact ⟨hi.1, hi.2.2, hi.2.1⟩
  obtain ⟨ρ, hρ⟩ := hk.spaces
  refine ⟨⟨ρ, h.spaced hρ⟩, ?_, ?_⟩
  · grind [hk.live, h.unused]
  · grind [hk.idle, h.unused]

lemma setProc {i : Pid} {p : Proc} (hpt : p.pagetable = (k.proc i).pagetable) (hsz : p.sz = (k.proc i).sz)
    (htf : p.trapframe = (k.proc i).trapframe) (hState : p.state = .unused ↔ (k.proc i).state = .unused) :
    Unmoved k (k.setProc i p) := by
  refine ⟨rfl, rfl, rfl, ?_, ?_⟩
  · rw [space_setProc, hpt, hsz, htf]
    exact update_eq_self i k.space
  · grind [setProc_proc_same, setProc_proc_of_ne]

end Unmoved

section

variable {E : Stop → Prop} {k : Kernel}

lemma wakeup_unmoved (me : Pid) (chan : Chan) :
    wp (wakeup me chan) E (fun _ k' => Unmoved k k') k := by
  have hWake : ∀ j, (wakeOne me chan j (k.proc j)).pagetable = (k.proc j).pagetable ∧
      (wakeOne me chan j (k.proc j)).sz = (k.proc j).sz ∧
      (wakeOne me chan j (k.proc j)).trapframe = (k.proc j).trapframe ∧
      ((wakeOne me chan j (k.proc j)).state = .unused ↔ (k.proc j).state = .unused) := by
    intro j
    unfold wakeOne
    split
    · rename_i hSleep
      simp [hSleep.2.1]
    · simp
  simp only [wakeup, wp_update]
  refine ⟨rfl, rfl, rfl, ?_, fun j => (hWake j).2.2.2⟩
  funext j
  obtain ⟨hpt, hsz, htf, -⟩ := hWake j
  simp only [Kernel.space, hpt, hsz, htf]

lemma reparent_unmoved (me : Pid) : wp (reparent me) E (fun _ k' => Unmoved k k') k := by
  simp only [reparent, wp_bind, wp_read]
  refine wp_eachM_inv (I := fun k' => Unmoved k k') ?_ (Unmoved.refl k)
  intro pp _ k1 hk1
  simp only [wp_bind, wp_getProc]
  split
  · simp only [wp_bind, wp_modProc]
    have hk2 : ∀ q, Unmoved k (k1.setProc pp { k1.proc pp with parent := q }) :=
      fun q => hk1.trans (Unmoved.setProc rfl rfl rfl Iff.rfl)
    cases k.initproc with
    | none =>
      simp only [wp_pure]
      exact hk2 none
    | some i => exact wp_post (wakeup_unmoved me _) (fun _ k3 hk3 => (hk2 (some i)).trans hk3)
  · simp only [wp_pure]
    exact hk1

lemma kexit_unmoved (me : Pid) (status : Int32) (hE : E .initExiting) (hMe : (k.proc me).state ≠ .unused) :
    wp (kexit me status) E (fun _ k' => Unmoved k k') k := by
  simp only [kexit, wp_bind, wp_read]
  split
  · simp only [wp_stop]
    exact hE
  · simp only [wp_bind]
    refine wp_post (reparent_unmoved me) ?_
    rintro - k1 hk1
    have hLast : ∀ k2, Unmoved k k2 → Unmoved k (k2.setProc me { k2.proc me with xstate := status, state := .zombie }) := by
      intro k2 hk2
      refine hk2.trans (Unmoved.setProc rfl rfl rfl ?_)
      simp [hk2.unused, hMe]
    simp only [wp_getProc]
    cases (k1.proc me).parent with
    | none =>
      simp only [wp_modProc]
      exact hLast k1 hk1
    | some q =>
      simp only [wp_bind, wp_modProc]
      exact wp_post (wakeup_unmoved me _) (fun _ k2 hk2 => hLast k2 (hk1.trans hk2))

lemma kkill_unmoved (pid : Int32) : wp (kkill pid) E (fun _ k' => Unmoved k k') k := by
  simp only [kkill, wp_bind, wp_read]
  cases findPid k.proc pid with
  | none =>
    simp only [wp_pure]
    exact Unmoved.refl k
  | some i =>
    simp only [wp_bind, wp_modProc, wp_pure]
    refine Unmoved.setProc rfl rfl rfl ?_
    split
    · rename_i hSleep
      simp [hSleep]
    · exact Iff.rfl

end

end Xv6K230
