import Xv6K230.Kernel.Partition
import Xv6K230.Kernel.Slots

/-! # Page faults

`usertrap` treats a fault that `vmfault` could not repair like one that it repaired.
-/

namespace Xv6K230

open Vm Fs Riscv Prog

def FaultHandled (k : Kernel) (me : Pid) (stval : Nat) (k' : Kernel) : Prop :=
  ((k.mem.view (k.proc me).pagetable (stval / 4096)).has pteV = false ∧
    (k'.mem.view (k.proc me).pagetable (stval / 4096)).has pteV ∧
    (k'.mem.view (k.proc me).pagetable (stval / 4096)).has pteU ∧
    (k'.mem.view (k.proc me).pagetable (stval / 4096)).has pteW) ∨
  ((k'.proc me).state = .zombie ∧ (k'.proc me).xstate = -1)

section

variable {k : Kernel} {A : List Nat} {me : Pid}

lemma kexit_exits {E : Stop → Prop} (status : Int32) (hE : k.initproc = some me → E .initExiting) :
    wp (kexit me status) E (fun _ k' => k.initproc ≠ some me ∧
      (k'.proc me).state = .zombie ∧ (k'.proc me).xstate = status) k := by
  have hEnd (hNot : k.initproc ≠ some me) : ∀ k1 : Kernel, wp (modProc me fun p => { p with xstate := status, state := .zombie }) E
      (fun _ k' => k.initproc ≠ some me ∧ (k'.proc me).state = .zombie ∧ (k'.proc me).xstate = status) k1 := by
    intro k1
    rw [wp_modProc, setProc_proc_same]
    exact ⟨hNot, rfl, rfl⟩
  simp only [kexit, wp_bind, wp_read, id_eq]
  split
  · rename_i hInit
    rw [wp_stop]
    exact hE hInit
  · rename_i hNot
    simp only [wp_bind, wp_getProc]
    refine wp_post (reparent_unmoved me) ?_
    intro _ k1 _
    cases (k1.proc me).parent with
    | none => exact hEnd hNot k1
    | some q =>
      simp only [wp_bind]
      exact wp_post (wakeup_unmoved me _) (fun _ k2 _ => hEnd hNot k2)

lemma storeFrame_page (hk : Owned k A) {ρ : Roles} (hρ : k.Spaced ρ 0 A) (hMe : (k.proc me).state ≠ .unused)
    (pg : Page) {q l a : Nat} (hq : ρ q = .table (k.proc me).pagetable l a) :
    (k.mem.setPage (k.proc me).trapframe pg).page q = k.mem.page q :=
  setPage_page_of_ne _ _ (ne_of_role hq (hρ.frame me (hk.live me hMe).2) Role.noConfusion)

lemma storeFrame_view (hk : Owned k A) (hMe : (k.proc me).state ≠ .unused) (pg : Page) (v : Nat) :
    (k.mem.setPage (k.proc me).trapframe pg).view (k.proc me).pagetable v =
      k.mem.view (k.proc me).pagetable v := by
  obtain ⟨ρ, hρ⟩ := hk.spaces
  exact hρ.typed.toTrees.view_congr (hk.table hρ hMe).root (fun _ _ _ => storeFrame_page hk hρ hMe pg) v

lemma storeFrame_repairable (hk : Owned k A) (hMe : (k.proc me).state ≠ .unused) (pg : Page) (stval : Nat) :
    (k.mem.setPage (k.proc me).trapframe pg).Repairable (k.proc me).pagetable (k.proc me).sz stval ↔
      k.mem.Repairable (k.proc me).pagetable (k.proc me).sz stval := by
  obtain ⟨ρ, hρ⟩ := hk.spaces
  have hMissing : (k.mem.setPage (k.proc me).trapframe pg).missing (k.proc me).pagetable (stval / 4096 * 4096) =
      k.mem.missing (k.proc me).pagetable (stval / 4096 * 4096) :=
    missingFrom_congr hρ.typed.toTrees (fun _ _ _ => storeFrame_page hk hρ hMe pg) 2 _ 0 (hk.table hρ hMe).root
  rw [Mem.Repairable, Mem.Repairable, storeFrame_view hk hMe, hMissing, setPage_freelist]

lemma faultPerm_entry (pa : Nat) : (pa2pte pa ||| faultPerm ||| pteV).has pteV = true ∧
    (pa2pte pa ||| faultPerm ||| pteV).has pteU = true ∧ (pa2pte pa ||| faultPerm ||| pteV).has pteW = true := by
  rw [has_pteV, has_pteU, has_pteW, getLsbD_entry pa _ (by decide), getLsbD_entry pa _ (by decide),
    getLsbD_entry pa _ (by decide)]
  decide

/-- `vmfault` maps the page of a repairable fault, and changes no entry for another one. -/
lemma vmfault_view {E : Stop → Prop} (hk : Owned k A) (hMe : (k.proc me).state ≠ .unused) (stval : Nat) :
    wp (vmfault (k.proc me).pagetable (k.proc me).sz (k.proc me).pagetable stval) E (fun _ m' =>
      k.mem.Repairable (k.proc me).pagetable (k.proc me).sz stval ∧
        (m'.view (k.proc me).pagetable (stval / 4096)).has pteV ∧
        (m'.view (k.proc me).pagetable (stval / 4096)).has pteU ∧
        (m'.view (k.proc me).pagetable (stval / 4096)).has pteW ∨
      ¬ k.mem.Repairable (k.proc me).pagetable (k.proc me).sz stval ∧
        m'.view (k.proc me).pagetable (stval / 4096) = k.mem.view (k.proc me).pagetable (stval / 4096)) k.mem := by
  by_cases hlt : stval < (k.proc me).sz
  · obtain ⟨ρ, hρ⟩ := hk.spaces
    have hTable := hk.table hρ hMe
    have hsz : (k.proc me).sz ≤ trapframeVa := hρ.size me
    have hPage : stval / 4096 < 512 ^ 3 := by
      rw [trapframeVa_eq] at hsz
      omega
    refine wp_post (vmfault_spec hρ.typed hTable hsz) ?_
    rintro pa m' (⟨-, hNot, ρ', hSame⟩ | ⟨-, hRep, ρ', hAdded⟩)
    · exact .inr ⟨hNot, hSame.view _ _ hTable.root hPage⟩
    · rw [hAdded.view _ _ hTable.root hPage, if_pos ⟨rfl, rfl⟩]
      exact .inl ⟨hRep, faultPerm_entry pa⟩
  · rw [vmfault, if_pos (not_lt.mp hlt), wp_pure]
    exact .inr ⟨fun h => hlt h.1, rfl⟩

lemma pageFault_outcome (hk : Owned k A) (hMe : (k.proc me).state = .running) (epc stval : Nat) :
    wp (usertrap me epc (.pageFault stval)) (fun _ => (k.proc me).killed = true ∧ k.initproc = some me)
      (fun _ k' =>
        (k.proc me).killed = true ∧ k.initproc ≠ some me ∧
          (k'.proc me).state = .zombie ∧ (k'.proc me).xstate = -1 ∨
        (k.proc me).killed = false ∧ k'.proc = k.proc ∧
          (k.mem.Repairable (k.proc me).pagetable (k.proc me).sz stval ∧
            (k'.mem.view (k.proc me).pagetable (stval / 4096)).has pteV ∧
            (k'.mem.view (k.proc me).pagetable (stval / 4096)).has pteU ∧
            (k'.mem.view (k.proc me).pagetable (stval / 4096)).has pteW ∨
          ¬ k.mem.Repairable (k.proc me).pagetable (k.proc me).sz stval ∧
            k'.mem.view (k.proc me).pagetable (stval / 4096) =
              k.mem.view (k.proc me).pagetable (stval / 4096))) k := by
  have hLive : (k.proc me).state ≠ .unused := by
    rw [hMe]
    decide
  simp only [usertrap, wp_bind, wp_getProc, wp_onMem, wp_update]
  generalize (k.mem.page (k.proc me).trapframe).putLE 24 8 epc = pg
  have hFault := vmfault_view (E := fun _ => (k.proc me).killed = true ∧ k.initproc = some me)
    (hk.storeFrame hLive pg) (show ((k.setMem _).proc me).state ≠ .unused from hLive) stval
  simp only [Kernel.setMem_proc, Kernel.setMem_mem, storeFrame_repairable hk hLive, storeFrame_view hk hLive]
    at hFault
  refine wp_post hFault ?_
  intro _ m' hView
  simp only [trapReturn, wp_bind, wp_getProc, setMem_setMem, Kernel.setMem_proc]
  split
  · rename_i hKilled
    refine wp_post (kexit_exits _ (fun hInit => ⟨hKilled, hInit⟩)) ?_
    exact fun _ k' hGone => .inl ⟨hKilled, hGone⟩
  · rename_i hKilled
    rw [if_neg Bool.false_ne_true, wp_pure]
    exact .inr ⟨Bool.not_eq_true _ ▸ hKilled, rfl, hView⟩

/-- A page fault of a running process is handled exactly if it can be repaired, or the process
was already marked for termination and is not the first process. -/
theorem pageFault_handled_iff (hk : Owned k A) (hMe : (k.proc me).state = .running) (epc stval : Nat) :
    (∃ k', usertrap me epc (.pageFault stval) k = .ok ((), k') ∧ FaultHandled k me stval k') ↔
      if (k.proc me).killed then k.initproc ≠ some me
      else k.mem.Repairable (k.proc me).pagetable (k.proc me).sz stval := by
  have hOutcome := pageFault_outcome hk hMe epc stval
  constructor
  · rintro ⟨k', hr, hHandled⟩
    have hOk := wp_ok hOutcome hr
    obtain ⟨hKilled, hNot, -⟩ | ⟨hKilled, hProc, hView⟩ := hOk
    · rw [if_pos hKilled]
      exact hNot
    · rw [if_neg (by rw [hKilled]; exact Bool.false_ne_true)]
      obtain ⟨hRep, -⟩ | ⟨-, hSame⟩ := hView
      · exact hRep
      · obtain ⟨hBefore, hAfter, -⟩ | ⟨hZombie, -⟩ := hHandled
        · rw [hSame, hBefore] at hAfter
          cases hAfter
        · rw [hProc, hMe] at hZombie
          cases hZombie
  · intro hWhen
    have hNoStop : ∀ _ : Stop, ((k.proc me).killed = true ∧ k.initproc = some me) → False := by
      rintro - ⟨hKilled, hInit⟩
      rw [if_pos hKilled] at hWhen
      exact hWhen hInit
    obtain ⟨_, k', hr, hEnd⟩ := wp_total (wp_mono hOutcome hNoStop (fun _ _ h => h))
    refine ⟨k', hr, ?_⟩
    obtain ⟨-, -, hGone⟩ | ⟨hKilled, -, hView⟩ := hEnd
    · exact .inr hGone
    · rw [if_neg (by rw [hKilled]; exact Bool.false_ne_true)] at hWhen
      obtain ⟨-, hMapped⟩ | ⟨hNot, -⟩ := hView
      · exact .inl ⟨hWhen.2.1, hMapped⟩
      · exact absurd hWhen hNot

/-- A fault of `init` in a page that is there. -/
theorem pageFault_handled_iff_init :
    (∃ k', usertrap Sample.init 0 (.pageFault 0) Sample.atWork = .ok ((), k') ∧
      FaultHandled Sample.atWork Sample.init 0 k') ↔
      if (Sample.atWork.proc Sample.init).killed then Sample.atWork.initproc ≠ some Sample.init
      else Sample.atWork.mem.Repairable (Sample.atWork.proc Sample.init).pagetable
        (Sample.atWork.proc Sample.init).sz 0 :=
  pageFault_handled_iff (Sample.reaches_atWork Sample.start_process).owned Sample.atWork_working.1 0 0

/-- A fault at the end of the address space: `init` returns to the same instruction, with
the page still missing. -/
theorem pageFault_unhandled : ∃ k',
    Reaches (fun _ l => l.Process) Sample.atWork ∧ (Sample.atWork.proc Sample.init).state = .running ∧
    usertrap Sample.init 0 (.pageFault 8192) Sample.atWork = .ok ((), k') ∧
    ¬ FaultHandled Sample.atWork Sample.init 8192 k' ∧
    (k'.proc Sample.init).state = .running ∧ (k'.proc Sample.init).killed = false ∧
    k'.mem.view (Sample.atWork.proc Sample.init).pagetable 2 =
      Sample.atWork.mem.view (Sample.atWork.proc Sample.init).pagetable 2 := by
  have hReach := Sample.reaches_atWork Sample.start_process
  obtain ⟨hRun, -, hKilled, hsz, -⟩ := Sample.atWork_working
  have hFar : ¬ Sample.atWork.mem.Repairable (Sample.atWork.proc Sample.init).pagetable
      (Sample.atWork.proc Sample.init).sz 8192 := by
    rintro ⟨hlt, -⟩
    rw [hsz] at hlt
    exact lt_irrefl _ hlt
  have hNoStop : ∀ _ : Stop, ((Sample.atWork.proc Sample.init).killed = true ∧
      Sample.atWork.initproc = some Sample.init) → False := by
    rintro - ⟨hFlag, -⟩
    rw [hKilled] at hFlag
    cases hFlag
  obtain ⟨_, k', hr, hEnd⟩ := wp_total (wp_mono (pageFault_outcome hReach.owned hRun 0 8192) hNoStop (fun _ _ h => h))
  obtain ⟨hFlag, -⟩ | ⟨-, hProc, ⟨hRep, -⟩ | ⟨-, hSame⟩⟩ := hEnd
  · rw [hKilled] at hFlag
    cases hFlag
  · exact absurd hRep hFar
  · refine ⟨k', hReach, hRun, hr, ?_, by rw [hProc, hRun], by rw [hProc, hKilled], hSame⟩
    rintro (⟨hBefore, hAfter, -⟩ | ⟨hZombie, -⟩)
    · rw [hSame, hBefore] at hAfter
      cases hAfter
    · rw [hProc, hRun] at hZombie
      cases hZombie

end

end Xv6K230
