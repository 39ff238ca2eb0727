import Xv6K230.Kernel.Kill

/-! # Descriptors across fork

`kfork` writes only the descriptors that the parent has, and neither exit nor reaping clears any.
-/

namespace Xv6K230

open Vm Fs Prog Transition

def Tidy (k : Kernel) : Prop := ∀ j, (k.proc j).Dead → ∀ fd, (k.proc j).ofile fd = none

def Inert (k k' : Kernel) : Prop :=
  ∀ j, (k'.proc j).Dead → (k.proc j).Dead ∧ (k'.proc j).ofile = (k.proc j).ofile

instance : Std.Refl Inert := ⟨fun _ _ h => ⟨h, rfl⟩⟩

instance : IsTrans Kernel Inert :=
  ⟨fun _ _ _ h1 h2 j hj => ⟨(h1 j (h2 j hj).1).1, (h2 j hj).2.trans (h1 j (h2 j hj).1).2⟩⟩

lemma Tidy.inert {k k' : Kernel} (hk : Tidy k) (h : Inert k k') : Tidy k' := by
  intro j hj fd
  obtain ⟨hDead, hOfile⟩ := h j hj
  rw [hOfile]
  exact hk j hDead fd

lemma Woken.dead {p p' : Proc} (h : Woken p p') (hDead : p'.Dead) : p'.state = p.state := by
  obtain hEq | ⟨-, hRun⟩ := h.state
  · exact hEq
  · rw [Proc.Dead, hRun] at hDead
    obtain hDead | hDead := hDead <;> cases hDead

section

variable {k k' : Kernel} {me : Pid}

lemma SameCore.inert (h : SameCore k k') : Inert k k' := by
  intro j hDead
  have hState : (k'.proc j).core.state = (k.proc j).core.state := by rw [h j]
  have hOfile : (k'.proc j).core.ofile = (k.proc j).core.ofile := by rw [h j]
  refine ⟨?_, hOfile⟩
  rw [Proc.Dead] at hDead ⊢
  rw [← show (k'.proc j).state = (k.proc j).state from hState]
  exact hDead

lemma FileCall.inert (h : FileCall me k k') (hMe : (k.proc me).state = .running) : Inert k k' := by
  intro j hDead
  obtain ⟨hWoken, hFiles⟩ := h j
  have hState := hWoken.dead hDead
  have hDead' : (k.proc j).Dead := by
    rw [Proc.Dead, ← hState]
    exact hDead
  refine ⟨hDead', (hFiles ?_).1⟩
  rintro rfl
  rw [Proc.Dead, hMe] at hDead'
  obtain hDead' | hDead' := hDead' <;> cases hDead'

lemma Unforked.inert (h : Unforked k k') : Inert k k' := by
  intro j hDead
  obtain hEq | ⟨hUnused, -, -, -, hOfile⟩ := h.proc j
  · rw [hEq] at hDead ⊢
    exact ⟨hDead, rfl⟩
  · exact ⟨.inl hUnused, hOfile⟩

lemma Forked.inert {np : Pid} (h : Forked k me np k') : Inert k k' := by
  intro j hDead
  by_cases hj : j = np
  · subst hj
    rw [Proc.Dead, h.state] at hDead
    obtain hDead | hDead := hDead <;> cases hDead
  · rw [h.other j hj] at hDead ⊢
    exact ⟨hDead, rfl⟩

lemma inert_modProc {i : Pid} {f : Proc → Proc} (h : ∀ p, (f p).Dead → p.Dead ∧ (f p).ofile = p.ofile) :
    Moves Inert (modProc i f) := by
  refine moves_modProc fun k j hDead => ?_
  by_cases hj : j = i
  · subst hj
    rw [setProc_proc_same] at hDead ⊢
    exact h _ hDead
  · rw [setProc_proc_of_ne _ hj] at hDead ⊢
    exact ⟨hDead, rfl⟩

lemma Orphaned.inert {p p' : Proc} (h : Orphaned p p') (hDead : p'.Dead) : p.Dead ∧ p'.ofile = p.ofile := by
  refine ⟨?_, h.ofile⟩
  obtain hEq | ⟨-, hRun⟩ := h.state
  · rw [Proc.Dead, ← hEq]
    exact hDead
  · rw [Proc.Dead, hRun] at hDead
    obtain hDead | hDead := hDead <;> cases hDead

lemma kexit_tidy (status : Int32) (hk : Tidy k) (hMe : ∀ fd, (k.proc me).ofile fd = none) :
    wp (kexit me status) (fun _ => True) (fun _ k' => Tidy k') k := by
  refine wp_post (kexit_table me status) ?_
  rintro - k' ⟨-, hOther, p, hp, hZombie⟩ j hDead fd
  by_cases hj : j = me
  · subst hj
    rw [hZombie]
    exact (congrFun hp.ofile fd).trans (hMe fd)
  · obtain ⟨hDead', hOfile⟩ := (hOther j hj).inert hDead
    rw [hOfile]
    exact hk j hDead' fd

lemma kwait_inert (addr : Nat) : wp (kwait me addr) (fun _ => True) (fun _ k' => Inert k k') k := by
  refine wp_post (kwait_table me addr) ?_
  rintro r k' (hSame | ⟨-, p, hSleep, rfl⟩ | ⟨-, pp, hZombie, hClear, hOther⟩) j hDead
  · rw [hSame] at hDead ⊢
    exact ⟨hDead, rfl⟩
  · rw [hSleep] at hDead ⊢
    by_cases hj : j = me
    · subst hj
      rw [setProc_proc_same] at hDead
      obtain hDead | hDead := hDead <;> cases hDead
    · rw [setProc_proc_of_ne _ hj] at hDead ⊢
      exact ⟨hDead, rfl⟩
  · by_cases hj : j = pp
    · subst hj
      rw [hClear]
      exact ⟨.inr hZombie, rfl⟩
    · rw [hOther j hj] at hDead ⊢
      exact ⟨hDead, rfl⟩

lemma kkill_inert (pid : Int32) : Moves Inert (kkill pid) := by
  refine .bind (.read _) fun t => ?_
  cases findPid t pid with
  | none => exact .pure _
  | some i =>
    refine .bind (inert_modProc fun p hDead => ⟨?_, rfl⟩) fun _ => .pure _
    by_cases hSleep : p.state = .sleeping
    · rw [Proc.Dead, if_pos hSleep] at hDead
      obtain hDead | hDead := hDead <;> cases hDead
    · rw [Proc.Dead, if_neg hSleep] at hDead
      exact hDead

lemma kkill_ofile (pid : Int32) :
    wp (kkill pid) (fun _ => True) (fun _ k' => ∀ j, (k'.proc j).ofile = (k.proc j).ofile) k := by
  simp only [kkill, wp_bind, wp_read]
  cases findPid k.proc pid with
  | none =>
    rw [wp_pure]
    exact fun _ => rfl
  | some i =>
    simp only [wp_bind, wp_modProc, wp_pure]
    intro j
    by_cases hj : j = i
    · rw [hj, setProc_proc_same]
    · rw [setProc_proc_of_ne _ hj]

lemma kwait_ofile (addr : Nat) (hMe : (k.proc me).state = .running) :
    wp (kwait me addr) (fun _ => True) (fun _ k' => (k'.proc me).ofile = (k.proc me).ofile) k := by
  refine wp_post (kwait_table me addr) ?_
  rintro r k' (hSame | ⟨-, p, hSleep, rfl⟩ | ⟨-, pp, hZombie, -, hOther⟩)
  · rw [hSame]
  · rw [hSleep, setProc_proc_same]
  · rw [hOther]
    rintro rfl
    rw [hMe] at hZombie
    cases hZombie

lemma kfork_inert (hMe : (k.proc me).state ≠ .unused) :
    wp (kfork me) (fun _ => True) (fun _ k' => Inert k k') k := by
  refine wp_post (kfork_table hMe) ?_
  rintro r k' (⟨-, h⟩ | ⟨-, np, h⟩)
  · exact h.inert
  · exact h.inert

lemma userinit_inert : wp userinit (fun _ => True) (fun _ k' => Inert k k') k := by
  simp only [userinit, wp_bind]
  refine wp_post allocproc_table ?_
  rintro (_ | i) k1 h1
  · rw [wp_stop]
    trivial
  · simp only [wp_bind, wp_update, wp_onFs, wp_modProc]
    refine wp_mono (wp_true _ _) (fun _ h => h) ?_
    intro cwd fs1 _ j hDead
    by_cases hj : j = i
    · subst hj
      rw [setProc_proc_same] at hDead
      obtain hDead | hDead := hDead <;> cases hDead
    · grind [h1.other, setProc_proc_of_ne, Kernel.setFs_proc, Kernel.setInit_proc]

end

/-! ## Runs -/

section

variable {k : Kernel} {me : Pid}

lemma trapReturn_tidy (timer : Bool) (hk : Tidy k)
    (hMe : (k.proc me).killed = true → ∀ fd, (k.proc me).ofile fd = none) :
    wp (trapReturn me timer) (fun _ => True) (fun _ k' => Tidy k') k := by
  simp only [trapReturn, wp_bind, wp_getProc]
  split
  · rename_i hKilled
    exact kexit_tidy _ hk (hMe hKilled)
  · split
    · refine wp_post (inert_modProc (fun p hDead => ?_) k) (fun _ k' h => hk.inert h)
      obtain hDead | hDead := hDead <;> cases hDead
    · rw [wp_pure]
      exact hk

lemma tidy_of_inert {α : Type} {m : KM (Option α)} (hk : Tidy k) (hKilled : (k.proc me).killed = false)
    (hCalm : Moves CalmTable m) (hInert : wp m (fun _ => True) (fun _ k' => Inert k k') k) :
    wp m (fun _ => True) (fun _ k' => Tidy k' ∧ ((k'.proc me).killed = true → ∀ fd, (k'.proc me).ofile fd = none)) k := by
  refine wp_post (wp_and hInert (hCalm k)) ?_
  rintro - k' ⟨hInert', hCalm'⟩
  refine ⟨hk.inert hInert', fun hFlag => ?_⟩
  have hOld := (hCalm' me).killed hFlag
  rw [hKilled] at hOld
  cases hOld

lemma syscall_tidy (call : Call) (hk : Tidy k) (hMe : (k.proc me).state = .running)
    (hKilled : (k.proc me).killed = false)
    (hFatal : Cause.Fatal k me (.syscall call) → ∀ fd, (k.proc me).ofile fd = none) :
    wp (syscall me call) (fun _ => True) (fun r k' => Tidy k' ∧
      (r ≠ none → (k'.proc me).killed = true → ∀ fd, (k'.proc me).ofile fd = none)) k := by
  have hUsed : (k.proc me).state ≠ .unused := by
    rw [hMe]
    decide
  have hCore : ∀ {α : Type} {m : KM (Option α)}, Moves SameCore m →
      wp m (fun _ => True) (fun r k' => Tidy k' ∧
        (r ≠ none → (k'.proc me).killed = true → ∀ fd, (k'.proc me).ofile fd = none)) k := by
    intro α m hm
    refine wp_post (tidy_of_inert hk hKilled (calm_of_core hm) (wp_post (hm k) fun _ _ => SameCore.inert)) ?_
    exact fun _ _ h => ⟨h.1, fun _ => h.2⟩
  by_cases hFiles : call.Files
  · refine wp_post (tidy_of_inert hk hKilled ?_ (wp_post (file_syscall hFiles k) fun _ _ h => h.inert hMe)) ?_
    · exact (file_syscall hFiles).mono fun _ _ h j => (h j).1.calm
    · exact fun _ _ h => ⟨h.1, fun _ => h.2⟩
  cases call with
  | fork =>
    refine wp_post (tidy_of_inert hk hKilled (.bind (calm_kfork me) fun _ => .pure _) ?_)
      (fun _ _ h => ⟨h.1, fun _ => h.2⟩)
    simp only [syscall, wp_bind, wp_pure]
    exact kfork_inert hUsed
  | exit status =>
    simp only [syscall, wp_bind, wp_pure]
    refine wp_post (kexit_tidy status hk (hFatal rfl)) ?_
    exact fun _ _ h => ⟨h, fun hne => absurd rfl hne⟩
  | wait addr =>
    refine wp_post (tidy_of_inert hk hKilled (.bind (calm_kwait me addr) fun _ => .pure _) ?_)
      (fun _ _ h => ⟨h.1, fun _ => h.2⟩)
    simp only [syscall, wp_bind, wp_pure]
    exact kwait_inert addr
  | kill pid =>
    simp only [syscall, wp_bind, wp_pure]
    refine wp_post (wp_and (kkill_inert pid k) (wp_and (kkill_marks k pid rfl) (kkill_ofile pid))) ?_
    rintro r k' ⟨hInert, hMarks, hOfile⟩
    refine ⟨hk.inert hInert, fun _ hFlag => ?_⟩
    rw [hOfile me]
    obtain hOld | hPid := hMarks.killed me hFlag
    · rw [hKilled] at hOld
      cases hOld
    · exact hFatal (decide_eq_true hPid)
  | exec path uargv => exact hCore (.bind (sysExec_core me path uargv) fun _ => .pure _)
  | sbrk n t => exact hCore (.bind (sysSbrk_core me n t) fun _ => .pure _)
  | pipe | chdir | dup | «open» | write | mknod | unlink | link | mkdir | close => exact absurd trivial hFiles

lemma Tidy.of_proc {k' : Kernel} (hk : Tidy k) (h : k'.proc = k.proc) : Tidy k' := by
  unfold Tidy
  rw [h]
  exact hk

lemma usertrap_tidy (epc : Nat) {cause : Cause} (hk : Tidy k) (hMe : (k.proc me).state = .running)
    (hExit : ∀ fd, (Label.trap me epc cause).Exits k me → (k.proc me).ofile fd = none) :
    wp (usertrap me epc cause) (fun _ => True) (fun _ k' => Tidy k') k := by
  simp only [usertrap, wp_bind, wp_getProc, wp_onMem, wp_update]
  have hKilled : (k.proc me).killed = true → ∀ fd, (k.proc me).ofile fd = none :=
    fun h fd => hExit fd (Label.exits_trap (.inl h))
  cases cause with
  | syscall call =>
    dsimp only
    split
    · rename_i h
      exact kexit_tidy _ (hk.of_proc rfl) (hKilled h)
    · rename_i h
      simp only [wp_bind, wp_onMem, wp_update]
      refine wp_post (syscall_tidy call (hk.of_proc rfl) hMe (by simpa using h)
        (fun hFatal fd => hExit fd (Label.exits_trap (.inr hFatal)))) ?_
      rintro (_ | r) k2 ⟨hk2, hFlag⟩
      · rw [wp_pure]
        exact hk2
      · simp only [setResult, wp_bind, wp_getProc, wp_onMem, wp_update]
        exact trapReturn_tidy false (hk2.of_proc rfl) (hFlag (by simp))
  | timer => exact trapReturn_tidy true (hk.of_proc rfl) hKilled
  | device => exact trapReturn_tidy false (hk.of_proc rfl) hKilled
  | pageFault stval =>
    simp only [wp_bind, wp_onMem]
    refine wp_mono (wp_true _ _) (fun _ h => h) ?_
    intro _ m' _
    exact trapReturn_tidy false (hk.of_proc rfl) hKilled
  | other =>
    have hNone : ∀ fd, (k.proc me).ofile fd = none := fun fd => hExit fd (Label.exits_trap (.inr rfl))
    simp only [setkilled, wp_bind, wp_modProc]
    refine trapReturn_tidy false ?_ (fun _ => ?_)
    · intro j hDead fd
      by_cases hj : j = me
      · subst hj
        rw [setProc_proc_same]
        exact hNone fd
      · rw [setProc_proc_of_ne _ hj] at hDead ⊢
        exact hk j hDead fd
    · rw [setProc_proc_same]
      exact hNone

lemma resume_tidy {s : Susp} (hk : Tidy k) (hMe : (k.proc me).state = .running) (hSusp : (k.proc me).susp = some s)
    (hExit : ∀ fd, (Label.resume me).Exits k me → (k.proc me).ofile fd = none) :
    wp (Xv6K230.resume me s) (fun _ => True) (fun _ k' => Tidy k') k := by
  have hk1 : Tidy (k.setProc me { k.proc me with chan := none, susp := none }) := by
    intro j hDead fd
    by_cases hj : j = me
    · subst hj
      rw [setProc_proc_same] at hDead ⊢
      exact hk j hDead fd
    · rw [setProc_proc_of_ne _ hj] at hDead ⊢
      exact hk j hDead fd
  simp only [Xv6K230.resume, wp_bind, wp_modProc]
  cases s with
  | first =>
    exact wp_post (first_core me _) (fun _ k' h => hk1.inert h.inert)
  | yielded =>
    rw [wp_pure]
    exact hk1
  | wait addr =>
    simp only [wp_bind]
    refine wp_post (wp_and (kwait_inert addr) (wp_and (calm_kwait me addr _) (kwait_ofile addr ?_))) ?_
    · rw [setProc_proc_same]
      exact hMe
    · rintro (_ | r) k2 ⟨hInert, hCalm, hOfile⟩
      · rw [wp_pure]
        exact hk1.inert hInert
      · simp only [setResult, wp_bind, wp_getProc, wp_onMem, wp_update]
        refine trapReturn_tidy false ((hk1.inert hInert).of_proc rfl) (fun hFlag fd => ?_)
        have hOld := (hCalm me).killed hFlag
        rw [setProc_proc_same] at hOld
        rw [Kernel.setMem_proc, hOfile, setProc_proc_same]
        have hKilled : (k.proc me).killed = true := hOld
        exact hExit fd (by simp [Label.Exits, hKilled, hSusp, Susp.InWait])

lemma Step.tidy {k' : Kernel} {l : Label} (h : Step k l k') (hl : ExitsClosed k l) (hk : Tidy k) : Tidy k' := by
  cases h with
  | kvminit h hr => exact hk.inert (SameCore.inert ((kvminit_core _).of_ok hr))
  | userinit h hr =>
    have hInert := wp_ok userinit_inert hr
    exact hk.inert hInert
  | @schedule i h =>
    intro j hDead fd
    by_cases hj : j = i
    · subst hj
      rw [setProc_proc_same] at hDead
      obtain hDead | hDead := hDead <;> cases hDead
    · rw [setProc_proc_of_ne _ hj] at hDead ⊢
      exact hk j hDead fd
  | trap h hs hr =>
    have hOk := wp_ok (usertrap_tidy _ hk h (fun fd hExit => hl _ hExit fd)) hr
    exact hOk
  | resume h hs hr =>
    have hOk := wp_ok (resume_tidy hk h hs (fun fd hExit => hl _ hExit fd)) hr
    exact hOk

lemma Reaches.tidy (h : Reaches ExitsClosed k) : Tidy k := by
  refine h.invariant (fun k hk j _ fd => ?_) (fun _ _ _ hk hl hStep => hStep.tidy hl hk)
  rw [hk.proc]
  rfl

/-- In a run in which nobody exits with an open descriptor, a child has exactly the
descriptors of its parent. -/
theorem fork_inherits_ofile (h : Reaches ExitsClosed k) (hMe : (k.proc me).state = .running) {r : Int32} {k' : Kernel}
    (hr : kfork me k = .ok (r, k')) {np : Pid} (hFree : (k.proc np).state = .unused)
    (hNew : (k'.proc np).state ≠ .unused) : (k'.proc np).ofile = (k.proc me).ofile := by
  have hUsed : (k.proc me).state ≠ .unused := by
    rw [hMe]
    decide
  have hTable := wp_ok (kfork_table hUsed) hr
  obtain ⟨-, hUn⟩ | ⟨-, np', hFork⟩ := hTable
  · grind [hUn.proc]
  · have hEq : np = np' := by
      by_contra hne
      rw [hFork.other np hne] at hNew
      exact hNew hFree
    subst hEq
    rw [hFork.ofile]
    funext fd
    rw [inherit, h.tidy np (.inl hFree) fd, Option.or_none]

theorem fork_inherits_init : ∃ k k' r, Reaches ExitsClosed k ∧ kfork Sample.init k = .ok (r, k') ∧
    ((k.proc Sample.init).ofile Sample.fd0).isSome ∧ (k'.proc Sample.child).state = .runnable ∧
    (k'.proc Sample.child).ofile = (k.proc Sample.init).ofile := by
  obtain ⟨-, -, hCloses, -⟩ := Sample.run_start
  obtain ⟨k, r, k', hReach, hInit, hFree, hOpen, hr, hRunnable⟩ := Sample.reuses_slot hCloses fun _ _ _ hClosed => hClosed
  refine ⟨k, k', r, hReach, hr, hOpen, hRunnable, fork_inherits_ofile hReach hInit hr hFree ?_⟩
  rw [hRunnable]
  decide

/-- A child opens the root directory, exits and is reaped; the next child of `init` finds
the descriptor in its slot. -/
theorem fork_inherits_stale : ∃ k k' r, Reaches (fun _ _ => True) k ∧ (k.proc Sample.init).state = .running ∧
    (k.proc Sample.child).state = .unused ∧ kfork Sample.init k = .ok (r, k') ∧
    (k'.proc Sample.child).state = .runnable ∧
    (k.proc Sample.init).ofile Sample.fd0 = none ∧ (k'.proc Sample.child).ofile Sample.fd0 ≠ none := by
  obtain ⟨-, -, -, -, hBequeaths, -⟩ := Sample.run_start
  obtain ⟨k, hRun, hTest⟩ := Sample.exists_of_after hBequeaths
  simp only [Bool.and_eq_true, decide_eq_true_eq] at hTest
  obtain ⟨⟨⟨hInit, hFree⟩, hNone⟩, hFork⟩ := hTest
  obtain ⟨r, k', hr, hChild⟩ := Sample.exists_of_returns hFork
  simp only [Bool.and_eq_true, decide_eq_true_eq] at hChild
  refine ⟨k, k', r, Reaches.of_run (Sample.reaches_atWork fun _ _ _ _ => trivial) (fun _ _ _ => trivial) hRun, hInit,
    hFree, hr, hChild.1, hNone, fun hEq => ?_⟩
  rw [hEq] at hChild
  cases hChild.2

end

end Xv6K230
