import Xv6K230.Kernel.Slots
import Xv6K230.Kernel.Execute

/-! # Kill

`kkill` searches the whole table, free slots included, and free slots have pid 0.
-/

namespace Xv6K230

open Vm Fs Prog Transition

structure Calm (p p' : Proc) : Prop where
  killed : p'.killed = true → p.killed = true
  unused : p'.state = .unused → p.state = .unused ∧ p'.pid = p.pid ∨ p'.pid = 0 ∧ p'.killed = false

def CalmTable (k k' : Kernel) : Prop := ∀ j, Calm (k.proc j) (k'.proc j)

lemma Calm.refl (p : Proc) : Calm p p := ⟨id, fun h => .inl ⟨h, rfl⟩⟩

lemma Calm.trans {p p1 p2 : Proc} (h1 : Calm p p1) (h2 : Calm p1 p2) : Calm p p2 := by
  refine ⟨fun h => h1.killed (h2.killed h), fun h => ?_⟩
  obtain ⟨hUnused1, hpid2⟩ | hFresh := h2.unused h
  · grind [h1.unused, h2.killed]
  · exact .inr hFresh

lemma Calm.of_used {p p' : Proc} (hKilled : p'.killed = p.killed) (hState : p'.state ≠ .unused) : Calm p p' :=
  ⟨fun h => hKilled ▸ h, fun h => absurd h hState⟩

lemma Calm.of_same {p p' : Proc} (hKilled : p'.killed = p.killed) (hpid : p'.pid = p.pid)
    (hState : p'.state = .unused → p.state = .unused) : Calm p p' :=
  ⟨fun h => hKilled ▸ h, fun h => .inl ⟨hState h, hpid⟩⟩

instance : Std.Refl CalmTable := ⟨fun _ _ => Calm.refl _⟩

instance : IsTrans Kernel CalmTable := ⟨fun _ _ _ h1 h2 j => (h1 j).trans (h2 j)⟩

section

variable {α : Type}

lemma SameCore.calm {k k' : Kernel} (h : SameCore k k') : CalmTable k k' := by
  intro j
  have hKilled : (k'.proc j).core.killed = (k.proc j).core.killed := by rw [h j]
  have hPid : (k'.proc j).core.pid = (k.proc j).core.pid := by rw [h j]
  have hState : (k'.proc j).core.state = (k.proc j).core.state := by rw [h j]
  exact Calm.of_same hKilled hPid (fun hUnused => hState ▸ hUnused)

lemma calm_of_core {m : KM α} (h : Moves SameCore m) : Moves CalmTable m := h.mono fun _ _ => SameCore.calm

lemma calm_onMem (m : MemM α) : Moves CalmTable (onMem m) := calm_of_core (core_onMem m)

lemma calm_onFs (m : FsM α) : Moves CalmTable (onFs m) := calm_of_core (core_onFs m)

lemma calm_modProc {i : Pid} {f : Proc → Proc} (h : ∀ p, Calm p (f p)) : Moves CalmTable (modProc i f) := by
  refine moves_modProc fun k j => ?_
  by_cases hj : j = i
  · rw [hj, setProc_proc_same]
    exact h _
  · rw [setProc_proc_of_ne _ hj]
    exact Calm.refl _

lemma calm_freeproc (i : Pid) : Moves CalmTable (freeproc i) :=
  .bind (.read _) fun _ => .bind (calm_onMem _) fun _ =>
    calm_modProc fun _ => ⟨fun h => absurd h (by simp [Proc.clear]), fun _ => .inr ⟨rfl, rfl⟩⟩

lemma calm_allocproc : Moves CalmTable allocproc := by
  refine .bind (.read _) fun t => ?_
  cases findUnused t with
  | none => exact .pure _
  | some i =>
    have hField : ∀ g : Proc → Proc, (∀ p, (g p).killed = p.killed ∧ (g p).pid = p.pid ∧ (g p).state = p.state) →
        Moves CalmTable (modProc i g) := by
      intro g hg
      refine calm_modProc fun p => ?_
      obtain ⟨hKilled, hPid, hState⟩ := hg p
      exact Calm.of_same hKilled hPid (fun hUnused => hState ▸ hUnused)
    have hPid : Moves CalmTable allocpid := .bind (.read _) fun _ => .bind (.update fun _ _ => Calm.refl _) fun _ => .pure _
    refine .bind hPid fun pid => .bind (calm_modProc fun _ => Calm.of_used rfl ProcState.noConfusion) fun _ => ?_
    refine .bind (calm_onMem _) fun tf => .bind (hField _ fun _ => ⟨rfl, rfl, rfl⟩) fun _ => .ite ?_ ?_
    · exact .bind (calm_freeproc i) fun _ => .pure _
    · refine .bind (.read _) fun _ => .bind (calm_onMem _) fun pt => .bind (hField _ fun _ => ⟨rfl, rfl, rfl⟩) fun _ =>
        .ite (.bind (calm_freeproc i) fun _ => .pure _) ?_
      exact .bind (hField _ fun _ => ⟨rfl, rfl, rfl⟩) fun _ => .pure _

lemma calm_dupOfile (me np : Pid) (fd : Fd) : Moves CalmTable (dupOfile me np fd) := by
  refine .bind (.read _) fun p => ?_
  cases p.ofile fd with
  | none => exact .pure _
  | some f =>
    refine .bind (.bind (.read _) fun _ => .ite (.stop _) (.update fun _ _ => Calm.refl _)) fun _ => ?_
    exact calm_modProc fun _ => Calm.of_same rfl rfl id

lemma calm_kfork (me : Pid) : Moves CalmTable (kfork me) := by
  refine .bind calm_allocproc fun r => ?_
  cases r with
  | none => exact .pure _
  | some np =>
    refine .bind (.read _) fun p => .bind (.read _) fun q => .bind (calm_onMem _) fun ok => .ite ?_ ?_
    · exact .bind (calm_freeproc np) fun _ => .pure _
    · refine .bind (calm_modProc fun _ => Calm.of_same rfl rfl id) fun _ => .bind (calm_onMem _) fun _ =>
        .bind (.eachM fun fd => calm_dupOfile me np fd) fun _ => ?_
      cases p.cwd with
      | none => exact .stop _
      | some cwd =>
        exact .bind (calm_onFs _) fun _ => .bind (calm_modProc fun _ => Calm.of_same rfl rfl id) fun _ =>
          .bind (calm_modProc fun _ => Calm.of_used rfl ProcState.noConfusion) fun _ => .pure _

lemma Woken.calm {p p' : Proc} (h : Woken p p') : Calm p p' := by
  have hKilled := congrArg Proc.killed h.rest
  have hPid := congrArg Proc.pid h.rest
  refine Calm.of_same hKilled hPid fun hUnused => ?_
  obtain hEq | ⟨-, hRun⟩ := h.state
  · exact hEq ▸ hUnused
  · exact absurd (hRun.symm.trans hUnused) ProcState.noConfusion

lemma calm_wakeup (me : Pid) (chan : Chan) : Moves CalmTable (wakeup me chan) :=
  .update fun k j => (show Woken (k.proc j) (wakeOne me chan j (k.proc j)) from woken_wakeOne chan j _).calm

lemma calm_kexit (me : Pid) (status : Int32) : Moves CalmTable (kexit me status) := by
  have hReparent : Moves CalmTable (reparent me) := by
    refine .bind (.read _) fun init => .eachM fun pp => .bind (.read _) fun q => .ite ?_ (.pure _)
    refine .bind (calm_modProc fun _ => Calm.of_same rfl rfl id) fun _ => ?_
    cases init with
    | none => exact .pure _
    | some i => exact calm_wakeup me _
  refine .bind (.read _) fun k => .ite (.stop _) (.bind hReparent fun _ => .bind (.read _) fun p => ?_)
  have hEnd : Moves CalmTable (modProc me fun p => { p with xstate := status, state := .zombie }) :=
    calm_modProc fun _ => Calm.of_used rfl ProcState.noConfusion
  cases p.parent with
  | none => exact hEnd
  | some q => exact .bind (calm_wakeup me _) fun _ => hEnd

lemma calm_waitOn (me : Pid) (addr : Nat) (pp : Pid) : Moves CalmTable (waitOn me addr pp) := by
  refine .bind (.read _) fun q => .ite (.bind (.read _) fun p => .ite ?_ ?_) (.pure _)
  · exact .bind (.pure _) fun _ => .ite (.bind (calm_freeproc pp) fun _ => .pure _) (.pure _)
  · exact .bind (calm_onMem _) fun _ => .ite (.bind (calm_freeproc pp) fun _ => .pure _) (.pure _)

lemma calm_kwait (me : Pid) (addr : Nat) : Moves CalmTable (kwait me addr) := by
  refine .bind (.firstM fun pp => calm_waitOn me addr pp) fun r => ?_
  cases r with
  | some r => exact .pure _
  | none =>
    exact .bind (.read _) fun k => .ite (.pure _)
      (.bind (calm_modProc fun _ => Calm.of_used rfl ProcState.noConfusion) fun _ => .pure _)

lemma calm_trapReturn (me : Pid) (timer : Bool) : Moves CalmTable (trapReturn me timer) :=
  .bind (.read _) fun _ => .ite (calm_kexit me _)
    (.ite (calm_modProc fun _ => Calm.of_used rfl ProcState.noConfusion) (.pure _))

lemma calm_userinit : Moves CalmTable userinit := by
  refine .bind calm_allocproc fun r => ?_
  cases r with
  | none => exact .stop _
  | some i =>
    exact .bind (.update fun _ _ => Calm.refl _) fun _ => .bind (calm_onFs _) fun _ =>
      calm_modProc fun _ => Calm.of_used rfl ProcState.noConfusion

lemma calm_resume (me : Pid) (s : Susp) : Moves CalmTable (Xv6K230.resume me s) := by
  refine .bind (calm_modProc fun _ => Calm.of_same rfl rfl id) fun _ => ?_
  cases s with
  | first =>
    exact .bind (calm_onFs _) fun _ => .bind (calm_of_core (kexec_core _ _ _)) fun _ =>
      .ite (.stop _) (calm_of_core (setResult_core me _))
  | yielded => exact .pure _
  | wait addr =>
    refine .bind (calm_kwait me addr) fun r => ?_
    cases r with
    | none => exact .pure _
    | some r => exact .bind (calm_of_core (setResult_core me _)) fun _ => calm_trapReturn me false

end

/-! ## Kills -/

def Label.Kills (k : Kernel) (j : Pid) : Label → Prop
  | .trap _ _ (.syscall (.kill pid)) => (k.proc j).pid = pid
  | .trap i _ .other => i = j
  | _ => False

structure Marks (T : Pid → Prop) (k k' : Kernel) : Prop where
  pid : ∀ j, (k'.proc j).pid = (k.proc j).pid
  unused : ∀ j, (k'.proc j).state = .unused ↔ (k.proc j).state = .unused
  killed : ∀ j, (k'.proc j).killed = true → (k.proc j).killed = true ∨ T j

lemma Marks.of_proc {T : Pid → Prop} {k k' : Kernel} (h : k'.proc = k.proc) : Marks T k k' := by
  refine ⟨?_, ?_, ?_⟩ <;> rw [h]
  · exact fun _ => rfl
  · exact fun _ => Iff.rfl
  · exact fun _ => .inl

lemma kkill_marks {k : Kernel} (k0 : Kernel) (pid : Int32) (h : k.proc = k0.proc) :
    wp (kkill pid) (fun _ => True) (fun _ k' => Marks (fun j => (k0.proc j).pid = pid) k0 k') k := by
  simp only [kkill, wp_bind, wp_read]
  cases hFind : findPid k.proc pid with
  | none =>
    simp only [wp_pure]
    exact Marks.of_proc h
  | some i =>
    have hPid : (k.proc i).pid = pid := by simpa using List.find?_some hFind
    simp only [wp_bind, wp_modProc, wp_pure]
    refine ⟨fun j => ?_, fun j => ?_, fun j => ?_⟩ <;> rw [← h]
    · grind [setProc_proc_same, setProc_proc_of_ne]
    · grind [setProc_proc_same, setProc_proc_of_ne]
    · grind [setProc_proc_of_ne]

lemma calm_result (me : Pid) (r : Option Int) : Moves CalmTable (match r with
    | none => pure ()
    | some r => setResult me r >>= fun _ => trapReturn me false) := by
  cases r with
  | none => exact .pure _
  | some r => exact .bind (calm_of_core (setResult_core me r)) fun _ => calm_trapReturn me false

lemma usertrap_marks {k : Kernel} (me : Pid) (epc : Nat) {cause : Cause}
    (hCause : Label.Process (.trap me epc cause)) :
    wp (usertrap me epc cause) (fun _ => True) (fun _ k' => ∃ k1,
      Marks (fun j => Label.Kills k j (.trap me epc cause)) k k1 ∧ CalmTable k1 k') k := by
  -- a trap without a kill
  have hQuiet : ∀ {m : KM Unit} {k1 : Kernel}, k1.proc = k.proc → Moves CalmTable m →
      wp m (fun _ => True) (fun _ k' => ∃ k1, Marks (fun j => Label.Kills k j (.trap me epc cause)) k k1 ∧
        CalmTable k1 k') k1 := by
    intro m k1 hEq hm
    exact wp_post (hm k1) (fun _ k' hk' => ⟨k1, Marks.of_proc hEq, hk'⟩)
  simp only [usertrap, wp_bind, wp_getProc, wp_onMem, wp_update]
  cases cause with
  | syscall call =>
    have hEnd := calm_result me
    dsimp only
    split
    · exact hQuiet rfl (calm_kexit me _)
    · rw [wp_bind, wp_onMem, wp_update]
      cases call with
      | kill pid =>
        rw [wp_bind, syscall, wp_bind]
        refine wp_post (kkill_marks k pid rfl) ?_
        intro r k1 hMarks
        rw [wp_pure]
        exact wp_post (hEnd (some r.toInt) k1) (fun _ k' hk' => ⟨k1, hMarks, hk'⟩)
      | fork =>
        refine hQuiet (m := syscall me .fork >>= _) rfl (.bind ?_ hEnd)
        exact .bind (calm_kfork me) fun _ => .pure _
      | exit status =>
        refine hQuiet (m := syscall me (.exit status) >>= _) rfl (.bind ?_ hEnd)
        exact .bind (calm_kexit me status) fun _ => .pure _
      | wait addr =>
        refine hQuiet (m := syscall me (.wait addr) >>= _) rfl (.bind ?_ hEnd)
        exact .bind (calm_kwait me addr) fun _ => .pure _
      | exec path uargv =>
        refine hQuiet (m := syscall me (.exec path uargv) >>= _) rfl (.bind ?_ hEnd)
        exact .bind (calm_of_core (sysExec_core me path uargv)) fun _ => .pure _
      | sbrk n t =>
        refine hQuiet (m := syscall me (.sbrk n t) >>= _) rfl (.bind ?_ hEnd)
        exact .bind (calm_of_core (sysSbrk_core me n t)) fun _ => .pure _
      | pipe | chdir | dup | «open» | write | mknod | unlink | link | mkdir | close => exact hCause.elim
  | timer => exact hQuiet rfl (calm_trapReturn me true)
  | device => exact hQuiet rfl (calm_trapReturn me false)
  | pageFault stval =>
    exact hQuiet (m := onMem _ >>= _) rfl (.bind (calm_onMem _) fun _ => calm_trapReturn me false)
  | other =>
    simp only [setkilled, wp_bind, wp_modProc]
    refine wp_post (calm_trapReturn me false _) (fun _ k' hk' => ⟨_, ⟨fun j => ?_, fun j => ?_, fun j => ?_⟩, hk'⟩)
    · by_cases hj : j = me
      · rw [hj, setProc_proc_same]
        rfl
      · rw [setProc_proc_of_ne _ hj]
        rfl
    · by_cases hj : j = me
      · rw [hj, setProc_proc_same]
        exact Iff.rfl
      · rw [setProc_proc_of_ne _ hj]
        exact Iff.rfl
    · by_cases hj : j = me
      · exact fun _ => .inr hj.symm
      · rw [setProc_proc_of_ne _ hj]
        exact .inl

lemma Step.marks {k k' : Kernel} {l : Label} (h : Step k l k') (hl : l.Process) :
    ∃ k1, Marks (fun j => l.Kills k j) k k1 ∧ CalmTable k1 k' := by
  have hQuiet : ∀ {m : KM Unit}, Moves CalmTable m → m k = .ok ((), k') →
      ∃ k1, Marks (fun j => l.Kills k j) k k1 ∧ CalmTable k1 k' :=
    fun hm hr => ⟨k, Marks.of_proc rfl, hm.of_ok hr⟩
  cases h with
  | kvminit h hr => exact hQuiet (calm_of_core (kvminit_core _)) hr
  | userinit h hr => exact hQuiet calm_userinit hr
  | @schedule i h =>
    refine ⟨k, Marks.of_proc rfl, ?_⟩
    exact (calm_modProc (i := i) (f := fun p => { p with state := .running })
      (fun _ => Calm.of_used rfl ProcState.noConfusion)).of_ok rfl
  | trap h hs hr =>
    have hOk := wp_ok (usertrap_marks _ _ hl) hr
    exact hOk
  | resume h hs hr => exact hQuiet (calm_resume _ _) hr

def FreshSlots (k : Kernel) : Prop :=
  ∀ j, (k.proc j).state = .unused → (k.proc j).pid = 0 ∧ (k.proc j).killed = false

lemma FreshSlots.marks {T : Pid → Prop} {k k' : Kernel} (hk : FreshSlots k) (h : Marks T k k')
    (hT : ∀ j, T j → (k.proc j).state ≠ .unused) : FreshSlots k' := by
  intro j hj
  have hUnused := (h.unused j).mp hj
  obtain ⟨hPid, hKilled⟩ := hk j hUnused
  refine ⟨(h.pid j).trans hPid, ?_⟩
  cases hFlag : (k'.proc j).killed with
  | false => rfl
  | true =>
    grind [h.killed]

lemma FreshSlots.calm {k k' : Kernel} (hk : FreshSlots k) (h : CalmTable k k') : FreshSlots k' := by
  intro j hj
  obtain ⟨hUnused, hPid⟩ | hFresh := (h j).unused hj
  · obtain ⟨hZero, hKilled⟩ := hk j hUnused
    refine ⟨hPid.trans hZero, ?_⟩
    cases hFlag : (k'.proc j).killed with
    | false => rfl
    | true =>
      rw [(h j).killed hFlag] at hKilled
      cases hKilled
  · exact hFresh

def Label.KillsLive : Label → Prop
  | .trap _ _ (.syscall (.kill pid)) => pid ≠ 0
  | l => l.Process

lemma Label.KillsLive.process {l : Label} (h : l.KillsLive) : l.Process := by
  cases l with
  | trap i epc cause =>
    cases cause with
    | syscall call => cases call <;> first | exact h | trivial
    | _ => trivial
  | _ => trivial

lemma kills_used {k k' : Kernel} (hk : FreshSlots k) {l : Label} (hl : l.KillsLive) (hStep : Step k l k') (j : Pid)
    (h : l.Kills k j) : (k.proc j).state ≠ .unused := by
  intro hUnused
  cases hStep with
  | @trap _ i epc cause hRun =>
    cases cause with
    | syscall call =>
      cases call with
      | kill pid => exact hl (h.symm.trans (hk j hUnused).1)
      | _ => exact h
    | other =>
      rw [show i = j from h, hUnused] at hRun
      cases hRun
    | _ => exact h
  | _ => exact h

lemma Step.freshSlots {k k' : Kernel} {l : Label} (h : Step k l k') (hl : l.KillsLive) (hk : FreshSlots k) :
    FreshSlots k' := by
  obtain ⟨k1, hMarks, hCalm⟩ := h.marks hl.process
  exact (hk.marks hMarks (kills_used hk hl h)).calm hCalm

lemma Reaches.freshSlots {k : Kernel} (h : Reaches (fun _ l => l.KillsLive) k) : FreshSlots k := by
  refine h.invariant (fun k hk j _ => ?_) (fun _ _ _ hk hl hStep => hStep.freshSlots hl hk)
  rw [hk.proc]
  exact ⟨rfl, rfl⟩

/-- In a run that never kills pid 0: a kill that succeeds finds a process with that pid
and changes no other entry, a new process starts with a clear flag, and a flag is only
set by a kill of that process or by its own fault. -/
theorem kill_only_target {k : Kernel} (h : Reaches (fun _ l => l.KillsLive) k) :
    (∀ pid r k', pid ≠ 0 → kkill pid k = .ok (r, k') →
      r = -1 ∧ k' = k ∨
      r = 0 ∧ ∃ j, (k.proc j).state ≠ .unused ∧ (k.proc j).pid = pid ∧ ∀ i, i ≠ j → k'.proc i = k.proc i) ∧
    (∀ me r k', kfork me k = .ok (r, k') → ∀ np, (k.proc np).state = .unused → (k'.proc np).killed = false) ∧
    ∀ l k', l.KillsLive → Step k l k' → ∀ j, (k.proc j).killed = false → ¬ l.Kills k j → (k'.proc j).killed = false := by
  have hFresh := h.freshSlots
  refine ⟨?_, ?_, ?_⟩
  · intro pid r k' hpid hr
    have hSpec : wp (kkill pid) (fun _ => True) (fun r k' => r = -1 ∧ k' = k ∨
        r = 0 ∧ ∃ j, (k.proc j).state ≠ .unused ∧ (k.proc j).pid = pid ∧ ∀ i, i ≠ j → k'.proc i = k.proc i) k := by
      simp only [kkill, wp_bind, wp_read]
      cases hFind : findPid k.proc pid with
      | none =>
        rw [wp_pure]
        exact .inl ⟨rfl, rfl⟩
      | some j =>
        have hPid : (k.proc j).pid = pid := by simpa using List.find?_some hFind
        simp only [wp_bind, wp_modProc]
        rw [wp_pure]
        refine .inr ⟨rfl, j, fun hUnused => ?_, hPid, fun i hi => setProc_proc_of_ne _ hi⟩
        exact hpid (hPid.symm.trans (hFresh j hUnused).1)
    have hOk := wp_ok hSpec hr
    exact hOk
  · intro me r k' hr np hUnused
    have hCalm := (calm_kfork me).of_ok hr
    cases hFlag : (k'.proc np).killed with
    | false => rfl
    | true =>
      have hOld := (hCalm np).killed hFlag
      rw [(hFresh np hUnused).2] at hOld
      cases hOld
  · intro l k' hl hStep j hClear hNot
    obtain ⟨k1, hMarks, hCalm⟩ := hStep.marks hl.process
    cases hFlag : (k'.proc j).killed with
    | false => rfl
    | true =>
      obtain hOld | hIn := hMarks.killed j ((hCalm j).killed hFlag)
      · rw [hOld] at hClear
        cases hClear
      · exact absurd hIn hNot

lemma childKilled_killsLive : ∀ l ∈ Sample.start ++ Sample.childKilled, ∀ s, ExitsClosed s l → l.KillsLive := by
  intro l hl _ _
  simp only [Sample.start, Sample.childKilled, List.cons_append, List.nil_append, List.mem_cons, List.not_mem_nil, or_false] at hl
  obtain rfl | rfl | rfl | rfl | rfl | rfl | rfl | rfl := hl <;> first | trivial | exact (by decide : (2 : Int32) ≠ 0)

/-- A child was killed and reaped, and the next one gets its slot. -/
theorem kill_only_target_init : ∃ k r k', Reaches (fun _ l => l.KillsLive) k ∧ kfork Sample.init k = .ok (r, k') ∧
    (k.proc Sample.child).state = .unused ∧ (k'.proc Sample.child).state = .runnable ∧
    (k'.proc Sample.child).killed = false := by
  obtain ⟨-, -, -, hKilled, -⟩ := Sample.run_start
  obtain ⟨k, r, k', hReach, -, hFree, -, hr, hRunnable⟩ := Sample.reuses_slot hKilled childKilled_killsLive
  exact ⟨k, r, k', hReach, hr, hFree, hRunnable, (kill_only_target hReach).2.1 _ r k' hr _ hFree⟩

/-- `kill(0)` succeeds although no process has pid 0: it marks a free slot, and the next
child is born killed. -/
theorem kill_zero_dooms_child : Reaches (fun _ l => l.Process) Sample.atWork ∧
    (∀ j, (Sample.atWork.proc j).state ≠ .unused → (Sample.atWork.proc j).pid ≠ 0) ∧
    ∃ k1, kkill 0 Sample.atWork = .ok (0, k1) ∧
      ∃ r k2, kfork Sample.init k1 = .ok (r, k2) ∧ (k2.proc Sample.child).state = .runnable ∧
        (k2.proc Sample.child).killed = true := by
  obtain ⟨-, -, -, -, -, hKills, -⟩ := Sample.run_start
  simp only [Sample.killsNobody, Bool.and_eq_true, List.all_eq_true, List.mem_finRange, true_implies,
    Bool.or_eq_true, decide_eq_true_eq] at hKills
  obtain ⟨hPids, hKill⟩ := hKills
  obtain ⟨r, k1, hr, hTest⟩ := Sample.exists_of_returns hKill
  simp only [Bool.and_eq_true, decide_eq_true_eq] at hTest
  obtain ⟨rfl, hFork⟩ := hTest
  obtain ⟨r', k2, hr', hChild⟩ := Sample.exists_of_returns hFork
  simp only [Bool.and_eq_true, decide_eq_true_eq] at hChild
  exact ⟨Sample.reaches_atWork Sample.start_process, fun j hj => (hPids j).resolve_left hj, k1, hr, r', k2, hr', hChild⟩

end Xv6K230
