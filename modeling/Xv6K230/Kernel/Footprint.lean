import Xv6K230.Kernel.Trap

/-! # What a call can change in the process table

Calls that work on memory leave everything but sizes, tables and names alone.
-/

namespace Xv6K230

open Vm Fs Prog

def Proc.core (p : Proc) : Proc :=
  { p with sz := 0, pagetable := 0, trapframe := 0, name := [] }

def SameCore (k k' : Kernel) : Prop := ∀ j, (k'.proc j).core = (k.proc j).core

instance : Std.Refl SameCore := ⟨fun _ _ => rfl⟩

instance : IsTrans Kernel SameCore := ⟨fun _ _ _ h1 h2 j => (h2 j).trans (h1 j)⟩

section

variable {R : Kernel → Kernel → Prop} {α : Type}

lemma moves_onMem {m : MemM α} (h : ∀ k t, R k (k.setMem t)) : Moves R (onMem m) :=
  fun k => (wp_onMem m).mpr (wp_mono (wp_true m k.mem) (fun _ h => h) (fun _ t _ => h k t))

lemma moves_onFs {m : FsM α} (h : ∀ k t, R k (k.setFs t)) : Moves R (onFs m) :=
  fun k => (wp_onFs m).mpr (wp_mono (wp_true m k.fs) (fun _ h => h) (fun _ t _ => h k t))

lemma moves_modProc {i : Pid} {f : Proc → Proc} (h : ∀ k, R k (k.setProc i (f (k.proc i)))) :
    Moves R (modProc i f) := .update h

lemma core_onMem (m : MemM α) : Moves SameCore (onMem m) := moves_onMem fun _ _ _ => rfl

lemma core_onFs (m : FsM α) : Moves SameCore (onFs m) := moves_onFs fun _ _ _ => rfl

lemma core_modProc {i : Pid} {f : Proc → Proc} (h : ∀ p, (f p).core = p.core) : Moves SameCore (modProc i f) := by
  refine moves_modProc fun k j => ?_
  by_cases hj : j = i
  · rw [hj, setProc_proc_same, h]
  · rw [setProc_proc_of_ne _ hj]

lemma growproc_core (me : Pid) (n : Int32) : Moves SameCore (growproc me n) := by
  refine .bind (.read _) fun p => .ite (.ite (.pure _) (.bind (core_onMem _) fun sz => .ite (.pure _) ?_)) ?_
  · exact .bind (core_modProc fun _ => rfl) fun _ => .pure _
  · exact .ite (.bind (core_onMem _) fun _ => .bind (core_modProc fun _ => rfl) fun _ => .pure _) (.pure _)

lemma sysSbrk_core (me : Pid) (n t : Int32) : Moves SameCore (sysSbrk me n t) := by
  refine .bind (.read _) fun p => .ite (.bind (growproc_core me n) fun _ => .ite (.pure _) (.pure _)) ?_
  exact .ite (.pure _) (.ite (.pure _) (.bind (core_modProc fun _ => rfl) fun _ => .pure _))

lemma loadsegLoop_core (pagetable va : Nat) (ip : Ip) (offset sz : Nat) : ∀ fuel i,
    Moves SameCore (loadsegLoop pagetable va ip offset sz fuel i) := by
  intro fuel
  induction fuel with
  | zero => exact fun _ => .pure _
  | succ fuel ih =>
    intro i
    refine .ite (.bind (core_onMem _) fun pa => .ite (.stop _) (.bind (core_onFs _) fun r => ?_)) (.pure _)
    exact .bind (core_onMem _) fun _ => .ite (.pure _) (ih _)

lemma loadSegments_core (pagetable : Nat) (ip : Ip) : ∀ n off sz,
    Moves SameCore (loadSegments pagetable ip n off sz) := by
  intro n
  induction n with
  | zero => exact fun _ _ => .pure _
  | succ n ih =>
    intro off sz
    refine .bind (core_onFs _) fun r => .ite (.pure _) (.ite (ih _ _) (.ite (.pure _) (.ite (.pure _) ?_)))
    refine .bind (core_onMem _) fun sz1 => .ite (.pure _) (.bind (loadsegLoop_core _ _ _ _ _ _ _) fun _ => ?_)
    exact .ite (ih _ _) (.pure _)

lemma execBadLocked_core (pagetable sz : Nat) (ip : Ip) : Moves SameCore (execBadLocked pagetable sz ip) :=
  .ite (.bind (core_onMem _) fun _ => .bind (core_onFs _) fun _ => .bind (core_onFs _) fun _ => .pure _)
    (.bind (core_onFs _) fun _ => .bind (core_onFs _) fun _ => .pure _)

lemma execCommit_core (me : Pid) (path : Text) (argv : List Text) (pagetable sz entry : Nat) :
    Moves SameCore (execCommit me path argv pagetable sz entry) := by
  refine .bind (.read _) fun p => .bind (core_onMem _) fun r => ?_
  obtain ⟨sz, _ | sp⟩ := r
  · exact .bind (core_onMem _) fun _ => .pure _
  · exact .bind (core_onMem _) fun _ => .bind (core_modProc fun _ => rfl) fun _ =>
      .bind (core_onMem _) fun _ => .pure _

lemma kexec_core (me : Pid) (path : Text) (argv : List Text) :
    Moves SameCore (kexec me path argv) := by
  refine .bind (.read _) fun p => ?_
  cases p.cwd with
  | none => exact .pure _
  | some cwd =>
    refine .bind (core_onFs _) fun _ => .bind (core_onFs _) fun r => ?_
    cases r with
    | none => exact .bind (core_onFs _) fun _ => .pure _
    | some ip =>
      refine .bind (core_onFs _) fun _ => .bind (core_onFs _) fun r => .ite (execBadLocked_core _ _ _) ?_
      refine .bind (.read _) fun tramp => .bind (core_onMem _) fun pagetable => .ite (execBadLocked_core _ _ _) ?_
      refine .bind (loadSegments_core _ _ _ _ _) fun r => .ite ?_ (execBadLocked_core _ _ _)
      exact .bind (core_onFs _) fun _ => .bind (core_onFs _) fun _ => execCommit_core _ _ _ _ _ _

lemma sysExec_core (me : Pid) (path : Option Text) (uargv : Nat) :
    Moves SameCore (sysExec me path uargv) := by
  cases path with
  | none => exact .pure _
  | some path =>
    refine .bind (.read _) fun p => .bind (core_onMem _) fun r => ?_
    obtain ⟨pages, strs⟩ := r
    refine .bind ?_ fun ret => .bind (core_onMem _) fun _ => .pure _
    cases strs with
    | none => exact .pure _
    | some argv => exact kexec_core me path argv

lemma kvminit_core (etext : Nat) : Moves SameCore (kvminit etext) :=
  .bind (.read _) fun _ => .bind (core_onMem _) fun _ => .update fun _ _ => rfl

lemma setResult_core (me : Pid) (r : Int) : Moves SameCore (setResult me r) :=
  .bind (.read _) fun _ => core_onMem _

/-- `forkret` of the first process. -/
lemma first_core (me : Pid) : Moves SameCore (onFs (ireclaim rootdev) >>= fun _ =>
    kexec me (slash :: initName) [slash :: initName] >>= fun r => if r = -1 then Prog.stop .exec else setResult me r) :=
  .bind (core_onFs _) fun _ => .bind (kexec_core _ _ _) fun _ => .ite (.stop _) (setResult_core me _)

end

/-! ## Calls on files -/

structure Woken (p p' : Proc) : Prop where
  state : p'.state = p.state ∨ p.state = .sleeping ∧ p'.state = .runnable
  rest : { p' with state := p.state, ofile := p.ofile, cwd := p.cwd } = p

lemma Woken.refl (p : Proc) : Woken p p := ⟨.inl rfl, rfl⟩

lemma Woken.trans {p p1 p2 : Proc} (h1 : Woken p p1) (h2 : Woken p1 p2) : Woken p p2 := by
  obtain ⟨hState1, hRest1⟩ := h1
  obtain ⟨hState2, hRest2⟩ := h2
  refine ⟨?_, ?_⟩
  · grind
  · cases p
    cases p1
    cases p2
    simp_all

def FileCall (me : Pid) (k k' : Kernel) : Prop :=
  ∀ j, Woken (k.proc j) (k'.proc j) ∧
    (j ≠ me → (k'.proc j).ofile = (k.proc j).ofile ∧ (k'.proc j).cwd = (k.proc j).cwd)

section

variable {me : Pid} {α : Type}

instance : Std.Refl (FileCall me) := ⟨fun _ _ => ⟨Woken.refl _, fun _ => ⟨rfl, rfl⟩⟩⟩

instance : IsTrans Kernel (FileCall me) :=
  ⟨fun _ _ _ h1 h2 j => ⟨(h1 j).1.trans (h2 j).1, fun hj =>
    ⟨((h2 j).2 hj).1.trans ((h1 j).2 hj).1, ((h2 j).2 hj).2.trans ((h1 j).2 hj).2⟩⟩⟩

lemma file_onMem (m : MemM α) : Moves (FileCall me) (onMem m) :=
  moves_onMem fun _ _ _ => ⟨Woken.refl _, fun _ => ⟨rfl, rfl⟩⟩

lemma file_onFs (m : FsM α) : Moves (FileCall me) (onFs m) :=
  moves_onFs fun _ _ _ => ⟨Woken.refl _, fun _ => ⟨rfl, rfl⟩⟩

lemma file_modFile (f : Fp) (g : File → File) : Moves (FileCall me) (modFile f g) :=
  .update fun _ _ => ⟨Woken.refl _, fun _ => ⟨rfl, rfl⟩⟩

lemma file_setPipe (pi : Nat) (v : Kernel → Pipe) :
    Moves (FileCall me) (Prog.update fun k => k.setPipe pi (v k) : KM Unit) :=
  .update fun _ _ => ⟨Woken.refl _, fun _ => ⟨rfl, rfl⟩⟩

lemma file_setOfile (fd : Fd) (v : Option Fp) : Moves (FileCall me) (setOfile me fd v) := by
  refine moves_modProc fun k j => ?_
  by_cases hj : j = me
  · subst hj
    rw [setProc_proc_same]
    exact ⟨⟨.inl rfl, rfl⟩, fun hne => absurd rfl hne⟩
  · rw [setProc_proc_of_ne _ hj]
    exact ⟨Woken.refl _, fun _ => ⟨rfl, rfl⟩⟩

lemma woken_wakeOne (chan : Chan) (j : Pid) (p : Proc) : Woken p (wakeOne me chan j p) := by
  unfold wakeOne
  split
  · rename_i h
    exact ⟨.inr ⟨h.2.1, rfl⟩, rfl⟩
  · exact Woken.refl p

lemma wakeOne_files (chan : Chan) (j : Pid) (p : Proc) :
    (wakeOne me chan j p).ofile = p.ofile ∧ (wakeOne me chan j p).cwd = p.cwd := by
  unfold wakeOne
  split <;> exact ⟨rfl, rfl⟩

lemma file_wakeup (chan : Chan) : Moves (FileCall me) (wakeup me chan) :=
  .update fun k j => ⟨woken_wakeOne chan j (k.proc j), fun _ => wakeOne_files chan j (k.proc j)⟩

lemma file_filealloc : Moves (FileCall me) filealloc := by
  refine .bind (.read _) fun t => ?_
  split
  · exact .pure _
  · exact .bind (file_modFile _ _) fun _ => .pure _

lemma file_filedup (f : Fp) : Moves (FileCall me) (filedup f) :=
  .bind (.read _) fun _ => .ite (.stop _) (file_modFile _ _)

lemma file_pipeclose (pi : Nat) (writable : Bool) : Moves (FileCall me) (pipeclose me pi writable) := by
  have hEnd : Moves (FileCall me) ((Prog.read fun k : Kernel => k.pipes pi) >>= fun v =>
      if (!v.readopen && !v.writeopen) = true then onMem (kfree pi) else pure ()) :=
    .bind (.read _) fun _ => .ite (file_onMem _) (.pure _)
  exact .ite (.bind (file_setPipe pi _) fun _ => .bind (file_wakeup _) fun _ => hEnd)
    (.bind (file_setPipe pi _) fun _ => .bind (file_wakeup _) fun _ => hEnd)

lemma file_fileclose (f : Fp) : Moves (FileCall me) (fileclose me f) := by
  refine .bind (.read _) fun ff => .ite (.stop _) (.ite (file_modFile _ _) (.bind (file_modFile _ _) fun _ => ?_))
  cases ff.type with
  | pipe => exact file_pipeclose _ _
  | inode | device => exact .bind (file_onFs _) fun _ => .bind (file_onFs _) fun _ => file_onFs _
  | none => exact .pure _

lemma file_pipeallocBad (f0 f1 : Option Fp) : Moves (FileCall me) (pipeallocBad me f0 f1) := by
  cases f0 <;> cases f1
  · exact .pure _
  · exact .bind (file_fileclose _) fun _ => .pure _
  · exact .bind (file_fileclose _) fun _ => .pure _
  · exact .bind (file_fileclose _) fun _ => .bind (file_fileclose _) fun _ => .pure _

lemma file_pipealloc : Moves (FileCall me) (pipealloc me) := by
  refine .bind file_filealloc fun r0 => ?_
  cases r0 with
  | none => exact file_pipeallocBad _ _
  | some f0 =>
    refine .bind file_filealloc fun r1 => ?_
    cases r1 with
    | none => exact file_pipeallocBad _ _
    | some f1 =>
      refine .bind (file_onMem _) fun pi => .ite (file_pipeallocBad _ _) ?_
      exact .bind (file_setPipe pi _) fun _ => .bind (file_modFile _ _) fun _ => .bind (file_modFile _ _) fun _ =>
        .pure _

lemma file_argfd (fd : Int32) : Moves (FileCall me) (argfd me fd) := by
  refine .bind (.read _) fun p => ?_
  split <;> exact .pure _

lemma file_fdalloc (f : Fp) : Moves (FileCall me) (fdalloc me f) := by
  refine .bind (.read _) fun p => ?_
  split
  · exact .pure _
  · exact .bind (file_setOfile _ _) fun _ => .pure _

lemma file_sysDup (fd : Int32) : Moves (FileCall me) (sysDup me fd) := by
  refine .bind (file_argfd fd) fun r => ?_
  cases r with
  | none => exact .pure _
  | some r =>
    refine .bind (file_fdalloc r.2) fun r' => ?_
    cases r' with
    | none => exact .pure _
    | some fd => exact .bind (file_filedup _) fun _ => .pure _

lemma file_sysClose (fd : Int32) : Moves (FileCall me) (sysClose me fd) := by
  refine .bind (file_argfd fd) fun r => ?_
  cases r with
  | none => exact .pure _
  | some r => exact .bind (file_setOfile _ _) fun _ => .bind (file_fileclose _) fun _ => .pure _

lemma file_filewriteLoop (f : Fp) (src : CopyIn) (n : Nat) : ∀ fuel i,
    Moves (FileCall me) (filewriteLoop f src n fuel i) := by
  intro fuel
  induction fuel with
  | zero => exact fun _ => .pure _
  | succ fuel ih =>
    intro i
    refine .ite (.bind (.read _) fun v => .bind (file_onFs _) fun _ => .bind (file_onFs _) fun _ =>
      .bind (file_onFs _) fun r => .ite (.bind (file_modFile _ _) fun _ => ?_) ?_) (.pure _)
    · exact .bind (file_onFs _) fun _ => .bind (file_onFs _) fun _ => .ite (.pure _) (ih _)
    · exact .bind (file_onFs _) fun _ => .bind (file_onFs _) fun _ => .ite (.pure _) (ih _)

lemma file_sysWrite (fd : Int32) (src : CopyIn) (n : Int32) (other : Int) :
    Moves (FileCall me) (sysWrite me fd src n other) := by
  refine .bind (file_argfd fd) fun r => ?_
  cases r with
  | none => exact .pure _
  | some r =>
    refine .bind (.read _) fun v => .ite (.pure _) ?_
    cases v.type with
    | pipe | device => exact .pure _
    | inode => exact .ite (.pure _) (file_filewriteLoop _ _ _ _ _)
    | none => exact .stop _

lemma file_openInode (ip : Ip) (omode : Nat) : Moves (FileCall me) (openInode me ip omode) := by
  have hBad : Moves (FileCall me) (onFs (iunlockput ip) >>= fun _ => onFs endOp >>= fun _ => pure (-1 : Int)) :=
    .bind (file_onFs _) fun _ => .bind (file_onFs _) fun _ => .pure _
  refine .bind (.read _) fun i => .ite hBad (.bind file_filealloc fun r => ?_)
  cases r with
  | none => exact hBad
  | some f =>
    refine .bind (file_fdalloc f) fun r => ?_
    cases r with
    | none => exact .bind (file_fileclose f) fun _ => hBad
    | some fd =>
      have hEnd : Moves (FileCall me) (onFs (iunlock ip) >>= fun _ => onFs endOp >>= fun _ => pure (fd.val : Int)) :=
        .bind (file_onFs _) fun _ => .bind (file_onFs _) fun _ => .pure _
      have hRest : Moves (FileCall me) (modFile f (fun v => { v with
          ip := ip
          readable := omode &&& oWronly = 0
          writable := omode &&& oWronly ≠ 0 ∨ omode &&& oRdwr ≠ 0 }) >>= fun _ =>
          if omode &&& oTrunc ≠ 0 ∧ i.di.type = tFile then
            onFs (itrunc ip) >>= fun _ => onFs (iunlock ip) >>= fun _ => onFs endOp >>= fun _ => pure (fd.val : Int)
          else onFs (iunlock ip) >>= fun _ => onFs endOp >>= fun _ => pure (fd.val : Int)) :=
        .bind (file_modFile _ _) fun _ => .ite (.bind (file_onFs _) fun _ => hEnd) hEnd
      exact .ite (.bind (file_modFile _ _) fun _ => hRest) (.bind (file_modFile _ _) fun _ => hRest)

lemma file_sysOpen (path : Option Text) (omode : Nat) : Moves (FileCall me) (sysOpen me path omode) := by
  refine .bind (.read _) fun p => ?_
  split
  · exact .pure _
  · exact .stop _
  · refine .bind (file_onFs _) fun _ => .ite (.bind (file_onFs _) fun r => ?_) (.bind (file_onFs _) fun r => ?_)
    · cases r with
      | none => exact .bind (file_onFs _) fun _ => .pure _
      | some ip => exact file_openInode ip omode
    · cases r with
      | none => exact .bind (file_onFs _) fun _ => .pure _
      | some ip =>
        refine .bind (file_onFs _) fun _ => .bind (.read _) fun i => .ite ?_ (file_openInode ip omode)
        exact .bind (file_onFs _) fun _ => .bind (file_onFs _) fun _ => .pure _

lemma file_sysChdir (path : Option Text) : Moves (FileCall me) (sysChdir me path) := by
  refine .bind (file_onFs _) fun _ => .bind (.read _) fun p => ?_
  split
  · exact .bind (file_onFs _) fun _ => .pure _
  · exact .stop _
  · refine .bind (file_onFs _) fun r => ?_
    cases r with
    | none => exact .bind (file_onFs _) fun _ => .pure _
    | some ip =>
      refine .bind (file_onFs _) fun _ => .bind (.read _) fun i => .ite ?_ ?_
      · exact .bind (file_onFs _) fun _ => .bind (file_onFs _) fun _ => .pure _
      · refine .bind (file_onFs _) fun _ => .bind (file_onFs _) fun _ => .bind (file_onFs _) fun _ =>
          .bind ?_ fun _ => .pure _
        refine moves_modProc fun k j => ?_
        by_cases hj : j = me
        · subst hj
          rw [setProc_proc_same]
          exact ⟨⟨.inl rfl, rfl⟩, fun hne => absurd rfl hne⟩
        · rw [setProc_proc_of_ne _ hj]
          exact ⟨Woken.refl _, fun _ => ⟨rfl, rfl⟩⟩

lemma file_withCwd (call : Ip → FsM Int) : Moves (FileCall me) (withCwd me call) := by
  refine .bind (.read _) fun p => ?_
  cases p.cwd with
  | none => exact .stop _
  | some cwd => exact file_onFs _

lemma file_pipeUndo (fds : List Fd) (rf wf : Fp) : Moves (FileCall me) (pipeUndo me fds rf wf) :=
  .bind (.eachM fun _ => file_setOfile _ _) fun _ => .bind (file_fileclose _) fun _ =>
    .bind (file_fileclose _) fun _ => .pure _

lemma file_sysPipe (fdarray : Nat) : Moves (FileCall me) (sysPipe me fdarray) := by
  refine .bind file_pipealloc fun r => ?_
  cases r with
  | none => exact .pure _
  | some r =>
    refine .bind (file_fdalloc _) fun r0 => ?_
    cases r0 with
    | none => exact file_pipeUndo _ _ _
    | some fd0 =>
      refine .bind (file_fdalloc _) fun r1 => ?_
      cases r1 with
      | none => exact file_pipeUndo _ _ _
      | some fd1 =>
        refine .bind (.read _) fun p => .bind (file_onMem _) fun ok => .ite (.bind (file_onMem _) fun ok => ?_) ?_
        · exact .ite (.pure _) (file_pipeUndo _ _ _)
        · exact .bind (.pure _) fun ok => .ite (.pure _) (file_pipeUndo _ _ _)

def Call.Files : Call → Prop
  | .fork | .exit _ | .wait _ | .kill _ | .exec .. | .sbrk .. => False
  | _ => True

lemma file_syscall {call : Call} (h : call.Files) : Moves (FileCall me) (syscall me call) := by
  cases call with
  | pipe fdarray => exact .bind (file_sysPipe fdarray) fun _ => .pure _
  | chdir path => exact .bind (file_sysChdir path) fun _ => .pure _
  | dup fd => exact .bind (file_sysDup fd) fun _ => .pure _
  | «open» path omode => exact .bind (file_sysOpen path omode) fun _ => .pure _
  | write fd src n other => exact .bind (file_sysWrite fd src n other) fun _ => .pure _
  | mknod path major minor => exact .bind (file_withCwd _) fun _ => .pure _
  | unlink path => exact .bind (file_withCwd _) fun _ => .pure _
  | link old new => exact .bind (file_withCwd _) fun _ => .pure _
  | mkdir path => exact .bind (file_withCwd _) fun _ => .pure _
  | close fd => exact .bind (file_sysClose fd) fun _ => .pure _
  | fork | exit | wait | kill | exec | sbrk => exact h.elim

end

end Xv6K230
