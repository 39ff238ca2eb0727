import Xv6K230.Kernel.Exec

/-! # Traps and runs

`usertrap` of `trap.c` with the system calls behind it, and the machine as a transition
system: the scheduler picks processes, a running process traps into the kernel, and a
process that gave up its CPU inside the kernel continues where it stopped.
-/

namespace Xv6K230

open Vm Fs Riscv

/-- A system call with its fetched arguments. A path is none if `argstr` fails. -/
inductive Call where
  | fork
  | exit (status : Int32)
  | wait (addr : Nat)
  | pipe (fdarray : Nat)
  | kill (pid : Int32)
  | exec (path : Option Text) (uargv : Nat)
  | chdir (path : Option Text)
  | dup (fd : Int32)
  | sbrk (n t : Int32)
  | open (path : Option Text) (omode : Nat)
  | write (fd : Int32) (src : CopyIn) (n : Int32) (other : Int)
  | mknod (path : Option Text) (major minor : Int16)
  | unlink (path : Option Text)
  | link (old new : Option Text)
  | mkdir (path : Option Text)
  | close (fd : Int32)

def sysSbrk (me : Pid) (n t : Int32) : KM Int := do
  let p ← getProc me
  if t = 1 ∨ n < 0 then
    if ← growproc me n then return p.sz else return -1
  else if uint64 (p.sz + n.toInt.toNat) < p.sz then
    return -1
  else if uint64 (p.sz + n.toInt.toNat) > trapframeVa then
    return -1
  else
    modProc me fun p => { p with sz := uint64 (p.sz + n.toInt.toNat) }
    return p.sz

/-- The result of a system call; none if the process does not return from it now. -/
def syscall (me : Pid) : Call → KM (Option Int)
  | .fork => do return some (← kfork me).toInt
  | .exit status => do
    kexit me status
    return none
  | .wait addr => do return (← kwait me addr).map Int32.toInt
  | .pipe fdarray => do return some (← sysPipe me fdarray)
  | .kill pid => do return some (← kkill pid).toInt
  | .exec path uargv => do return some (← sysExec me path uargv)
  | .chdir path => do return some (← sysChdir me path)
  | .dup fd => do return some (← sysDup me fd)
  | .sbrk n t => do return some (← sysSbrk me n t)
  | .open path omode => do return some (← sysOpen me path omode)
  | .write fd src n other => do return some (← sysWrite me fd src n other)
  | .mknod path major minor => do return some (← withCwd me fun cwd => sysMknod cwd path major minor)
  | .unlink path => do return some (← withCwd me fun cwd => sysUnlink cwd path)
  | .link old new => do return some (← withCwd me fun cwd => sysLink cwd old new)
  | .mkdir path => do return some (← withCwd me fun cwd => sysMkdir cwd path)
  | .close fd => do return some (← sysClose me fd)

inductive Cause where
  | syscall (call : Call) -- scause 8
  | timer -- devintr() = 2
  | device -- devintr() = 1
  | pageFault (stval : Nat) -- scause 13 or 15
  | other

def setResult (me : Pid) (r : Int) : KM Unit := do
  let p ← getProc me
  onMem (Prog.update fun m =>
    m.setPage p.trapframe ((m.page p.trapframe).putLE 112 8 (r % 2 ^ 64).toNat))

/-- The end of `usertrap`: a killed process exits, after a timer interrupt it yields. -/
def trapReturn (me : Pid) (timer : Bool) : KM Unit := do
  let p ← getProc me
  if p.killed then
    kexit me (-1)
  else if timer then
    modProc me fun p => { p with state := .runnable, susp := some .yielded }

/-- `usertrap` with program counter `epc`; saving it is what a trap does first. -/
def usertrap (me : Pid) (epc : Nat) (cause : Cause) : KM Unit := do
  let p ← getProc me
  onMem (Prog.update fun m => m.setPage p.trapframe ((m.page p.trapframe).putLE 24 8 epc))
  match cause with
  | .syscall call =>
    if p.killed then
      kexit me (-1)
    else
      onMem (Prog.update fun m =>
        m.setPage p.trapframe ((m.page p.trapframe).putLE 24 8 (uint64 (epc + 4))))
      match ← syscall me call with
      | none => return ()
      | some r =>
        setResult me r
        trapReturn me false
  | .timer => trapReturn me true
  | .device => trapReturn me false
  | .pageFault stval =>
    -- both outcomes of vmfault are handled alike: setkilled is commented out
    let _ ← onMem (vmfault p.pagetable p.sz p.pagetable stval)
    trapReturn me false
  | .other =>
    setkilled me
    trapReturn me false

def resume (me : Pid) (s : Susp) : KM Unit := do
  modProc me fun p => { p with chan := none, susp := none }
  match s with
  | .first =>
    onFs (ireclaim rootdev)
    let r ← kexec me (slash :: initName) [slash :: initName]
    if r = -1 then Prog.stop .exec else setResult me r
  | .yielded => return ()
  | .wait addr =>
    match ← kwait me addr with
    | none => return ()
    | some r =>
      setResult me r.toInt
      trapReturn me false

/-- `etext` is a symbol of the linker script. -/
def kvminit (etext : Nat) : KM Unit := do
  let tramp ← Prog.read Kernel.trampoline
  let kpgtbl ← onMem (kvmmake etext tramp nproc)
  Prog.update fun k => { k with kpgtbl := kpgtbl }

inductive Label where
  | kvminit (etext : Nat)
  | userinit
  | schedule (i : Pid)
  | trap (i : Pid) (epc : Nat) (cause : Cause)
  | resume (i : Pid)

inductive Step : Kernel → Label → Kernel → Prop where
  | kvminit {k k' : Kernel} {etext : Nat} (h : k.kpgtbl = 0)
      (hr : Xv6K230.kvminit etext k = .ok ((), k')) :
      Step k (.kvminit etext) k'
  | userinit {k k' : Kernel} (h : k.initproc = none)
      (hr : Xv6K230.userinit k = .ok ((), k')) :
      Step k .userinit k'
  | schedule {k : Kernel} {i : Pid} (h : (k.proc i).state = .runnable) :
      Step k (.schedule i) (k.setProc i { k.proc i with state := .running })
  | trap {k k' : Kernel} {i : Pid} {epc : Nat} {cause : Cause} (h : (k.proc i).state = .running)
      (hs : (k.proc i).susp = none) (hr : usertrap i epc cause k = .ok ((), k')) :
      Step k (.trap i epc cause) k'
  | resume {k k' : Kernel} {i : Pid} {s : Susp} (h : (k.proc i).state = .running)
      (hs : (k.proc i).susp = some s) (hr : Xv6K230.resume i s k = .ok ((), k')) :
      Step k (.resume i) k'

end Xv6K230
