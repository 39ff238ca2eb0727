import Xv6K230.Process.Protocol

/-! # Processes on several CPUs

`scheduler`, `sched`, `yield`, `sleep`, `wakeup`, `kkill`, `kexit`, `kwait`, `kfork` and `forkret`, executed by any
number of CPUs at once.
-/

namespace Xv6K230.Smp

/-- The registers of `struct context`. -/
def nregs : Nat := 14

/-- Where the kernel thread of a process stands. Loops over `proc[]` carry the index of their next pass. -/
inductive Pc where
  | forkret
  | user -- in none of these functions
  | asleep -- in sleep, called with a lock that is not wait_lock
  | wakeup (chan : Option Wait.Chan) (j : Nat) (ret : Pc)
  | kill (pid : Int32) (j : Nat)
  | alloc (j : Nat) -- allocproc, called by kfork
  | forked (np : Pid) -- kfork has let go of np->lock
  | adopted (np : Pid) -- kfork has set np->parent
  | exit -- kexit before wait_lock
  | reparent (i : Nat)
  | exiting -- kexit from the acquire of p->lock on
  | wait -- kwait before wait_lock
  | scan (i : Nat) (havekids : Bool)
  | waiting -- kwait in sleep
  deriving DecidableEq

inductive Leave where
  | yield
  | sleep (chan : Wait.Chan)
  | exit
  deriving DecidableEq

/-- The state that `p->state` is set to before `sched`. -/
def Leave.state : Leave → ProcState
  | .yield => .runnable
  | .sleep _ => .sleeping
  | .exit => .zombie

def Leave.chan (old : Option Wait.Chan) : Leave → Option Wait.Chan
  | .sleep chan => some chan
  | _ => old

/-- What the thread of a process does with the locks of the process table. -/
inductive Phase where
  | run -- it holds none of them
  | holding (q : Pid) -- it looks at another process under q->lock
  | locked (l : Leave) -- it holds its own lock and is about to change its state
  | saving (k : Nat) -- in swtch, with k registers stored in p->context
  | loading (k : Nat) -- in swtch, with k registers loaded from c->context
  | resumed -- swtch has returned; it still holds its own lock
  deriving DecidableEq

/-- Where `scheduler` stands. -/
inductive Loop where
  | scan (i : Nat) -- before acquire(&proc[i].lock)
  | locked (p : Pid)
  | chosen (p : Pid) -- p->state is RUNNING
  | saving (p : Pid) (k : Nat) -- c->proc is p; in swtch, with k registers stored in c->context
  | loading (p : Pid) (k : Nat) -- in swtch, with k registers loaded from p->context
  | back (p : Pid) -- swtch has returned
  | cleared (p : Pid) -- c->proc is 0
  | wakeup (chan : Option Wait.Chan) (j : Nat) -- an interrupt handler calls wakeup
  | holding (chan : Option Wait.Chan) (j : Nat) (q : Pid)
  deriving DecidableEq

/-- What a CPU executes: its scheduler, or the thread of a process while the scheduler is
in the pass for `i`. -/
inductive Exec where
  | sched (l : Loop)
  | thread (p i : Pid) (ph : Phase)
  deriving DecidableEq

structure Cpu where
  proc : Option Pid -- c->proc
  exec : Exec
  saved : Nat -- the registers of c->context stored by the last swtch

/-- `struct proc` as far as these functions use it; `saved` counts the registers of
`p->context` that were stored since the process has last been running. -/
structure Proc (n : Nat) where
  state : ProcState
  lock : Option (Fin n)
  chan : Option Wait.Chan
  killed : Bool
  pid : Int32
  parent : Option Pid
  pc : Pc
  saved : Nat

structure Sys (n : Nat) where
  proc : Pid → Proc n
  cpu : Fin n → Cpu
  initproc : Pid
  waitLock : Option Pid
  nextpid : Int32

namespace Sys

variable {n : Nat} (s : Sys n) (p : Pid) (c : Fin n)

/-! ## Assignments -/

def mapProc (f : Proc n → Proc n) : Sys n := { s with proc := fun q => if q = p then f (s.proc q) else s.proc q }

def mapCpu (f : Cpu → Cpu) : Sys n := { s with cpu := fun d => if d = c then f (s.cpu d) else s.cpu d }

def setState (x : ProcState) : Sys n := s.mapProc p fun v => { v with state := x }

def setLock (x : Option (Fin n)) : Sys n := s.mapProc p fun v => { v with lock := x }

def setParent (x : Option Pid) : Sys n := s.mapProc p fun v => { v with parent := x }

def setSaved (k : Nat) : Sys n := s.mapProc p fun v => { v with saved := k }

/-- The thread of `p` goes on at `k`. -/
def goto (k : Pc) : Sys n := s.mapProc p fun v => { v with pc := k }

def setExec (x : Exec) : Sys n := s.mapCpu c fun v => { v with exec := x }

def setWaitLock (x : Option Pid) : Sys n := { s with waitLock := x }

/-! ## Sections under the lock of another process -/

def wakeOne (chan : Option Wait.Chan) (q : Pid) : Sys n :=
  if (s.proc q).state = .sleeping ∧ (s.proc q).chan = chan then s.setState q .runnable else s

def killOne (q : Pid) : Sys n :=
  s.mapProc q fun v => { v with killed := true, state := if v.state = .sleeping then .runnable else v.state }

def freeproc (q : Pid) : Sys n :=
  s.mapProc q fun v => { v with pid := 0, parent := none, chan := none, killed := false, state := .unused }

/-- `allocproc` from the label `found` on, up to its return with `np->lock` held. -/
def allocSlot (q : Pid) : Sys n :=
  { s.mapProc q fun v => { v with pid := s.nextpid, state := .used, pc := .forkret, saved := nregs } with
    nextpid := s.nextpid + 1 }

/-- What the call of `p` does under `q->lock`. `ok` is the outcome of the allocations in
`kfork` and of `copyout` in `kwait`. -/
def look (q : Pid) (ok : Bool) : Sys n :=
  match (s.proc p).pc with
  | .wakeup chan j ret => (s.wakeOne chan q).goto p (.wakeup chan (j + 1) ret)
  | .kill pid j => if (s.proc q).pid = pid then (s.killOne q).goto p .user else s.goto p (.kill pid (j + 1))
  | .alloc j =>
    if (s.proc q).state = .unused then
      if ok then (s.allocSlot q).goto p (.forked q) else ((s.allocSlot q).freeproc q).goto p .user
    else s.goto p (.alloc (j + 1))
  | .adopted _ => (s.setState q .runnable).goto p .user
  | .scan i _ =>
    if (s.proc q).state = .zombie then
      if ok then ((s.freeproc q).setWaitLock none).goto p .user else (s.setWaitLock none).goto p .user
    else s.goto p (.scan (i + 1) true)
  | _ => s

end Sys

variable {n : Nat}

/-- `acquire(&q->lock)` on CPU `c`, which then goes on at `x`; a CPU that has to spin takes no step. -/
def Sys.acquire (s : Sys n) (c : Fin n) (q : Pid) (x : Exec) : Option (Sys n) :=
  if (s.proc q).lock = none then some ((s.setLock q (some c)).setExec c x) else none

/-- The next step of `scheduler` on CPU `c`. -/
def Sys.loop (s : Sys n) (c : Fin n) : Loop → Option (Sys n)
  | .scan i =>
    if h : i < nproc then s.acquire c ⟨i, h⟩ (.sched (.locked ⟨i, h⟩)) else some (s.setExec c (.sched (.scan 0)))
  | .locked p =>
    if (s.proc p).state = .runnable then some ((s.setState p .running).setExec c (.sched (.chosen p)))
    else some ((s.setLock p none).setExec c (.sched (.scan (p.val + 1))))
  | .chosen p => some (s.mapCpu c fun v => { v with proc := some p, exec := .sched (.saving p 0), saved := 0 })
  | .saving p k =>
    if k < nregs then some (s.mapCpu c fun v => { v with exec := .sched (.saving p (k + 1)), saved := k + 1 })
    else some (s.setExec c (.sched (.loading p 0)))
  | .loading p k =>
    if k < nregs then some (s.setExec c (.sched (.loading p (k + 1))))
    else some ((s.setSaved p 0).setExec c (.thread p p .resumed))
  | .back p => some (s.mapCpu c fun v => { v with proc := none, exec := .sched (.cleared p) })
  | .cleared p => some ((s.setLock p none).setExec c (.sched (.scan (p.val + 1))))
  | .wakeup chan j =>
    if h : j < nproc then s.acquire c ⟨j, h⟩ (.sched (.holding chan j ⟨j, h⟩))
    else some (s.setExec c (.sched (.scan 0)))
  | .holding chan j q => some (((s.wakeOne chan q).setLock q none).setExec c (.sched (.wakeup chan (j + 1))))

/-- The next step of the call that `p` is in, on CPU `c`, while it holds no lock of the table. -/
def Sys.call (s : Sys n) (c : Fin n) (p i : Pid) : Option (Sys n) :=
  match (s.proc p).pc with
  | .forkret | .user | .asleep => none
  | .wakeup chan j ret =>
    if h : j < nproc then
      if ⟨j, h⟩ = p then some (s.goto p (.wakeup chan (j + 1) ret))
      else s.acquire c ⟨j, h⟩ (.thread p i (.holding ⟨j, h⟩))
    else some (s.goto p ret)
  | .kill _ j =>
    if h : j < nproc then s.acquire c ⟨j, h⟩ (.thread p i (.holding ⟨j, h⟩)) else some (s.goto p .user)
  | .alloc j =>
    if h : j < nproc then s.acquire c ⟨j, h⟩ (.thread p i (.holding ⟨j, h⟩)) else some (s.goto p .user)
  | .forked np => if s.waitLock = none then some ((s.setParent np (some p)).goto p (.adopted np)) else none
  | .adopted np => s.acquire c np (.thread p i (.holding np))
  | .exit => if s.waitLock = none then some ((s.setWaitLock (some p)).goto p (.reparent 0)) else none
  | .reparent i =>
    if h : i < nproc then
      if (s.proc ⟨i, h⟩).parent = some p then
        some ((s.setParent ⟨i, h⟩ (some s.initproc)).goto p
          (.wakeup (some (.proc s.initproc)) 0 (.reparent (i + 1))))
      else some (s.goto p (.reparent (i + 1)))
    else some (s.goto p (.wakeup ((s.proc p).parent.map .proc) 0 .exiting))
  | .exiting => s.acquire c p (.thread p i (.locked .exit))
  | .wait => if s.waitLock = none then some ((s.setWaitLock (some p)).goto p (.scan 0 false)) else none
  | .scan j havekids =>
    if h : j < nproc then
      if (s.proc ⟨j, h⟩).parent = some p then s.acquire c ⟨j, h⟩ (.thread p i (.holding ⟨j, h⟩))
      else some (s.goto p (.scan (j + 1) havekids))
    -- killed(p) takes p->lock to read the flag
    else if (s.proc p).lock ≠ none then none
    else if !havekids || (s.proc p).killed then some ((s.setWaitLock none).goto p .user)
    else some (s.goto p .waiting)
  | .waiting => s.acquire c p (.thread p i (.locked (.sleep (.proc p))))

/-- Where a thread goes on when `sched` has returned; an exited one panics. -/
def Pc.resume : Pc → Option Pc
  | .forkret | .asleep => some .user
  | .waiting => some .wait
  | .exiting => none
  | k => some k

/-- `sleep` sets `p->chan` to 0 when it returns. -/
def Pc.sleeps : Pc → Bool
  | .asleep | .waiting => true
  | _ => false

/-- The next step of the thread of `p` on CPU `c`. -/
def Sys.thread (s : Sys n) (c : Fin n) (p i : Pid) (ok : Bool) : Phase → Option (Sys n)
  | .run => s.call c p i
  | .holding q => some (((s.look p q ok).setLock q none).setExec c (.thread p i .run))
  | .locked l =>
    let s := s.mapProc p fun v => { v with state := l.state, chan := l.chan v.chan, saved := 0 }
    let s := if s.waitLock = some p then s.setWaitLock none else s
    some (s.setExec c (.thread p i (.saving 0)))
  | .saving k =>
    if k < nregs then some ((s.setSaved p (k + 1)).setExec c (.thread p i (.saving (k + 1))))
    else some (s.setExec c (.thread p i (.loading 0)))
  | .loading k =>
    if k < nregs then some (s.setExec c (.thread p i (.loading (k + 1)))) else some (s.setExec c (.sched (.back i)))
  | .resumed =>
    match (s.proc p).pc.resume with
    | none => none
    | some k =>
      some ((s.mapProc p fun v =>
        { v with lock := none, chan := if v.pc.sleeps then none else v.chan, pc := k }).setExec c (.thread p i .run))

def Pc.interruptible : Pc → Bool
  | .user | .alloc _ | .kill _ _ | .forked _ | .adopted _ | .exit | .wait => true
  | _ => false

inductive Event (n : Nat) where
  | step (c : Fin n) (ok : Bool)
  | yield (c : Fin n)
  | sleep (c : Fin n) (chan : Nat) -- on a channel that is no process
  | wakeup (c : Fin n) (chan : Nat) -- also by an interrupt handler
  | kill (c : Fin n) (pid : Int32)
  | exit (c : Fin n)
  | fork (c : Fin n)
  | wait (c : Fin n)

/-- The thread that CPU `c` runs, if it is in none of the functions above. -/
def Sys.idle (s : Sys n) (c : Fin n) : Option Pid :=
  match (s.cpu c).exec with
  | .thread p _ .run => if (s.proc p).pc = .user then some p else none
  | _ => none

def Sys.next (s : Sys n) : Event n → Option (Sys n)
  | .step c ok =>
    match (s.cpu c).exec with
    | .sched l => s.loop c l
    | .thread p i ph => s.thread c p i ok ph
  | .yield c =>
    match (s.cpu c).exec with
    | .thread p i .run => if (s.proc p).pc.interruptible then s.acquire c p (.thread p i (.locked .yield)) else none
    | _ => none
  | .sleep c chan =>
    match (s.cpu c).exec with
    | .thread p i .run =>
      if (s.proc p).pc = .user then (s.goto p .asleep).acquire c p (.thread p i (.locked (.sleep (.other chan))))
      else none
    | _ => none
  | .wakeup c chan =>
    match (s.cpu c).exec with
    | .sched (.scan 0) => some (s.setExec c (.sched (.wakeup (some (Wait.Chan.other chan)) 0)))
    | .thread p _ .run =>
      if (s.proc p).pc.interruptible then some (s.goto p (.wakeup (some (Wait.Chan.other chan)) 0 (s.proc p).pc)) else none
    | _ => none
  | .kill c pid => (s.idle c).map fun p => s.goto p (.kill pid 0)
  | .exit c => (s.idle c).bind fun p => if p = s.initproc then none else some (s.goto p .exit)
  | .fork c => (s.idle c).map fun p => s.goto p (.alloc 0)
  | .wait c => (s.idle c).map fun p => s.goto p .wait

def Sys.Frees (s : Sys n) (e : Event n) (q : Pid) : Prop :=
  ∃ c ok p i, e = .step c ok ∧ (s.cpu c).exec = .thread p i (.holding q) ∧
    (((∃ j, (s.proc p).pc = .alloc j) ∧ (s.proc q).state = .unused ∧ ok = false) ∨
      ((∃ i havekids, (s.proc p).pc = .scan i havekids) ∧ (s.proc q).state = .zombie ∧ ok = true))

structure Sys.Fresh (s : Sys n) : Prop where
  cpus : ∀ c, (s.cpu c).proc = none ∧ (s.cpu c).exec = .sched (.scan 0)
  init : (s.proc s.initproc).state = .runnable ∧ (s.proc s.initproc).saved = nregs
  unused : ∀ p, p ≠ s.initproc → (s.proc p).state = .unused
  procs : ∀ p, (s.proc p).lock = none ∧ (s.proc p).pc = .forkret

abbrev Sys.Reaches : Sys n → Prop :=
  Transition.Reachable Sys.Fresh (fun s e t => s.next e = some t) fun _ _ => True

end Xv6K230.Smp
