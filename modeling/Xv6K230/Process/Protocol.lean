import Xv6K230.Kernel.State
import Xv6K230.Lib.Transition

/-! # Fork, exit and wait

`kfork`, `kexit`, `kwait`, `kkill` and the parts of `sleep`, `wakeup` and `reparent` that they use, run by any number of
processes at once.
-/

namespace Xv6K230.Wait

inductive Chan where
  | proc (p : Pid)
  | other (addr : Nat)
  deriving DecidableEq

/-- Where a process stands in the code. Loops over `proc[]` carry the index of their next pass. -/
inductive Pc where
  | user -- in none of these calls
  | forked (np : Pid) -- kfork has let go of np->lock
  | adopted (np : Pid) -- kfork has set np->parent
  | exit (status : Int) -- kexit before wait_lock
  | reparent (status : Int) (i : Nat)
  | wakeInit (status : Int) (i j : Nat) -- wakeup(initproc) in pass i of reparent
  | wakeParent (status : Int) (parent : Option Pid) (j : Nat)
  | exiting (status : Int) -- before p->lock at the end of kexit
  | wait (addr : Nat) -- kwait before wait_lock
  | scan (addr i : Nat) (havekids : Bool)
  | sleep (addr : Nat) -- kwait before p->lock in sleep
  | asleep (addr : Nat) -- in sched
  deriving DecidableEq

/-- `struct proc` as far as these calls use it, where its thread stands, and which process
this is: `serial` numbers processes in the order of their creation, `forker` is the number
of the process that called `kfork`. -/
structure Proc where
  state : ProcState
  pid : Int32
  parent : Option Pid
  chan : Option Chan
  killed : Bool
  xstate : Int
  pc : Pc
  serial : Nat
  forker : Nat

/-- A successful `kwait`: which process it has returned, who called, and the status. -/
structure Return where
  child : Nat
  waiter : Nat
  forker : Nat
  status : Int
  deriving DecidableEq

structure Sys where
  proc : Pid → Proc
  initproc : Pid
  waitLock : Option Pid
  nextpid : Int32
  created : Nat
  exits : List (Nat × Int) -- processes that have called kexit, and the status
  returns : List Return

/-! ## Assignments -/

namespace Sys

variable (s : Sys) (p : Pid)

def setState (x : ProcState) : Sys :=
  { s with proc := fun q => { s.proc q with state := if q = p then x else (s.proc q).state } }

def setParent (x : Option Pid) : Sys :=
  { s with proc := fun q => { s.proc q with parent := if q = p then x else (s.proc q).parent } }

def setChan (x : Option Chan) : Sys :=
  { s with proc := fun q => { s.proc q with chan := if q = p then x else (s.proc q).chan } }

def setKilled (x : Bool) : Sys :=
  { s with proc := fun q => { s.proc q with killed := if q = p then x else (s.proc q).killed } }

def setXstate (x : Int) : Sys :=
  { s with proc := fun q => { s.proc q with xstate := if q = p then x else (s.proc q).xstate } }

def setPid (x : Int32) : Sys :=
  { s with proc := fun q => { s.proc q with pid := if q = p then x else (s.proc q).pid } }

/-- The thread of `p` goes on at `k`. -/
def goto (k : Pc) : Sys :=
  { s with proc := fun q => { s.proc q with pc := if q = p then k else (s.proc q).pc } }

/-- The slot `p` belongs to a new process. -/
def number (forker : Nat) : Sys :=
  { s with
    proc := fun q => { s.proc q with
      serial := if q = p then s.created else (s.proc q).serial
      forker := if q = p then forker else (s.proc q).forker }
    created := s.created + 1 }

def setWaitLock (x : Option Pid) : Sys := { s with waitLock := x }

/-! ## Sections -/

def allocpid : Sys := { s.setPid p s.nextpid with nextpid := s.nextpid + 1 }

def freeproc : Sys :=
  (((((s.setPid p 0).setParent p none).setChan p none).setKilled p false).setXstate p 0).setState p .unused

/-- One pass of the loop of `wakeup(chan)`, called by `me`. -/
def wakeOne (me : Pid) (chan : Option Chan) (j : Pid) : Sys :=
  if j ≠ me ∧ (s.proc j).state = .sleeping ∧ (s.proc j).chan = chan then s.setState j .runnable else s

end Sys

/-- The next step of the call that `p` is in. `copyout` is the result of the call of
`copyout` in `kwait`. -/
def Sys.advance (s : Sys) (p : Pid) (copyout : Bool) : Option Sys :=
  match (s.proc p).pc with
  | .user => none
  | .forked np => if s.waitLock = none then some ((s.setParent np (some p)).goto p (.adopted np)) else none
  | .adopted np => some ((s.setState np .runnable).goto p .user)
  | .exit status =>
    if s.waitLock = none then some ((s.setWaitLock (some p)).goto p (.reparent status 0)) else none
  | .reparent status i =>
    if h : i < nproc then
      if (s.proc ⟨i, h⟩).parent = some p then
        some ((s.setParent ⟨i, h⟩ (some s.initproc)).goto p (.wakeInit status i 0))
      else some (s.goto p (.reparent status (i + 1)))
    else some (s.goto p (.wakeParent status (s.proc p).parent 0))
  | .wakeInit status i j =>
    if h : j < nproc then
      some ((s.wakeOne p (some (.proc s.initproc)) ⟨j, h⟩).goto p (.wakeInit status i (j + 1)))
    else some (s.goto p (.reparent status (i + 1)))
  | .wakeParent status parent j =>
    if h : j < nproc then
      some ((s.wakeOne p (parent.map .proc) ⟨j, h⟩).goto p (.wakeParent status parent (j + 1)))
    else some (s.goto p (.exiting status))
  | .exiting status =>
    some ((((s.setXstate p status).setState p .zombie).setWaitLock none).goto p .user)
  | .wait addr =>
    if s.waitLock = none then some ((s.setWaitLock (some p)).goto p (.scan addr 0 false)) else none
  | .scan addr i havekids =>
    if h : i < nproc then
      if (s.proc ⟨i, h⟩).parent = some p then
        if (s.proc ⟨i, h⟩).state = .zombie then
          if addr ≠ 0 ∧ !copyout then some ((s.setWaitLock none).goto p .user)
          else
            let v := s.proc ⟨i, h⟩
            some { ((s.freeproc ⟨i, h⟩).setWaitLock none).goto p .user with
              returns := ⟨v.serial, (s.proc p).serial, v.forker, v.xstate⟩ :: s.returns }
        else some (s.goto p (.scan addr (i + 1) true))
      else some (s.goto p (.scan addr (i + 1) havekids))
    else if !havekids || (s.proc p).killed then some ((s.setWaitLock none).goto p .user)
    else some (s.goto p (.sleep addr))
  | .sleep addr =>
    some ((((s.setWaitLock none).setChan p (some (.proc p))).setState p .sleeping).goto p (.asleep addr))
  | .asleep _ => none

/-- A call of `kexit`; init stops the machine. -/
def Sys.kexit (s : Sys) (p : Pid) (status : Int) : Option Sys :=
  if p = s.initproc then none
  else some { s.goto p (.exit status) with exits := ((s.proc p).serial, status) :: s.exits }

def Pc.holdsLock : Pc → Bool
  | .reparent _ _ | .wakeInit _ _ _ | .wakeParent _ _ _ | .exiting _ | .scan _ _ _ | .sleep _ => true
  | _ => false

/-- Where `sleep` goes on after `sched`. -/
def Pc.resume : Pc → Pc
  | .asleep addr => .wait addr
  | k => k

inductive Event where
  | run (p : Pid) -- the scheduler
  | yield (p : Pid)
  | fork (p np : Pid) -- kfork up to release(&np->lock)
  | forkFails (p np : Pid)
  | exit (p : Pid) (status : Int)
  | wait (p : Pid) (addr : Nat)
  | step (p : Pid) (copyout : Bool)
  | kill (q : Pid) -- the pass of kkill that finds its pid, or setkilled
  | sleep (p : Pid) (chan : Nat) -- on a channel that is no process
  | wake (q : Pid) -- from such a channel

def Sys.next (s : Sys) : Event → Option Sys
  | .run p =>
    if (s.proc p).state = .runnable then
      some (((s.setState p .running).setChan p none).goto p (s.proc p).pc.resume)
    else none
  | .yield p =>
    if (s.proc p).state = .running ∧ (s.proc p).pc.holdsLock = false then some (s.setState p .runnable) else none
  | .fork p np =>
    if (s.proc p).state = .running ∧ (s.proc p).pc = .user ∧ (s.proc np).state = .unused then
      some ((((s.allocpid np).setState np .used).number np (s.proc p).serial).goto p (.forked np))
    else none
  | .forkFails p np =>
    if (s.proc p).state = .running ∧ (s.proc p).pc = .user ∧ (s.proc np).state = .unused then
      some ((s.allocpid np).freeproc np)
    else none
  | .exit p status => if (s.proc p).state = .running ∧ (s.proc p).pc = .user then s.kexit p status else none
  | .wait p addr =>
    if (s.proc p).state = .running ∧ (s.proc p).pc = .user then some (s.goto p (.wait addr)) else none
  | .step p copyout => if (s.proc p).state = .running then s.advance p copyout else none
  | .kill q =>
    some ((s.setKilled q true).setState q (if (s.proc q).state = .sleeping then .runnable else (s.proc q).state))
  | .sleep p chan =>
    if (s.proc p).state = .running ∧ (s.proc p).pc = .user then
      some ((s.setChan p (some (.other chan))).setState p .sleeping)
    else none
  | .wake q =>
    match (s.proc q).chan with
    | some (.other _) => if (s.proc q).state = .sleeping then some (s.setState q .runnable) else none
    | _ => none

structure Sys.Fresh (s : Sys) : Prop where
  init : (s.proc s.initproc).state = .runnable ∧ (s.proc s.initproc).pc = .user ∧ (s.proc s.initproc).serial < s.created
  unused : ∀ p, p ≠ s.initproc → (s.proc p).state = .unused ∧ (s.proc p).pc = .user
  parent : ∀ p, (s.proc p).parent = none
  rest : s.waitLock = none ∧ s.exits = [] ∧ s.returns = []

abbrev Sys.Reaches : Sys → Prop :=
  Transition.Reachable Sys.Fresh (fun s e t => s.next e = some t) fun _ _ => True

end Xv6K230.Wait
