import Xv6K230.Kernel.State
import Xv6K230.Lib.Transition

/-! # Bytes through a pipe

`pipewrite`, `piperead` and `pipeclose` of one pipe, called by any number of processes.
-/

namespace Xv6K230

def pipesize : Nat := 512

/-- A call of `pipewrite` or `piperead`. -/
structure PipeCall where
  pid : Nat
  write : Bool
  addr : Nat
  n : Int
  i : Int -- bytes that pipewrite has stored so far
  deriving DecidableEq

structure PipeSleeper where
  call : PipeCall
  awake : Bool
  deriving DecidableEq

/-- A pipe, the calls that sleep on it, the bytes that writers have stored and the bytes
that readers have been handed. -/
structure PipeLine where
  pipe : Pipe
  sleepers : List PipeSleeper
  sent : Text
  received : Text

/-- What a step meets outside of the pipe. `killed i` is the test made with `i` bytes done. -/
structure PipeUser where
  killed : Int → Bool
  copyin : Nat → Option UInt8
  copyout : Nat → Bool

namespace PipeLine

/-- `wakeup(&pi->nwrite)` for `writers`, otherwise `wakeup(&pi->nread)`. -/
def wakeup (s : PipeLine) (writers : Bool) : PipeLine :=
  { s with sleepers := s.sleepers.map fun c => if c.call.write = writers then { c with awake := true } else c }

/-- `sleep`; a writer sleeps on `nwrite`, a reader on `nread`. -/
def sleep (s : PipeLine) (c : PipeCall) : PipeLine := { s with sleepers := ⟨c, false⟩ :: s.sleepers }

def store (s : PipeLine) (ch : UInt8) : PipeLine :=
  { s with
    pipe := { s.pipe with
      data := s.pipe.data.write (s.pipe.nwrite.toNat % pipesize) [ch]
      nwrite := s.pipe.nwrite + 1 }
    sent := s.sent ++ [ch] }

/-- The byte that `piperead` copies out next. -/
def front (s : PipeLine) : UInt8 := s.pipe.data.get (s.pipe.nread.toNat % pipesize)

def take (s : PipeLine) : PipeLine :=
  { s with pipe := { s.pipe with nread := s.pipe.nread + 1 }, received := s.received ++ [s.front] }

end PipeLine

/-- The loop of `pipewrite` up to its next sleep (`none`) or its return, with `i` bytes stored. -/
def pipewriteLoop (u : PipeUser) (c : PipeCall) (i : Int) (s : PipeLine) : Option Int × PipeLine :=
  if i < c.n then
    if !s.pipe.readopen || u.killed i then (some (-1), s)
    else if s.pipe.nwrite = s.pipe.nread + UInt32.ofNat pipesize then
      (none, (s.wakeup false).sleep { c with i := i })
    else
      match u.copyin (c.addr + i.toNat) with
      | none => (some i, s.wakeup false)
      | some ch => pipewriteLoop u c (i + 1) (s.store ch)
  else (some i, s.wakeup false)
termination_by (c.n - i).toNat

def pipewrite (u : PipeUser) (c : PipeCall) (s : PipeLine) : Option Int × PipeLine := pipewriteLoop u c c.i s

/-- The copying loop of `piperead` with `i` bytes handed over. -/
def pipereadLoop (u : PipeUser) (c : PipeCall) (i : Int) (s : PipeLine) : Int × PipeLine :=
  if i < c.n then
    if s.pipe.nread = s.pipe.nwrite then (i, s)
    else if u.copyout (c.addr + i.toNat) then pipereadLoop u c (i + 1) s.take
    else (if i = 0 then -1 else i, s)
  else (i, s)
termination_by (c.n - i).toNat

def piperead (u : PipeUser) (c : PipeCall) (s : PipeLine) : Option Int × PipeLine :=
  if s.pipe.nread = s.pipe.nwrite ∧ s.pipe.writeopen then
    if u.killed 0 then (some (-1), s) else (none, s.sleep c)
  else
    let (r, s) := pipereadLoop u c 0 s
    (some r, s.wakeup true)

namespace PipeLine

/-- `pipeclose`; the page is freed once both ends are closed. -/
def close (s : PipeLine) (writable : Bool) : PipeLine :=
  if writable then { s with pipe := { s.pipe with writeopen := false } }.wakeup false
  else { s with pipe := { s.pipe with readopen := false } }.wakeup true

def serve (s : PipeLine) (c : PipeCall) (u : PipeUser) : Option Int × PipeLine :=
  if c.write then pipewrite u c s else piperead u c s

end PipeLine

inductive PipeEvent where
  | call (c : PipeCall) (u : PipeUser)
  | resume (c : PipeCall) (u : PipeUser) -- after a wake-up
  | close (writable : Bool)
  | kill (pid : Nat) -- kkill wakes its target

def PipeLine.next (s : PipeLine) : PipeEvent → Option PipeLine
  | .call c u => if (s.pipe.readopen || s.pipe.writeopen) ∧ c.i = 0 then some (s.serve c u).2 else none
  | .resume c u =>
    if (s.pipe.readopen || s.pipe.writeopen) ∧ ⟨c, true⟩ ∈ s.sleepers then
      some ({ s with sleepers := s.sleepers.erase ⟨c, true⟩ }.serve c u).2
    else none
  | .close writable => if s.pipe.readopen || s.pipe.writeopen then some (s.close writable) else none
  | .kill pid =>
    some { s with sleepers := s.sleepers.map fun c => if c.call.pid = pid then { c with awake := true } else c }

structure PipeLine.Fresh (s : PipeLine) : Prop where
  ends : s.pipe.readopen = true ∧ s.pipe.writeopen = true
  counters : s.pipe.nread = 0 ∧ s.pipe.nwrite = 0
  rest : s.sleepers = [] ∧ s.sent = [] ∧ s.received = []

abbrev PipeLine.Reaches : PipeLine → Prop :=
  Transition.Reachable PipeLine.Fresh (fun s e t => s.next e = some t) fun _ _ => True

end Xv6K230
