import Xv6K230.Lib.Bytes
import Xv6K230.Lib.Transition

/-! # The input side of the console

`consoleintr` and `consoleread` of `uart.c`.
-/

namespace Xv6K230

def inputBufSize : Nat := 128

/-- `C(x)` -/
def ctrl (x : Char) : UInt8 := x.toUInt8 - '@'.toUInt8

def lf : UInt8 := 10
def cr : UInt8 := 13
def del : UInt8 := 0x7f

/-- The fields of `cons` other than its lock. -/
structure Cons where
  buf : Bytes 128
  r : UInt32
  w : UInt32
  e : UInt32

namespace Cons

def killLine (s : Cons) : Cons :=
  if s.e ≠ s.w ∧ s.buf.get ((s.e - 1).toNat % inputBufSize) ≠ lf then killLine { s with e := s.e - 1 } else s
termination_by (s.e - s.w).toNat
decreasing_by
  rename_i h
  have hne : s.e.toNat ≠ s.w.toNat := fun hEq => h.1 (UInt32.toNat_inj.mp hEq)
  have he := s.e.toNat_lt
  have hw := s.w.toNat_lt
  have hOne : (1 : UInt32).toNat = 1 := rfl
  simp only [UInt32.toNat_sub, hOne]
  omega

def backspace (s : Cons) : Cons := if s.e ≠ s.w then { s with e := s.e - 1 } else s

/-- `cons.buf[cons.e++ % INPUT_BUF_SIZE] = c` -/
def store (s : Cons) (c : UInt8) : Cons :=
  { s with buf := s.buf.write (s.e.toNat % inputBufSize) [c], e := s.e + 1 }

def commit (s : Cons) : Cons := { s with w := s.e }

/-- The character that `consoleread` takes next. -/
def front (s : Cons) : UInt8 := s.buf.get (s.r.toNat % inputBufSize)

end Cons

/-- A call of `consoleread` with `n` characters of `target` still to come. -/
structure ConsCall where
  pid : Nat
  dst : Nat
  n : Int
  target : Int
  deriving DecidableEq

structure ConsSleeper where
  call : ConsCall
  awake : Bool
  deriving DecidableEq

/-- What happens to the input: a key arrives, or a read takes a character. -/
inductive ConsInput where
  | key (c : UInt8)
  | take
  deriving DecidableEq

/-- The console, the reads that sleep on it, the characters that reads have consumed and
what has happened to the input so far. -/
structure Tty where
  cons : Cons
  sleepers : List ConsSleeper
  consumed : Text
  history : List ConsInput

structure ConsUser where
  killed : Bool
  copyout : Nat → Bool

namespace Tty

/-- `wakeup(&cons.r)` -/
def wakeup (s : Tty) : Tty := { s with sleepers := s.sleepers.map fun c => { c with awake := true } }

def sleep (s : Tty) (c : ConsCall) : Tty := { s with sleepers := ⟨c, false⟩ :: s.sleepers }

def mapCons (s : Tty) (f : Cons → Cons) : Tty := { s with cons := f s.cons }

/-- `cons.r++`, for a character that the read keeps. -/
def take (s : Tty) : Tty :=
  { s with
    cons := { s.cons with r := s.cons.r + 1 }
    consumed := s.consumed ++ [s.cons.front]
    history := s.history ++ [.take] }

/-- The default case of `consoleintr`. -/
def insert (s : Tty) (c : UInt8) : Tty :=
  if c ≠ 0 ∧ (s.cons.e - s.cons.r).toNat < inputBufSize then
    let c := if c = cr then lf else c
    let s := s.mapCons fun b => b.store c
    if c = lf ∨ c = ctrl 'D' ∨ (s.cons.e - s.cons.r).toNat = inputBufSize then (s.mapCons Cons.commit).wakeup else s
  else s

/-- `consoleintr`; none for the key that panics. -/
def consoleintr (s : Tty) (c : UInt8) : Option Tty :=
  let s : Tty := { s with history := s.history ++ [.key c] }
  if c = ctrl 'P' then some s
  else if c = ctrl 'U' then some (s.mapCons Cons.killLine)
  else if c = ctrl 'X' then none
  else if c = ctrl 'C' then some s
  else if c = ctrl 'H' ∨ c = del then some (s.mapCons Cons.backspace)
  else some (s.insert c)

end Tty

/-- `consoleread` up to its next sleep (`none`) or its return. -/
def consoleread (u : ConsUser) (c : ConsCall) (s : Tty) : Option Int × Tty :=
  if 0 < c.n then
    if s.cons.r = s.cons.w then
      if u.killed then (some (-1), s) else (none, s.sleep c)
    else if s.cons.front = ctrl 'D' then
      -- the end of file is left for the next read if this one has something to return
      if c.n < c.target then (some (c.target - c.n), s.mapCons fun b => { b with r := b.r + 1 - 1 })
      else (some (c.target - c.n), s.take)
    else if u.copyout c.dst then
      if s.cons.front = lf then (some (c.target - (c.n - 1)), s.take)
      else consoleread u { c with dst := c.dst + 1, n := c.n - 1 } s.take
    else (some (c.target - c.n), s.take)
  else (some (c.target - c.n), s)
termination_by c.n.toNat

inductive ConsEvent where
  | key (c : UInt8)
  | call (c : ConsCall) (u : ConsUser)
  | resume (c : ConsCall) (u : ConsUser) -- after a wake-up
  | kill (pid : Nat) -- kkill wakes its target

def Tty.next (s : Tty) : ConsEvent → Option Tty
  | .key c => s.consoleintr c
  | .call c u => if c.target = c.n then some (consoleread u c s).2 else none
  | .resume c u =>
    if ⟨c, true⟩ ∈ s.sleepers then some (consoleread u c { s with sleepers := s.sleepers.erase ⟨c, true⟩ }).2 else none
  | .kill pid =>
    some { s with sleepers := s.sleepers.map fun c => if c.call.pid = pid then { c with awake := true } else c }

structure Tty.Fresh (s : Tty) : Prop where
  indices : s.cons.r = 0 ∧ s.cons.w = 0 ∧ s.cons.e = 0
  rest : s.sleepers = [] ∧ s.consumed = [] ∧ s.history = []

abbrev Tty.Reaches : Tty → Prop := Transition.Reachable Tty.Fresh (fun s e t => s.next e = some t) fun _ _ => True

end Xv6K230
