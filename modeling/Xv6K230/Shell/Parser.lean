import Xv6K230.Lib.Program

/-! # The parser of the shell

The recursive-descent parser of `user/sh.c`.
-/

namespace Xv6K230.Shell

open Prog

def maxargs : Nat := 10

/-! ## Commands -/

/-- A word of the line: the pointers `q` and `eq` as positions. -/
structure Span where
  q : Nat
  eq : Nat
deriving DecidableEq, Repr

/-- Parsed commands, with their words in `α`. -/
inductive Cmd (α : Type) where
  | exec (argv : List α)
  | redir (cmd : Cmd α) (file : α) (mode fd : Nat)
  | pipe (left right : Cmd α)
  | list (left right : Cmd α)
  | back (cmd : Cmd α)
deriving DecidableEq, Repr

/-- Append a word to the `exec` node below redirections, where `parseexec` keeps a pointer to it. -/
def Cmd.addArg {α : Type} : Cmd α → α → Cmd α
  | .exec argv, w => .exec (argv ++ [w])
  | .redir cmd file mode fd, w => .redir (cmd.addArg w) file mode fd
  | cmd, _ => cmd

def oRdonly : Nat := 0x000
def oWronly : Nat := 0x001
def oCreate : Nat := 0x200
def oTrunc : Nat := 0x400

/-! ## Tokens -/

/-- The calls of `panic` in the parser. -/
inductive Panic where
  | malformed
  | missingFile
  | parseblock
  | missingParen
  | tooManyArgs
deriving DecidableEq, Repr

inductive Halt where
  | panic (p : Panic)
  | fuel
deriving DecidableEq, Repr

abbrev ShM (α : Type) := Prog Halt Nat α

def whitespace : List UInt8 := [32, 9, 13, 10, 11]

/-- The characters `<|>&;()`. -/
def symbols : List UInt8 := [60, 124, 62, 38, 59, 40, 41]

def isSpace (c : UInt8) : Bool := c ∈ whitespace

def isWord (c : UInt8) : Bool := c ∉ whitespace ∧ c ∉ symbols

section

variable (line : List UInt8)

/-- The character at `s`; the line ends with a NUL. -/
def charAt (s : Nat) : UInt8 := line.getD s 0

/-- `while(s < es && p(*s)) s++`, at most `n` times. -/
def advanceLoop (p : UInt8 → Bool) : Nat → Nat → Nat
  | 0, s => s
  | n + 1, s => if s < line.length ∧ p (charAt line s) then advanceLoop p n (s + 1) else s

def advance (p : UInt8 → Bool) (s : Nat) : Nat := advanceLoop line p (line.length - s) s

/-- The switch of `gettoken` at `s`: the kind of the token and its end. -/
def tokenAt (s : Nat) : UInt8 × Nat :=
  let c := charAt line s
  if c = 0 then (c, s)
  else if c ∈ [124, 40, 41, 59, 38, 60] then (c, s + 1)
  else if c = 62 then
    if charAt line (s + 1) = 62 then (43, s + 1 + 1) else (c, s + 1)
  else (97, advance line isWord s)

def gettoken : ShM (UInt8 × Span) := do
  let q ← Prog.read fun s => advance line isSpace s
  let (ret, eq) := tokenAt line q
  Prog.update fun _ => advance line isSpace eq
  return (ret, ⟨q, eq⟩)

def peek (toks : List UInt8) : ShM Bool := do
  Prog.update fun s => advance line isSpace s
  Prog.read fun s => charAt line s ≠ 0 ∧ charAt line s ∈ toks

/-! ## Recursive descent -/

/-- The switch of `parseredirs`. -/
def redirect (tok : UInt8) (cmd : Cmd Span) (w : Span) : Cmd Span :=
  if tok = 60 then .redir cmd w oRdonly 0
  else if tok = 62 then .redir cmd w (oWronly ||| oCreate ||| oTrunc) 1
  else if tok = 43 then .redir cmd w (oWronly ||| oCreate) 1
  else cmd

def redirsLoop : Nat → Cmd Span → ShM (Cmd Span)
  | 0, _ => Prog.stop .fuel
  | n + 1, cmd => do
    if ← peek line [60, 62] then
      let (tok, _) ← gettoken line
      let (kind, w) ← gettoken line
      if kind ≠ 97 then Prog.stop (.panic .missingFile)
      else redirsLoop n (redirect tok cmd w)
    else return cmd

def parseredirs (cmd : Cmd Span) : ShM (Cmd Span) := redirsLoop line (line.length + 1) cmd

def parseblock (parseline : ShM (Cmd Span)) : ShM (Cmd Span) := do
  if ← peek line [40] then
    let _ ← gettoken line
    let cmd ← parseline
    if ← peek line [41] then
      let _ ← gettoken line
      parseredirs line cmd
    else Prog.stop (.panic .missingParen)
  else Prog.stop (.panic .parseblock)

/-- The loop of `parseexec`, with `argc` words so far. -/
def argsLoop : Nat → Nat → Cmd Span → ShM (Cmd Span)
  | 0, _, _ => Prog.stop .fuel
  | n + 1, argc, ret => do
    if ← peek line [124, 41, 38, 59] then return ret
    else
      let (tok, w) ← gettoken line
      if tok = 0 then return ret
      else if tok ≠ 97 then Prog.stop (.panic .malformed)
      else if argc + 1 ≥ maxargs then Prog.stop (.panic .tooManyArgs)
      else
        let ret ← parseredirs line (ret.addArg w)
        argsLoop n (argc + 1) ret

def parseexec (parseline : ShM (Cmd Span)) : ShM (Cmd Span) := do
  if ← peek line [40] then parseblock line parseline
  else
    let ret ← parseredirs line (.exec [])
    argsLoop line (line.length + 1) 0 ret

def pipeLoop (parseline : ShM (Cmd Span)) : Nat → ShM (Cmd Span)
  | 0 => Prog.stop .fuel
  | n + 1 => do
    let cmd ← parseexec line parseline
    if ← peek line [124] then
      let _ ← gettoken line
      let right ← pipeLoop parseline n
      return .pipe cmd right
    else return cmd

def parsepipe (parseline : ShM (Cmd Span)) : ShM (Cmd Span) := pipeLoop line parseline (line.length + 1)

def backLoop : Nat → Cmd Span → ShM (Cmd Span)
  | 0, _ => Prog.stop .fuel
  | n + 1, cmd => do
    if ← peek line [38] then
      let _ ← gettoken line
      backLoop n (.back cmd)
    else return cmd

def parseline : Nat → ShM (Cmd Span)
  | 0 => Prog.stop .fuel
  | n + 1 => do
    let cmd ← parsepipe line (parseline n)
    let cmd ← backLoop line (line.length + 1) cmd
    if ← peek line [59] then
      let _ ← gettoken line
      let right ← parseline n
      return .list cmd right
    else return cmd

end

/-! ## The whole line -/

def nulterminate : Cmd Span → List UInt8 → List UInt8
  | .exec argv, buf => argv.foldl (fun buf w => buf.set w.eq 0) buf
  | .redir cmd file _ _, buf => (nulterminate cmd buf).set file.eq 0
  | .pipe left right, buf => nulterminate right (nulterminate left buf)
  | .list left right, buf => nulterminate right (nulterminate left buf)
  | .back cmd, buf => nulterminate cmd buf

/-- `parsecmd` before it calls `nulterminate`. -/
def parseAll (fuel : Nat) (line : List UInt8) : ShM (Cmd Span) := do
  let cmd ← parseline line fuel
  let _ ← peek line []
  let s ← Prog.read id
  if s ≠ line.length then Prog.stop (.panic .malformed)
  else return cmd

/-- The command, and the buffer with the line in it as `nulterminate` leaves it. -/
def parsecmd (fuel : Nat) (line : List UInt8) : Except Halt (Cmd Span × List UInt8) :=
  match parseAll fuel line 0 with
  | .ok (cmd, _) => .ok (cmd, nulterminate cmd (line ++ [0]))
  | .error e => .error e

end Xv6K230.Shell
