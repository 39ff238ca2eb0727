import Xv6K230.Shell.Parser

/-! # The grammar of the shell

What a line means, apart from how it is parsed: its tokens, and the commands that sequences of
tokens stand for.
-/

namespace Xv6K230.Shell

/-! ## Tokens of a line -/

inductive Token where
  | word (text : List UInt8)
  | less
  | great
  | append
  | bar
  | amp
  | semi
  | lparen
  | rparen
deriving DecidableEq, Repr

def symbolToken (c : UInt8) : Option Token :=
  if c = 60 then some .less
  else if c = 124 then some .bar
  else if c = 38 then some .amp
  else if c = 59 then some .semi
  else if c = 40 then some .lparen
  else if c = 41 then some .rparen
  else none

/-- The tokens of a line. A word is as long as possible, and two `>` are one token. -/
def tokens : List UInt8 → List Token
  | [] => []
  | c :: cs =>
    if isSpace c then tokens cs
    else if c = 62 then
      if cs.head? = some 62 then .append :: tokens cs.tail else .great :: tokens cs
    else match symbolToken c with
      | some t => t :: tokens cs
      | none => .word (c :: cs.takeWhile isWord) :: tokens (cs.dropWhile isWord)
termination_by cs => cs.length
decreasing_by
  · exact Nat.lt_succ_self _
  · exact Nat.lt_succ_of_le (by rw [List.length_tail]; exact Nat.sub_le _ _)
  · exact Nat.lt_succ_self _
  · exact Nat.lt_succ_self _
  · exact Nat.lt_succ_of_le (List.dropWhile_sublist _).length_le

/-! ## Commands with redirections -/

inductive Direction where
  | input
  | output
  | append
deriving DecidableEq, Repr

namespace Direction

def token : Direction → Token
  | input => .less
  | output => .great
  | append => .append

def mode : Direction → Nat
  | input => oRdonly
  | output => oWronly ||| oCreate ||| oTrunc
  | append => oWronly ||| oCreate

def fd : Direction → Nat
  | input => 0
  | output => 1
  | append => 1

end Direction

structure Redir (α : Type) where
  dir : Direction
  file : α

def Redir.tokens (r : Redir (List UInt8)) : List Token := [r.dir.token, .word r.file]

namespace Cmd

variable {α β : Type}

def map (f : α → β) : Cmd α → Cmd β
  | .exec argv => .exec (argv.map f)
  | .redir cmd file mode fd => .redir (cmd.map f) (f file) mode fd
  | .pipe left right => .pipe (left.map f) (right.map f)
  | .list left right => .list (left.map f) (right.map f)
  | .back cmd => .back (cmd.map f)

def All (P : α → Prop) : Cmd α → Prop
  | .exec argv => ∀ w ∈ argv, P w
  | .redir cmd file _ _ => cmd.All P ∧ P file
  | .pipe left right => left.All P ∧ right.All P
  | .list left right => left.All P ∧ right.All P
  | .back cmd => cmd.All P

/-- The command with redirections around it, the last one outermost. -/
def wrap (cmd : Cmd α) (rs : List (Redir α)) : Cmd α :=
  rs.foldl (fun cmd r => .redir cmd r.file r.dir.mode r.dir.fd) cmd

/-- A command in the background, `n` times. -/
def backs (n : Nat) (cmd : Cmd α) : Cmd α := Cmd.back^[n] cmd

lemma wrap_append (cmd : Cmd α) (rs rs' : List (Redir α)) : cmd.wrap (rs ++ rs') = (cmd.wrap rs).wrap rs' :=
  List.foldl_append ..

lemma wrap_concat (cmd : Cmd α) (rs : List (Redir α)) (r : Redir α) :
    cmd.wrap (rs ++ [r]) = .redir (cmd.wrap rs) r.file r.dir.mode r.dir.fd := wrap_append ..

lemma addArg_wrap (argv : List α) (rs : List (Redir α)) (w : α) :
    ((Cmd.exec argv).wrap rs).addArg w = (Cmd.exec (argv ++ [w])).wrap rs := by
  induction rs using List.reverseRecOn with
  | nil => rfl
  | append_singleton rs r ih => rw [wrap_concat, wrap_concat, addArg, ih]

lemma map_addArg (f : α → β) (cmd : Cmd α) (w : α) : (cmd.addArg w).map f = (cmd.map f).addArg (f w) := by
  induction cmd with
  | exec argv => simp [addArg, map]
  | redir cmd file mode fd ih => simp only [addArg, map, ih]
  | pipe | list | back => rfl

lemma All.addArg {P : α → Prop} {cmd : Cmd α} {w : α} (h : cmd.All P) (hw : P w) : (cmd.addArg w).All P := by
  induction cmd with
  | exec argv =>
    intro v hv
    rcases List.mem_append.mp hv with hv | hv
    · exact h v hv
    · rw [List.mem_singleton.mp hv]
      exact hw
  | redir cmd file mode fd ih => exact ⟨ih h.1, h.2⟩
  | pipe | list | back => exact h

end Cmd

/-! ## Derivations -/

inductive Sym where
  | line
  | pipe
  | exec

abbrev Arg (α : Type) := α × List (Redir α)

def Arg.tokens (a : Arg (List UInt8)) : List Token := .word a.1 :: a.2.flatMap Redir.tokens

inductive Derives : Sym → List Token → Cmd (List UInt8) → Prop where
  | simple (rs : List (Redir (List UInt8))) (args : List (Arg (List UInt8))) (h : args.length < maxargs) :
    Derives .exec (rs.flatMap Redir.tokens ++ args.flatMap Arg.tokens)
      ((Cmd.exec (args.map Prod.fst)).wrap (rs ++ args.flatMap Prod.snd))
  | block {ts : List Token} {cmd : Cmd (List UInt8)} (rs : List (Redir (List UInt8))) (h : Derives .line ts cmd) :
    Derives .exec (.lparen :: (ts ++ .rparen :: rs.flatMap Redir.tokens)) (cmd.wrap rs)
  | last {ts : List Token} {cmd : Cmd (List UInt8)} (h : Derives .exec ts cmd) : Derives .pipe ts cmd
  | pipe {ts ts' : List Token} {cmd cmd' : Cmd (List UInt8)} (h : Derives .exec ts cmd) (h' : Derives .pipe ts' cmd') :
    Derives .pipe (ts ++ .bar :: ts') (.pipe cmd cmd')
  | line {ts : List Token} {cmd : Cmd (List UInt8)} (n : Nat) (h : Derives .pipe ts cmd) :
    Derives .line (ts ++ List.replicate n .amp) (cmd.backs n)
  | list {ts ts' : List Token} {cmd cmd' : Cmd (List UInt8)} (n : Nat) (h : Derives .pipe ts cmd) (h' : Derives .line ts' cmd') :
    Derives .line (ts ++ List.replicate n .amp ++ .semi :: ts') (.list (cmd.backs n) cmd')

end Xv6K230.Shell
