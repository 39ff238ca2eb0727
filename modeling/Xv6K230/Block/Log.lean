import Xv6K230.Lib.Program
import Xv6K230.Machine.Stop

/-! # Transactions

The sections of `log.c` that run under `log.lock`: what `begin_op`, `end_op` and
`log_write` do to the header in memory and to the count of operations in progress.
-/

namespace Xv6K230.Blk

open Prog

def maxopblocks : Nat := 10
def logblocks : Nat := maxopblocks * 3

/-- `struct log` without its lock and its place on the disk; `lh` holds the first `lh.n`
entries of `lh.block`. -/
structure Log where
  outstanding : Int
  committing : Bool
  lh : List Nat
  deriving DecidableEq

/-- One pass of the loop of `begin_op`: whether the caller is admitted. If not it sleeps. -/
def beginOp : Prog Stop Log Bool := do
  let l ← Prog.read id
  if l.committing then
    return false
  else if (l.lh.length : Int) + (l.outstanding + 1) * maxopblocks > logblocks then
    return false
  else
    Prog.update fun l => { l with outstanding := l.outstanding + 1 }
    return true

/-- The first section of `end_op`: whether the caller has to commit. -/
def endOp : Prog Stop Log Bool := do
  Prog.update fun l => { l with outstanding := l.outstanding - 1 }
  let l ← Prog.read id
  if l.committing then
    Prog.stop .logCommitting
  else if l.outstanding = 0 then
    Prog.update fun l => { l with committing := true }
    return true
  else
    return false

/-- The second section of `end_op`, after `commit`. -/
def endCommit : Prog Stop Log Unit := Prog.update fun l => { l with committing := false }

/-- `log_write` of block `blockno`: whether the block is new in the log, so that its
buffer gets pinned. -/
def logWrite (blockno : Nat) : Prog Stop Log Bool := do
  let l ← Prog.read id
  if l.lh.length ≥ logblocks then Prog.stop .logTooBig
  else if l.outstanding < 1 then Prog.stop .logOutside
  else if blockno ∈ l.lh then return false
  else
    Prog.update fun l => { l with lh := l.lh ++ [blockno] }
    return true

section

variable {l l' : Log} {r : Bool}

lemma beginOp_cases (h : beginOp l = .ok (r, l')) :
    r = false ∧ l' = l ∨
    r = true ∧ l.committing = false ∧ (l.lh.length : Int) + (l.outstanding + 1) * 10 ≤ 30 ∧
      l' = { l with outstanding := l.outstanding + 1 } := by
  apply wp_returns h
  simp only [beginOp, wp_bind, wp_read, id_eq]
  split
  · rw [wp_pure]
    exact .inl ⟨rfl, rfl⟩
  · rename_i hIdle
    split
    · rw [wp_pure]
      exact .inl ⟨rfl, rfl⟩
    · rename_i hRoom
      simp only [wp_bind, wp_update, wp_pure]
      simp only [logblocks, maxopblocks, gt_iff_lt, Int.not_lt] at hRoom
      exact .inr ⟨trivial, by simpa using hIdle, by omega, trivial⟩

lemma endOp_cases (h : endOp l = .ok (r, l')) :
    l.committing = false ∧
    (r = true ∧ l.outstanding = 1 ∧ l' = { l with outstanding := 0, committing := true } ∨
     r = false ∧ l.outstanding ≠ 1 ∧ l' = { l with outstanding := l.outstanding - 1 }) := by
  apply wp_returns h
  simp only [endOp, wp_bind, wp_read, wp_update, id_eq]
  split
  · rw [wp_stop]
    trivial
  · rename_i hIdle
    split
    · rename_i hLast
      simp only [wp_bind, wp_update, wp_pure]
      refine ⟨by simpa using hIdle, .inl ⟨trivial, by omega, ?_⟩⟩
      rw [hLast]
    · rw [wp_pure]
      exact ⟨by simpa using hIdle, .inr ⟨rfl, by omega, rfl⟩⟩

lemma logWrite_cases {b : Nat} (h : logWrite b l = .ok (r, l')) :
    l.lh.length < 30 ∧ 1 ≤ l.outstanding ∧
    (r = false ∧ b ∈ l.lh ∧ l' = l ∨ r = true ∧ b ∉ l.lh ∧ l' = { l with lh := l.lh ++ [b] }) := by
  apply wp_returns h
  simp only [logWrite, wp_bind, wp_read, id_eq]
  split
  · rw [wp_stop]
    trivial
  · rename_i hRoom
    simp only [logblocks, maxopblocks, ge_iff_le, Nat.not_le] at hRoom
    split
    · rw [wp_stop]
      trivial
    · rename_i hOpen
      split
      · rename_i hOld
        rw [wp_pure]
        exact ⟨by omega, by omega, .inl ⟨rfl, hOld, rfl⟩⟩
      · rename_i hNew
        simp only [wp_bind, wp_update, wp_pure]
        exact ⟨by omega, by omega, .inr ⟨trivial, hNew, trivial⟩⟩

lemma logWrite_tooBig {b : Nat} (h : logWrite b l = .error .logTooBig) : 30 ≤ l.lh.length := by
  have hRun : Prog.wp (logWrite b) (fun e => e = .logTooBig → 30 ≤ l.lh.length) (fun _ _ => True) l := by
    simp only [logWrite, wp_bind, wp_read, id_eq]
    split
    · rename_i hFull
      rw [wp_stop]
      exact fun _ => hFull
    · split
      · rw [wp_stop]
        intro hne
        cases hne
      · split
        · rw [wp_pure]
          trivial
        · simp only [wp_bind, wp_update, wp_pure]
  exact wp_error hRun h rfl

end

end Xv6K230.Blk
