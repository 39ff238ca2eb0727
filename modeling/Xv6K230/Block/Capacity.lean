import Xv6K230.Block.Log
import Xv6K230.Lib.Transition

/-! # The reservation that begin_op makes

Operations of any number of processes, interleaved section by section.
-/

namespace Xv6K230.Blk

open List (map_cons mem_cons mem_of_mem_erase sum_cons)
open Transition

/-- An operation in progress: who runs it and the distinct blocks it has logged. -/
structure Op where
  pid : Nat
  blocks : List Nat
  deriving DecidableEq

inductive Phase where
  | idle
  | writing (pid : Nat) -- in commit, called by the last end_op
  | cleared (pid : Nat) -- after commit, before the last section of end_op
  deriving DecidableEq

structure Session where
  log : Log
  ops : List Op
  phase : Phase
  deriving DecidableEq

inductive Event where
  | begin (pid : Nat)
  | write (op : Op) (blockno : Nat)
  | finish (op : Op) -- end_op
  | commit
  | reopen
  deriving DecidableEq

def Session.next (s : Session) : Event → Option Session
  | .begin pid =>
    match beginOp s.log with
    | .ok (true, log) => some { s with log := log, ops := ⟨pid, []⟩ :: s.ops }
    | .ok (false, log) => some { s with log := log }
    | .error _ => none
  | .write op blockno =>
    if op ∈ s.ops then
      match logWrite blockno s.log with
      | .ok (_, log) =>
        some { s with log := log, ops := { op with blocks := op.blocks.insert blockno } :: s.ops.erase op }
      | .error _ => none
    else none
  | .finish op =>
    if op ∈ s.ops then
      match endOp s.log with
      | .ok (true, log) => some ⟨log, s.ops.erase op, .writing op.pid⟩
      | .ok (false, log) => some { s with log := log, ops := s.ops.erase op }
      | .error _ => none
    else none
  | .commit =>
    match s.phase with
    | .writing pid => some { s with log := { s.log with lh := [] }, phase := .cleared pid }
    | _ => none
  | .reopen =>
    match s.phase, endCommit s.log with
    | .cleared _, .ok (_, log) => some { s with log := log, phase := .idle }
    | _, _ => none

def Session.Opened (s : Session) : Prop :=
  s.log.outstanding = 0 ∧ s.log.committing = false ∧ s.log.lh = [] ∧ s.ops = [] ∧ s.phase = .idle

def Budget (_ : Session) : Event → Prop
  | .write op blockno => (op.blocks.insert blockno).length ≤ maxopblocks
  | _ => True

instance (s : Session) (e : Event) : Decidable (Budget s e) :=
  match e with
  | .write .. => inferInstanceAs (Decidable (_ ≤ _))
  | .begin _ | .finish _ | .commit | .reopen => inferInstanceAs (Decidable True)

def Op.left (op : Op) : Nat := maxopblocks - op.blocks.length

structure Reserved (s : Session) : Prop where
  outstanding : s.log.outstanding = s.ops.length
  room : s.log.lh.length + (s.ops.map Op.left).sum ≤ logblocks
  budget : ∀ op ∈ s.ops, op.blocks.length ≤ maxopblocks
  logged : ∀ op ∈ s.ops, ∀ b ∈ op.blocks, b ∈ s.log.lh
  committing : s.log.committing = false ∨ s.ops = []
  phase : s.phase ≠ .idle → s.log.committing = true

section

variable {s t : Session}

lemma Session.Opened.reserved (h : s.Opened) : Reserved s := by
  obtain ⟨hOut, hComm, hLh, hOps, hPhase⟩ := h
  constructor
  · rw [hOut, hOps]
    rfl
  · rw [hLh, hOps]
    exact Nat.zero_le _
  · rw [hOps]
    exact fun op hop => nomatch hop
  · rw [hOps]
    exact fun op hop => nomatch hop
  · exact .inr hOps
  · exact fun hne => absurd hPhase hne

lemma sum_left_le (ops : List Op) : (ops.map Op.left).sum ≤ ops.length * 10 := by
  induction ops with
  | nil => exact Nat.zero_le _
  | cons op ops ih =>
    have hOp : op.left ≤ 10 := Nat.sub_le _ _
    simp only [map_cons, sum_cons, List.length_cons]
    omega

lemma sum_left_erase {ops : List Op} {op : Op} (h : op ∈ ops) :
    op.left + ((ops.erase op).map Op.left).sum = (ops.map Op.left).sum := List.sum_map_erase Op.left h

lemma begin_reserved {pid : Nat} (hs : Reserved s) (h : s.next (.begin pid) = some t) : Reserved t := by
  simp only [Session.next] at h
  split at h
  · rename_i log hBegin
    cases h
    obtain ⟨hFalse, -⟩ | ⟨-, hIdle, hRoom, rfl⟩ := beginOp_cases hBegin
    · cases hFalse
    have hLeft := sum_left_le s.ops
    rw [hs.outstanding] at hRoom
    constructor
    · simp only [List.length_cons, hs.outstanding]
      omega
    · simp only [map_cons, sum_cons, Op.left, List.length_nil, logblocks, maxopblocks] at hLeft ⊢
      omega
    · intro op hop
      rcases mem_cons.mp hop with rfl | hop
      · exact Nat.zero_le _
      · exact hs.budget op hop
    · intro op hop b hb
      rcases mem_cons.mp hop with rfl | hop
      · cases hb
      · exact hs.logged op hop b hb
    · exact .inl hIdle
    · exact hs.phase
  · rename_i log hBegin
    cases h
    obtain ⟨-, rfl⟩ | ⟨hTrue, -⟩ := beginOp_cases hBegin
    · exact hs
    · cases hTrue
  · cases h

lemma write_reserved {op : Op} {b : Nat} (hs : Reserved s) (hBudget : (op.blocks.insert b).length ≤ maxopblocks)
    (h : s.next (.write op b) = some t) : Reserved t := by
  simp only [Session.next] at h
  split at h
  · rename_i hMem
    split at h
    · rename_i new log hWrite
      cases h
      obtain ⟨-, -, hCases⟩ := logWrite_cases hWrite
      have hSum := sum_left_erase hMem
      have hOld := hs.room
      have hOut : ({ op with blocks := op.blocks.insert b } :: s.ops.erase op).length = s.ops.length := by
        rw [List.length_cons, List.length_erase_of_mem hMem]
        have hPos := List.length_pos_of_mem hMem
        omega
      have hBudget' : ∀ op' ∈ ({ op with blocks := op.blocks.insert b } :: s.ops.erase op : List Op),
          op'.blocks.length ≤ maxopblocks := by
        intro op' hop'
        rcases mem_cons.mp hop' with rfl | hop'
        · exact hBudget
        · exact hs.budget op' (mem_of_mem_erase hop')
      have hNotEmpty : s.ops ≠ [] := List.ne_nil_of_mem hMem
      have hIdle := hs.committing.resolve_right hNotEmpty
      rcases hCases with ⟨-, hIn, rfl⟩ | ⟨-, hNew, rfl⟩
      · -- the block is in the log already: only the budget of the operation shrinks
        have hCard : op.blocks.length ≤ (op.blocks.insert b).length := List.length_le_length_insert
        refine ⟨by rw [hOut]; exact hs.outstanding, ?_, hBudget', ?_, .inl hIdle, hs.phase⟩
        · simp only [map_cons, sum_cons, Op.left] at hSum ⊢
          omega
        · intro op' hop' c hc
          rcases mem_cons.mp hop' with rfl | hop'
          · rcases List.mem_insert_iff.mp hc with rfl | hc
            · exact hIn
            · exact hs.logged op hMem c hc
          · exact hs.logged op' (mem_of_mem_erase hop') c hc
      · -- a block that is not in the log has not been logged by the caller either
        have hFresh : b ∉ op.blocks := fun hb => hNew (hs.logged op hMem b hb)
        have hCard : (op.blocks.insert b).length = op.blocks.length + 1 := List.length_insert_of_not_mem hFresh
        refine ⟨by rw [hOut]; exact hs.outstanding, ?_, hBudget', ?_, .inl hIdle, hs.phase⟩
        · simp only [map_cons, sum_cons, Op.left, List.length_append, List.length_singleton] at hSum ⊢
          omega
        · intro op' hop' c hc
          rcases mem_cons.mp hop' with rfl | hop'
          · rcases List.mem_insert_iff.mp hc with rfl | hc
            · exact List.mem_append_right _ (List.mem_singleton.mpr rfl)
            · exact List.mem_append_left _ (hs.logged op hMem c hc)
          · exact List.mem_append_left _ (hs.logged op' (mem_of_mem_erase hop') c hc)
    · cases h
  · cases h

lemma finish_reserved {op : Op} (hs : Reserved s) (h : s.next (.finish op) = some t) : Reserved t := by
  simp only [Session.next] at h
  split at h
  · rename_i hMem
    have hSum := sum_left_erase hMem
    have hRoom := hs.room
    have hLength := List.length_erase_of_mem hMem
    have hPos := List.length_pos_of_mem hMem
    split at h
    · rename_i log hEnd
      cases h
      obtain ⟨-, ⟨-, hLast, rfl⟩ | ⟨hFalse, -⟩⟩ := endOp_cases hEnd
      · have hEmpty : s.ops.erase op = [] := by
          rw [hs.outstanding] at hLast
          apply List.eq_nil_of_length_eq_zero
          omega
        rw [hEmpty]
        refine ⟨rfl, ?_, (fun op' hop' => nomatch hop'), (fun op' hop' => nomatch hop'), .inr rfl, fun _ => rfl⟩
        simp only [List.map_nil, List.sum_nil]
        omega
      · cases hFalse
    · rename_i log hEnd
      cases h
      obtain ⟨hIdle, ⟨hTrue, -⟩ | ⟨-, -, rfl⟩⟩ := endOp_cases hEnd
      · cases hTrue
      · refine ⟨?_, ?_, fun op' hop' => hs.budget op' (mem_of_mem_erase hop'),
          fun op' hop' => hs.logged op' (mem_of_mem_erase hop'), .inl hIdle, hs.phase⟩
        · dsimp only
          rw [hLength, hs.outstanding]
          omega
        · dsimp only
          omega
    · cases h
  · cases h

lemma commit_reserved (hs : Reserved s) (h : s.next .commit = some t) : Reserved t := by
  simp only [Session.next] at h
  split at h
  · rename_i pid hPhase
    cases h
    have hComm : s.log.committing = true := hs.phase (by rw [hPhase]; exact Phase.noConfusion)
    have hEmpty : s.ops = [] := by
      rcases hs.committing with hIdle | hEmpty
      · rw [hComm] at hIdle
        cases hIdle
      · exact hEmpty
    have hRoom := hs.room
    refine ⟨hs.outstanding, ?_, hs.budget, ?_, .inr hEmpty, fun _ => hComm⟩
    · simp only [List.length_nil]
      omega
    · rw [hEmpty]
      exact fun op hop => nomatch hop
  · cases h

lemma reopen_reserved (hs : Reserved s) (h : s.next .reopen = some t) : Reserved t := by
  simp only [Session.next] at h
  split at h
  · rename_i hEnd
    cases h
    cases hEnd
    exact ⟨hs.outstanding, hs.room, hs.budget, hs.logged, .inl rfl, fun hne => absurd rfl hne⟩
  · cases h

lemma Session.next_reserved {e : Event} (hs : Reserved s) (hBudget : Budget s e) (h : s.next e = some t) :
    Reserved t := by
  cases e with
  | begin pid => exact begin_reserved hs h
  | write op b => exact write_reserved hs hBudget h
  | finish op => exact finish_reserved hs h
  | commit => exact commit_reserved hs h
  | reopen => exact reopen_reserved hs h

end

abbrev Session.Reaches : Session → Prop := Reachable Session.Opened (fun s e t => s.next e = some t) Budget

lemma Session.Reaches.reserved {s : Session} (h : s.Reaches) : Reserved s :=
  h.invariant (fun _ => Session.Opened.reserved) (fun _ _ _ hs hBudget hNext => Session.next_reserved hs hBudget hNext)

/-- The header never overflows, and only a caller who has used up its whole budget can
find the log full. -/
theorem log_capacity {s : Session} (h : s.Reaches) :
    s.log.lh.length ≤ logblocks ∧
    ∀ op ∈ s.ops, ∀ b, op.blocks.length < maxopblocks → logWrite b s.log ≠ .error .logTooBig := by
  have hs := h.reserved
  have hRoom := hs.room
  constructor
  · omega
  · intro op hop b hCard hPanic
    have hFull := logWrite_tooBig hPanic
    have hSum := sum_left_erase hop
    simp only [Op.left, logblocks, maxopblocks] at hSum hRoom hCard
    omega

def Session.start : Session := ⟨⟨0, false, []⟩, [], .idle⟩

def fillLog : List Event :=
  [.begin 0, .begin 1, .begin 2] ++ (List.range 3).flatMap fun pid =>
    (List.range 10).map fun i => .write ⟨pid, ((List.range i).map (10 * pid + ·)).reverse⟩ (10 * pid + i)

theorem log_capacity_two_writes : ∃ s : Session, s.Reaches ∧ s.ops = [⟨7, [4]⟩] ∧ s.log.lh.length ≤ logblocks ∧
    ∀ b, logWrite b s.log ≠ .error .logTooBig := by
  have hRun : run Session.next [.begin 7, .write ⟨7, []⟩ 4, .write ⟨7, [4]⟩ 4] Session.start =
      some ⟨⟨1, false, [4]⟩, [⟨7, [4]⟩], .idle⟩ := by decide
  have hReaches : Session.Reaches ⟨⟨1, false, [4]⟩, [⟨7, [4]⟩], .idle⟩ := by
    refine Reachable.of_run (fun _ _ _ hNext => hNext) _ ?_ (.start ⟨rfl, rfl, rfl, rfl, rfl⟩) hRun
    intro e he s
    simp only [mem_cons, List.not_mem_nil, or_false] at he
    rcases he with rfl | rfl | rfl
    · trivial
    · show ([].insert 4 : List Nat).length ≤ 10
      decide
    · show ([4].insert 4 : List Nat).length ≤ 10
      decide
  obtain ⟨hLength, hPanic⟩ := log_capacity hReaches
  exact ⟨_, hReaches, rfl, hLength, fun b => hPanic _ (List.mem_singleton.mpr rfl) b (by decide)⟩

/-- With the log full, an operation that logs one of its ten blocks again stops the kernel. -/
theorem log_full_stops_absorption : ∃ s : Session, s.Reaches ∧ ∃ op ∈ s.ops, ∃ b ∈ op.blocks,
    op.blocks.length ≤ maxopblocks ∧ logWrite b s.log = .error .logTooBig := by
  have hRun : ((run (fun s e => if decide (Budget s e) then s.next e else none) fillLog Session.start).any fun s =>
      decide (∃ op ∈ s.ops, op.blocks.length ≤ maxopblocks ∧ 20 ∈ op.blocks ∧ s.log.lh.length = 30)) = true := by
    decide +kernel
  cases hs : run (fun s e => if decide (Budget s e) then s.next e else none) fillLog Session.start with
  | none =>
    rw [hs] at hRun
    cases hRun
  | some s =>
    rw [hs] at hRun
    obtain ⟨op, hop, hCard, hBlock, hFull⟩ := of_decide_eq_true hRun
    refine ⟨s, ?_, op, hop, 20, hBlock, hCard, ?_⟩
    · exact Reachable.of_checked_run (fun _ _ _ hNext => hNext) fillLog (fun _ _ _ h => of_decide_eq_true h)
        (.start ⟨rfl, rfl, rfl, rfl, rfl⟩) hs
    · have hTooBig : s.log.lh.length ≥ logblocks := hFull.ge
      simp [logWrite, Prog.read, bind, Prog.seq, Prog.stop, hTooBig]

end Xv6K230.Blk
