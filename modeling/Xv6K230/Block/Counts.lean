import Xv6K230.Block.Cache
import Xv6K230.Lib.Transition

/-! # Processes that share the buffer cache

The cache and the log used by any number of processes, section by section. Every reference and every pin is
counted in its buffer, and a lock belongs to the one reference that has taken it.
-/

namespace Xv6K230.Blk

open Fs (Block rootdev)

/-- What the holder of a buffer has done with it since `bread`. -/
inductive Use where
  | clean
  | modified
  | logged
  | written
  deriving DecidableEq

inductive Stage where
  | waiting -- counted by bget, not yet through acquiresleep
  | locked -- before bread has looked at valid
  | ready (use : Use) -- bread has returned
  | leaving -- in brelse, the lock is given back
  deriving DecidableEq

structure Ref where
  pid : Nat
  blockno : Nat -- the argument of bread
  buf : Bi
  stage : Stage
  deriving DecidableEq

def Stage.holds : Stage → Bool
  | .locked | .ready _ => true
  | .waiting | .leaving => false

@[simp] lemma Stage.holds_waiting : Stage.waiting.holds = false := rfl

@[simp] lemma Stage.holds_locked : Stage.locked.holds = true := rfl

@[simp] lemma Stage.holds_ready (use : Use) : (Stage.ready use).holds = true := rfl

@[simp] lemma Stage.holds_leaving : Stage.leaving.holds = false := rfl

/-- The caller of `bread` works with the buffer. -/
def Stage.usable : Stage → Bool
  | .ready _ => true
  | .waiting | .locked | .leaving => false

lemma Stage.usable_iff {st : Stage} : st.usable = true ↔ ∃ use, st = .ready use := by
  cases st <;> simp [Stage.usable]

structure Sys where
  blk : Blocks
  refs : List Ref
  pins : Bi → Nat -- by bpin outside of log_write
  logPins : List Nat -- blocks whose buffers log_write has pinned
  ops : List Nat -- processes between begin_op and end_op
  committer : Option Nat
  stored : Nat → Block -- what has last been stored in each block

inductive Act where
  | bget (pid blockno : Nat)
  | acquire (r : Ref)
  | fill (r : Ref)
  | store (r : Ref) (data : Block)
  | bwrite (r : Ref)
  | logWrite (r : Ref)
  | bpin (r : Ref)
  | bunpin (b : Bi)
  | unpin (r : Ref) -- the call of bunpin in install_trans
  | release (r : Ref)
  | put (r : Ref)
  | beginOp (pid : Nat)
  | endOp (pid : Nat)
  | clear -- log.lh.n = 0 at the end of commit
  | reopen

/-- The reference `r` moves on to the stage `st`. -/
def Sys.move (s : Sys) (r : Ref) (st : Stage) : List Ref := { r with stage := st } :: s.refs.erase r

def Sys.section (s : Sys) (m : BM Unit) (f : Blocks → Sys) : Option Sys :=
  match m s.blk with
  | .ok (_, blk) => some (f blk)
  | .error _ => none

def Sys.next (s : Sys) : Act → Option Sys
  | .bget pid blockno =>
    match Blk.bget rootdev blockno s.blk with
    | .ok (b, blk) => some { s with blk := blk, refs := ⟨pid, blockno, b, .waiting⟩ :: s.refs }
    | .error _ => none
  | .acquire r =>
    if r ∈ s.refs ∧ r.stage = .waiting then
      s.section (acquiresleep r.pid r.buf) fun blk => { s with blk := blk, refs := s.move r .locked }
    else none
  | .fill r =>
    if r ∈ s.refs ∧ r.stage = .locked then
      s.section (Blk.fill r.pid r.buf) fun blk => { s with blk := blk, refs := s.move r (.ready .clean) }
    else none
  | .store r data =>
    if r ∈ s.refs ∧ r.stage.usable then
      s.section (modBuf r.buf fun v => { v with data := data }) fun blk =>
        { s with
          blk := blk
          refs := s.move r (.ready .modified)
          stored := fun n => if n = (s.blk.buf r.buf).blockno then data else s.stored n }
    else none
  | .bwrite r =>
    if r ∈ s.refs ∧ r.stage.usable then
      s.section (Blk.bwrite r.pid r.buf) fun blk => { s with blk := blk, refs := s.move r (.ready .written) }
    else none
  | .logWrite r =>
    if r ∈ s.refs ∧ r.stage.usable then
      s.section (logWriteBuf r.buf) fun blk =>
        { s with
          blk := blk
          refs := s.move r (.ready .logged)
          logPins := s.logPins.insert (s.blk.buf r.buf).blockno }
    else none
  | .bpin r =>
    if r ∈ s.refs ∧ r.stage.usable then
      s.section (Blk.bpin r.buf) fun blk =>
        { s with blk := blk, pins := fun b => if b = r.buf then s.pins b + 1 else s.pins b }
    else none
  | .bunpin b =>
    if 0 < s.pins b then
      s.section (Blk.bunpin b) fun blk =>
        { s with blk := blk, pins := fun c => if c = b then s.pins c - 1 else s.pins c }
    else none
  | .unpin r =>
    if r ∈ s.refs ∧ r.stage = .ready .written ∧ (s.blk.buf r.buf).blockno ∈ s.logPins ∧ s.committer = some r.pid then
      s.section (Blk.bunpin r.buf) fun blk =>
        { s with blk := blk, logPins := s.logPins.erase (s.blk.buf r.buf).blockno }
    else none
  | .release r =>
    if r ∈ s.refs ∧ r.stage.usable ∧ r.stage ≠ .ready .modified then
      s.section (brelseLock r.pid r.buf) fun blk => { s with blk := blk, refs := s.move r .leaving }
    else none
  | .put r =>
    if r ∈ s.refs ∧ r.stage = .leaving then
      s.section (bput r.buf) fun blk => { s with blk := blk, refs := s.refs.erase r }
    else none
  | .beginOp pid =>
    match onLog Blk.beginOp s.blk with
    | .ok (true, blk) => some { s with blk := blk, ops := pid :: s.ops }
    | .ok (false, blk) => some { s with blk := blk }
    | .error _ => none
  | .endOp pid =>
    if pid ∈ s.ops then
      match onLog Blk.endOp s.blk with
      | .ok (true, blk) => some { s with blk := blk, ops := s.ops.erase pid, committer := some pid }
      | .ok (false, blk) => some { s with blk := blk, ops := s.ops.erase pid }
      | .error _ => none
    else none
  | .clear =>
    if s.committer.isSome ∧ s.logPins = [] then
      some { s with blk := { s.blk with log := { s.blk.log with lh := [] } } }
    else none
  | .reopen =>
    if s.committer.isSome ∧ s.blk.log.lh = [] then
      s.section (onLog endCommit) fun blk => { s with blk := blk, committer := none }
    else none

structure Sys.Fresh (s : Sys) : Prop where
  buf : ∀ b, (s.blk.buf b).valid = false ∧ (s.blk.buf b).dev = 0 ∧ (s.blk.buf b).lock = none ∧
    (s.blk.buf b).refcnt = 0
  links : s.blk.links = binit
  log : s.blk.log = ⟨0, false, []⟩
  rest : s.refs = [] ∧ (∀ b, s.pins b = 0) ∧ s.logPins = [] ∧ s.ops = [] ∧ s.committer = none
  stored : s.stored = s.blk.disk

def OnDisk (_ : Sys) : Act → Prop
  | .bget _ blockno => blockno < 2 ^ 22
  | _ => True

abbrev Sys.Reaches : Sys → Prop := Transition.Reachable Sys.Fresh (fun s a t => s.next a = some t) OnDisk

/-! ## References that move -/

section

variable {refs : List Ref} {r : Ref}

lemma countP_move {p : Ref → Bool} (h : r ∈ refs) (r' : Ref) :
    (r' :: refs.erase r).countP p + (if p r then 1 else 0) = refs.countP p + (if p r' then 1 else 0) := by
  have hPerm := (List.perm_cons_erase h).countP_eq p
  rw [List.countP_cons] at hPerm ⊢
  omega

lemma mem_move {r' x : Ref} (h : x ∈ r' :: refs.erase r) : x = r' ∨ x ∈ refs := by
  rcases List.mem_cons.mp h with h | h
  · exact .inl h
  · exact .inr (List.mem_of_mem_erase h)

lemma mem_move_of_ne {r' x : Ref} (h : x ∈ refs) (hne : x ≠ r) : x ∈ r' :: refs.erase r :=
  List.mem_cons_of_mem _ ((List.mem_erase_of_ne hne).mpr h)

end

structure Counted (refcnt : Bi → Nat) (lock : Bi → Option Nat) (refs : List Ref) (pins : Bi → Nat) : Prop where
  refcnt : ∀ i, refcnt i = refs.countP (·.buf = i) + pins i
  holders : ∀ i, refs.countP (fun r => r.buf = i && r.stage.holds) = (lock i).toList.length
  owner : ∀ r ∈ refs, r.stage.holds = true → lock r.buf = some r.pid

section

variable {refcnt c : Bi → Nat} {lock lock' : Bi → Option Nat} {refs : List Ref} {pins q : Bi → Nat} {r : Ref}

lemma Counted.alone (h : Counted refcnt lock refs pins) (hr : r ∈ refs) (hHolds : r.stage.holds = true) {x : Ref}
    (hx : x ∈ refs.erase r) (hBuf : x.buf = r.buf) : x.stage.holds = false := by
  cases hxHolds : x.stage.holds with
  | false => rfl
  | true =>
    have hOne := h.holders r.buf
    rw [h.owner r hr hHolds] at hOne
    have hTwo := (List.perm_cons_erase hr).countP_eq fun y => y.buf = r.buf && y.stage.holds
    have hPos : 0 < (refs.erase r).countP fun y => y.buf = r.buf && y.stage.holds :=
      List.countP_pos_iff.mpr ⟨x, hx, by simp [hBuf, hxHolds]⟩
    rw [hOne, List.countP_cons] at hTwo
    simp only [Option.toList_some, List.length_singleton, decide_true, hHolds, Bool.and_self, if_true] at hTwo
    omega

lemma Counted.move (h : Counted refcnt lock refs pins) (hr : r ∈ refs) {u : Stage}
    (hst : u.holds = r.stage.holds) : Counted refcnt lock ({ r with stage := u } :: refs.erase r) pins := by
  constructor
  · grind [h.refcnt, countP_move]
  · grind [h.holders, countP_move]
  · grind [h.owner]

lemma Counted.acquire (h : Counted refcnt lock refs pins) (hr : r ∈ refs) (hWait : r.stage = .waiting)
    (hFree : lock r.buf = none) :
    Counted refcnt (fun i => if i = r.buf then some r.pid else lock i)
      ({ r with stage := .locked } :: refs.erase r) pins := by
  constructor
  · grind [h.refcnt, countP_move]
  · intro i
    have hMove := countP_move (p := fun x => x.buf = i && x.stage.holds) hr { r with stage := .locked }
    have hOld := h.holders i
    simp only [hWait, Stage.holds_waiting, Stage.holds_locked, Bool.and_false, Bool.false_eq_true, if_false, Bool.and_true,
      decide_eq_true_eq] at hMove
    by_cases hi : i = r.buf
    · grind
    · rw [if_neg (Ne.symm hi)] at hMove
      rw [if_neg hi]
      omega
  · intro x hx hHolds
    rcases mem_move hx with rfl | hx
    · exact if_pos rfl
    · have hOwner := h.owner x hx hHolds
      by_cases hBuf : x.buf = r.buf
      · rw [hBuf, hFree] at hOwner
        cases hOwner
      · rw [if_neg hBuf, hOwner]

lemma Counted.release (h : Counted refcnt lock refs pins) (hr : r ∈ refs) (hHolds : r.stage.holds = true) :
    Counted refcnt (fun i => if i = r.buf then none else lock i)
      ({ r with stage := .leaving } :: refs.erase r) pins := by
  constructor
  · grind [h.refcnt, countP_move]
  · intro i
    have hMove := countP_move (p := fun x => x.buf = i && x.stage.holds) hr { r with stage := .leaving }
    have hOld := h.holders i
    simp only [hHolds, Stage.holds_leaving, Bool.and_false, Bool.false_eq_true, if_false, Bool.and_true,
      decide_eq_true_eq] at hMove
    by_cases hi : i = r.buf
    · grind
    · rw [if_neg (Ne.symm hi)] at hMove
      rw [if_neg hi]
      omega
  · intro x hx hxHolds
    rcases List.mem_cons.mp hx with rfl | hx
    · cases hxHolds
    · by_cases hBuf : x.buf = r.buf
      · rw [h.alone hr hHolds hx hBuf] at hxHolds
        cases hxHolds
      · rw [if_neg hBuf]
        exact h.owner x (List.mem_of_mem_erase hx) hxHolds

lemma Counted.add (h : Counted refcnt lock refs pins) {pid n : Nat} {b : Bi}
    (hNew : ∀ i, c i = refcnt i + if i = b then 1 else 0) :
    Counted c lock (⟨pid, n, b, .waiting⟩ :: refs) pins := by
  constructor
  · grind [h.refcnt]
  · intro i
    rw [List.countP_cons]
    simp only [Stage.holds_waiting, Bool.and_false, Bool.false_eq_true, if_false, add_zero]
    exact h.holders i
  · intro x hx hHolds
    rcases List.mem_cons.mp hx with rfl | hx
    · cases hHolds
    · exact h.owner x hx hHolds

lemma Counted.drop (h : Counted refcnt lock refs pins) (hr : r ∈ refs) (hLeave : r.stage = .leaving)
    (hNew : ∀ i, c i = refcnt i - if i = r.buf then 1 else 0) :
    Counted c lock (refs.erase r) pins := by
  have hPerm := List.perm_cons_erase hr
  constructor
  · intro i
    have hOld := hPerm.countP_eq fun x => x.buf = i
    rw [List.countP_cons] at hOld
    rw [hNew, h.refcnt i, hOld]
    simp only [decide_eq_true_eq, eq_comm (a := r.buf)]
    omega
  · intro i
    have hOld := hPerm.countP_eq fun x => x.buf = i && x.stage.holds
    rw [List.countP_cons] at hOld
    simp only [hLeave, Stage.holds_leaving, Bool.and_false, Bool.false_eq_true, if_false, add_zero] at hOld
    rw [← hOld]
    exact h.holders i
  · exact fun x hx => h.owner x (List.mem_of_mem_erase hx)

lemma Counted.repin (h : Counted refcnt lock refs pins)
    (hNew : ∀ i, c i + pins i = refcnt i + q i) : Counted c lock refs q := by
  refine ⟨fun i => ?_, h.holders, h.owner⟩
  have hOld := h.refcnt i
  have hi := hNew i
  omega

lemma Counted.free (h : Counted refcnt lock refs pins) {b : Bi} (hb : refcnt b = 0) :
    (∀ x ∈ refs, x.buf ≠ b) ∧ pins b = 0 := by
  have hOld := h.refcnt b
  rw [hb] at hOld
  constructor
  · grind [List.countP_pos_iff]
  · omega

end

end Xv6K230.Blk
