import Xv6K230.Pipe.Transfer
import Xv6K230.Lib.Queue

/-! # A pipe is a bounded queue

The bytes stored by writers are those handed to readers followed by those between the
counters, in every state of every run, however often the counters have wrapped around.
-/

namespace Xv6K230

namespace PipeLine

variable {s : PipeLine} {u : PipeUser} {c : PipeCall}

def pending (s : PipeLine) : Nat := (s.pipe.nwrite - s.pipe.nread).toNat

def buffered (s : PipeLine) : Text := Queue.window pipesize s.pipe.data.get s.pipe.nread.toNat s.pending

structure Ordered (s : PipeLine) : Prop where
  room : s.pending ≤ pipesize
  order : s.sent = s.received ++ s.buffered

lemma Ordered.wakeup (h : s.Ordered) (writers : Bool) : (s.wakeup writers).Ordered := ⟨h.room, h.order⟩

lemma Ordered.sleep (h : s.Ordered) : (s.sleep c).Ordered := ⟨h.room, h.order⟩

lemma Ordered.sleepers (h : s.Ordered) (l : List PipeSleeper) : Ordered { s with sleepers := l } := ⟨h.room, h.order⟩

lemma Fresh.ordered (h : s.Fresh) : s.Ordered := by
  have hNone : s.pending = 0 := by rw [pending, h.counters.1, h.counters.2]; rfl
  constructor
  · rw [hNone]
    exact Nat.zero_le _
  · rw [buffered, hNone, h.rest.2.1, h.rest.2.2, Queue.window_zero]
    rfl

/-- The write counter stands `pending` positions after the read counter, up to whole rounds. -/
lemma cell_nwrite (s : PipeLine) : (s.pipe.nread.toNat + s.pending) % pipesize = s.pipe.nwrite.toNat % pipesize := by
  have hr := s.pipe.nread.toNat_lt
  have hw := s.pipe.nwrite.toNat_lt
  rw [pending, UInt32.toNat_sub, pipesize]
  omega

lemma pending_lt (h : s.Ordered) (hFull : s.pipe.nwrite ≠ s.pipe.nread + UInt32.ofNat pipesize) :
    s.pending < pipesize := by
  apply lt_of_le_of_ne h.room
  intro hEq
  apply hFull
  have hr := s.pipe.nread.toNat_lt
  have hw := s.pipe.nwrite.toNat_lt
  rw [pending, UInt32.toNat_sub, pipesize] at hEq
  apply UInt32.toNat_inj.mp
  rw [UInt32.toNat_add, pipesize, UInt32.toNat_ofNat']
  omega

lemma pending_store (ch : UInt8) (hRoom : s.pending < pipesize) : (s.store ch).pending = s.pending + 1 := by
  have hr := s.pipe.nread.toNat_lt
  have hw := s.pipe.nwrite.toNat_lt
  have hOne : (1 : UInt32).toNat = 1 := rfl
  simp only [pending, store, UInt32.toNat_sub, UInt32.toNat_add, hOne, pipesize] at hRoom ⊢
  omega

lemma pending_pos (hSome : s.pipe.nread ≠ s.pipe.nwrite) : ∃ n, s.pending = n + 1 := by
  apply Nat.exists_eq_succ_of_ne_zero
  intro hZero
  apply hSome
  have hr := s.pipe.nread.toNat_lt
  have hw := s.pipe.nwrite.toNat_lt
  rw [pending, UInt32.toNat_sub] at hZero
  apply UInt32.toNat_inj.mp
  omega

lemma pending_take {n : Nat} (hn : s.pending = n + 1) : s.take.pending = n := by
  have hr := s.pipe.nread.toNat_lt
  have hw := s.pipe.nwrite.toNat_lt
  have hOne : (1 : UInt32).toNat = 1 := rfl
  simp only [pending, take, UInt32.toNat_sub, UInt32.toNat_add, hOne] at hn ⊢
  omega

lemma buffered_store (ch : UInt8) (hRoom : s.pending < pipesize) :
    (s.store ch).buffered = s.buffered ++ [ch] := by
  have hBehind : ∀ k, k ≠ (s.pipe.nread.toNat + s.pending) % pipesize →
      (s.store ch).pipe.data.get k = s.pipe.data.get k := by
    intro k hk
    rw [s.cell_nwrite] at hk
    apply Bytes.get_write_of_disjoint
    rw [List.length_singleton]
    omega
  have hCell : (s.store ch).pipe.data.get (s.pipe.nwrite.toNat % pipesize) = ch := by
    have hLt : s.pipe.nwrite.toNat % pipesize < 512 := Nat.mod_lt _ (by decide)
    refine (Bytes.get_write _ _ _ hLt).trans ?_
    rw [List.length_singleton, if_pos ⟨le_rfl, Nat.lt_succ_self _⟩, Nat.sub_self]
    rfl
  rw [buffered, pending_store ch hRoom]
  refine (Queue.window_push hRoom hBehind).trans ?_
  rw [s.cell_nwrite, hCell]
  rfl

lemma buffered_take {n : Nat} (hn : s.pending = n + 1) : s.buffered = s.front :: s.take.buffered := by
  have hNext : s.pipe.nread.toNat + 1 ≡ s.take.pipe.nread.toNat [MOD pipesize] := by
    grind [UInt32.toNat_add, take, Nat.ModEq, pipesize]
  rw [buffered, hn, Queue.window_pop, Queue.window_modEq hNext, buffered, pending_take hn]
  rfl

lemma Ordered.store (h : s.Ordered) (hFull : s.pipe.nwrite ≠ s.pipe.nread + UInt32.ofNat pipesize) (ch : UInt8) :
    (s.store ch).Ordered := by
  have hRoom := pending_lt h hFull
  constructor
  · rw [pending_store ch hRoom]
    exact hRoom
  · rw [buffered_store ch hRoom, ← List.append_assoc]
    exact congrArg (· ++ [ch]) h.order

lemma Ordered.take (h : s.Ordered) (hSome : s.pipe.nread ≠ s.pipe.nwrite) : s.take.Ordered := by
  obtain ⟨n, hn⟩ := pending_pos hSome
  have hRoom := h.room
  constructor
  · rw [pending_take hn]
    omega
  · have hOrder := h.order
    rw [buffered_take hn] at hOrder
    change s.sent = (s.received ++ [s.front]) ++ s.take.buffered
    rw [List.append_assoc]
    exact hOrder

end PipeLine

section

variable {u : PipeUser} {c : PipeCall}

lemma pipewriteLoop_ordered (i : Int) (s : PipeLine) (h : s.Ordered) : (pipewriteLoop u c i s).2.Ordered := by
  fun_induction pipewriteLoop u c i s with
  | case1 => exact h
  | case2 => exact (h.wakeup false).sleep
  | case3 => exact h.wakeup false
  | case4 i s _ _ hFull ch _ ih => exact ih (h.store hFull ch)
  | case5 => exact h.wakeup false

lemma pipereadLoop_ordered (i : Int) (s : PipeLine) (h : s.Ordered) : (pipereadLoop u c i s).2.Ordered := by
  fun_induction pipereadLoop u c i s with
  | case1 => exact h
  | case2 i s _ hSome _ ih => exact ih (h.take hSome)
  | case3 => exact h
  | case4 => exact h

lemma pipereadLoop_pos (i : Int) (s : PipeLine) (hi : 0 < i) : 0 < (pipereadLoop u c i s).1 := by
  fun_induction pipereadLoop u c i s with
  | case1 => exact hi
  | case2 i s _ _ _ ih => exact ih (by omega)
  | case3 i s =>
    dsimp only
    split <;> omega
  | case4 => exact hi

lemma pipereadLoop_zero {s : PipeLine} (hn : 0 < c.n) (h : (pipereadLoop u c 0 s).1 = 0) :
    s.pipe.nread = s.pipe.nwrite ∧ pipereadLoop u c 0 s = (0, s) := by
  rw [pipereadLoop, if_pos hn] at h ⊢
  split at h
  · rename_i hEmpty
    exact ⟨hEmpty, if_pos hEmpty⟩
  · split at h
    · have hPos := pipereadLoop_pos (u := u) (c := c) (0 + 1) s.take (by decide)
      omega
    · cases h

end

namespace PipeLine

variable {s t : PipeLine}

lemma serve_ordered (c : PipeCall) (u : PipeUser) (h : s.Ordered) : (s.serve c u).2.Ordered := by
  rw [serve]
  split
  · exact pipewriteLoop_ordered c.i s h
  · rw [piperead]
    split
    · split
      · exact h
      · exact h.sleep
    · exact (pipereadLoop_ordered 0 s h).wakeup true

lemma close_ordered (writable : Bool) (h : s.Ordered) : (s.close writable).Ordered := by
  rw [close]
  split <;> exact ⟨h.room, h.order⟩

lemma next_ordered {e : PipeEvent} (h : s.Ordered) (hNext : s.next e = some t) : t.Ordered := by
  cases e with
  | call c u =>
    obtain ⟨-, ⟨⟩⟩ := Option.ite_none_right_eq_some.mp hNext
    exact serve_ordered c u h
  | resume c u =>
    obtain ⟨-, ⟨⟩⟩ := Option.ite_none_right_eq_some.mp hNext
    exact serve_ordered c u (h.sleepers _)
  | close writable =>
    obtain ⟨-, ⟨⟩⟩ := Option.ite_none_right_eq_some.mp hNext
    exact close_ordered writable h
  | kill pid =>
    cases hNext
    exact h.sleepers _

lemma Reaches.ordered (h : s.Reaches) : s.Ordered :=
  h.invariant (fun _ hFresh => hFresh.ordered) fun _ _ _ hs _ hNext => next_ordered hs hNext

/-- A read of at least one byte that returns 0 has found the pipe empty and its write end closed. -/
lemma piperead_zero {c : PipeCall} {u : PipeUser} (hn : 0 < c.n) (h : (piperead u c s).1 = some 0) :
    s.pipe.nread = s.pipe.nwrite ∧ s.pipe.writeopen = false ∧ (piperead u c s).2.pipe = s.pipe := by
  rw [piperead] at h ⊢
  split at h
  · split at h <;> cases h
  · rename_i hWait
    rw [if_neg hWait]
    obtain ⟨hEmpty, hLoop⟩ := pipereadLoop_zero hn (Option.some.inj h)
    rw [hLoop]
    exact ⟨hEmpty, by simpa [hEmpty] using hWait, rfl⟩

end PipeLine

/-- A pipe holds at most `PIPESIZE` bytes, hands them over in the order in which they were
stored, and reports the end of the file only when it is empty and has no writer left. -/
theorem pipe_fifo {s : PipeLine} (h : s.Reaches) :
    (s.pipe.nwrite - s.pipe.nread).toNat ≤ pipesize ∧
    s.received <+: s.sent ∧
    s.sent = s.received ++ Queue.window pipesize s.pipe.data.get s.pipe.nread.toNat (s.pipe.nwrite - s.pipe.nread).toNat ∧
    ∀ c u, c.write = false → 0 < c.n → (s.serve c u).1 = some 0 →
      (s.serve c u).2.pipe.nread = (s.serve c u).2.pipe.nwrite ∧ (s.serve c u).2.pipe.writeopen = false := by
  have hs := h.ordered
  refine ⟨hs.room, ⟨s.buffered, hs.order.symm⟩, hs.order, ?_⟩
  intro c u hRead hn hZero
  rw [PipeLine.serve, hRead, if_neg Bool.false_ne_true] at hZero ⊢
  obtain ⟨hEmpty, hClosed, hPipe⟩ := PipeLine.piperead_zero hn hZero
  rw [hPipe]
  exact ⟨hEmpty, hClosed⟩

namespace PipeSample

def fresh : PipeLine := ⟨⟨0, 0, true, true, Bytes.fill 0⟩, [], [], []⟩

lemma fresh_fresh : fresh.Fresh := ⟨⟨rfl, rfl⟩, ⟨rfl, rfl⟩, ⟨rfl, rfl, rfl⟩⟩

def user : PipeUser := ⟨fun _ => false, fun _ => some 7, fun _ => true⟩

def writeOne : PipeCall := ⟨1, true, 0, 1, 0⟩

def readOne : PipeCall := ⟨2, false, 0, 1, 0⟩

def full : PipeLine := (fresh.store 7).wakeup false

lemma serve_writeOne : fresh.serve writeOne user = (some 1, full) := by
  have hFirst : pipewriteLoop user writeOne 0 fresh = pipewriteLoop user writeOne 1 (fresh.store 7) := by
    rw [pipewriteLoop, if_pos (by decide), if_neg (by decide), if_neg (by decide)]
    rfl
  have hSecond : pipewriteLoop user writeOne 1 (fresh.store 7) = (some 1, full) := by
    rw [pipewriteLoop, if_neg (by decide)]
    rfl
  exact hFirst.trans hSecond

lemma serve_readOne : full.serve readOne user = (some 1, full.take.wakeup true) := by
  have hFirst : pipereadLoop user readOne 0 full = pipereadLoop user readOne 1 full.take := by
    rw [pipereadLoop, if_pos (by decide), if_neg (by decide), if_pos rfl]
    rfl
  have hSecond : pipereadLoop user readOne 1 full.take = (1, full.take) := by
    rw [pipereadLoop, if_neg (by decide)]
  have hRead : full.serve readOne user = piperead user readOne full := rfl
  rw [hRead, piperead, if_neg (by decide), hFirst, hSecond]

end PipeSample

open PipeSample in
theorem pipe_fifo_one_byte : ∃ s : PipeLine, s.Reaches ∧ s.received = [7] ∧ s.received <+: s.sent := by
  have hFull : full.Reaches := by
    apply Transition.Reachable.next (l := .call writeOne user) (.start fresh_fresh) trivial
    rw [PipeLine.next, if_pos (by decide), serve_writeOne]
  have hTaken : (full.take.wakeup true).Reaches := by
    apply Transition.Reachable.next (l := .call readOne user) hFull trivial
    rw [PipeLine.next, if_pos (by decide), serve_readOne]
  exact ⟨full.take.wakeup true, hTaken, by decide, (pipe_fifo hTaken).2.1⟩

end Xv6K230
