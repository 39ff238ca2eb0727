import Xv6K230.Console.Line
import Xv6K230.Lib.Queue

/-! # The console refines a line editor

The reference editor works on lists: the characters committed so far, the line being edited, and how many characters
have been taken.
-/

namespace Xv6K230

structure Editor where
  out : Text -- the committed characters, oldest first
  tail : Text
  taken : Nat

namespace Editor

def unread (d : Editor) : Nat := d.out.length - d.taken + d.tail.length

def append (d : Editor) (c : UInt8) : Editor := { d with tail := d.tail ++ [c] }

def commit (d : Editor) : Editor := { d with out := d.out ++ d.tail, tail := [] }

def insert (d : Editor) (c : UInt8) : Editor :=
  if c = lf ∨ c = ctrl 'D' ∨ (d.append c).unread = inputBufSize then (d.append c).commit else d.append c

def key (d : Editor) (c : UInt8) : Editor :=
  if c = 0 ∨ c = ctrl 'P' ∨ c = ctrl 'C' then d
  else if c = ctrl 'U' then { d with tail := [] }
  else if c = ctrl 'H' ∨ c = del then { d with tail := d.tail.dropLast }
  else if inputBufSize ≤ d.unread then d
  else d.insert (if c = cr then lf else c)

def input (d : Editor) : ConsInput → Editor
  | .key c => d.key c
  | .take => { d with taken := d.taken + 1 }

def edit (h : List ConsInput) : Editor := h.foldl input ⟨[], [], 0⟩

lemma edit_concat (h : List ConsInput) (i : ConsInput) : edit (h ++ [i]) = (edit h).input i := List.foldl_concat ..

end Editor

/-- The reference reader: which of the committed characters a read takes, and what it
returns; none if it goes to sleep. -/
inductive Reads (u : ConsUser) : ConsCall → Text → Text → Option Int → Prop where
  | done {c : ConsCall} {l : Text} (h : c.n ≤ 0) : Reads u c l [] (some (c.target - c.n))
  | wait {c : ConsCall} (h : 0 < c.n) (hk : u.killed = false) : Reads u c [] [] none
  | killed {c : ConsCall} (h : 0 < c.n) (hk : u.killed = true) : Reads u c [] [] (some (-1))
  | eof {c : ConsCall} {l : Text} (h : 0 < c.n) (hn : c.n = c.target) :
      Reads u c (ctrl 'D' :: l) [ctrl 'D'] (some 0)
  | pushBack {c : ConsCall} {l : Text} (h : 0 < c.n) (hn : c.n < c.target) :
      Reads u c (ctrl 'D' :: l) [] (some (c.target - c.n))
  | fault {c : ConsCall} {ch : UInt8} {l : Text} (h : 0 < c.n) (hd : ch ≠ ctrl 'D') (hu : u.copyout c.dst = false) :
      Reads u c (ch :: l) [ch] (some (c.target - c.n))
  | newline {c : ConsCall} {l : Text} (h : 0 < c.n) (hu : u.copyout c.dst = true) :
      Reads u c (lf :: l) [lf] (some (c.target - (c.n - 1)))
  | char {c : ConsCall} {ch : UInt8} {l taken : Text} {r : Option Int} (h : 0 < c.n) (hd : ch ≠ ctrl 'D') (hl : ch ≠ lf)
      (hu : u.copyout c.dst = true) (hr : Reads u { c with dst := c.dst + 1, n := c.n - 1 } l taken r) :
      Reads u c (ch :: l) (ch :: taken) r

namespace Cons

variable {s : Cons} {c : UInt8}

def pending (s : Cons) : Nat := (s.e - s.r).toNat

def committed (s : Cons) : Nat := (s.w - s.r).toNat

/-- The characters between `r` and `e`. -/
def line (s : Cons) : Text := Queue.window inputBufSize s.buf.get s.r.toNat s.pending

def ready (s : Cons) : Text := s.line.take s.committed

def tail (s : Cons) : Text := s.line.drop s.committed

structure Ordered (s : Cons) : Prop where
  committed : s.committed ≤ s.pending
  room : s.pending ≤ inputBufSize

lemma length_line (s : Cons) : s.line.length = s.pending := Queue.length_window

lemma ready_append_tail (s : Cons) : s.ready ++ s.tail = s.line := List.take_append_drop ..

lemma length_add_length (s : Cons) : s.ready.length + s.tail.length = s.pending := by
  rw [← List.length_append, ready_append_tail, length_line]

/-- The edit index stands `pending` positions after the read index, up to whole rounds. -/
lemma cell_e (s : Cons) : (s.r.toNat + s.pending) % inputBufSize = s.e.toNat % inputBufSize := by
  have hr := s.r.toNat_lt
  have he := s.e.toNat_lt
  rw [pending, UInt32.toNat_sub, inputBufSize]
  omega

lemma ne_w_iff (h : s.Ordered) : s.e ≠ s.w ↔ s.committed < s.pending := by
  have hr := s.r.toNat_lt
  have hw := s.w.toNat_lt
  have he := s.e.toNat_lt
  have hLe := h.committed
  rw [Ne, ← UInt32.toNat_inj]
  simp only [committed, pending, UInt32.toNat_sub] at hLe ⊢
  omega

lemma r_ne_w_iff : s.r ≠ s.w ↔ 0 < s.committed := by
  have hr := s.r.toNat_lt
  have hw := s.w.toNat_lt
  rw [Ne, ← UInt32.toNat_inj]
  simp only [committed, UInt32.toNat_sub]
  omega

/-! ## Storing a character -/

lemma pending_store (hRoom : s.pending < inputBufSize) : (s.store c).pending = s.pending + 1 := by
  have hr := s.r.toNat_lt
  have he := s.e.toNat_lt
  have hOne : (1 : UInt32).toNat = 1 := rfl
  simp only [pending, store, UInt32.toNat_sub, UInt32.toNat_add, hOne, inputBufSize] at hRoom ⊢
  omega

lemma line_store (hRoom : s.pending < inputBufSize) : (s.store c).line = s.line ++ [c] := by
  have hBehind : ∀ k, k ≠ (s.r.toNat + s.pending) % inputBufSize → (s.store c).buf.get k = s.buf.get k := by
    intro k hk
    rw [s.cell_e] at hk
    apply Bytes.get_write_of_disjoint
    rw [List.length_singleton]
    omega
  have hCell : (s.store c).buf.get (s.e.toNat % inputBufSize) = c := by
    have hLt : s.e.toNat % inputBufSize < 128 := Nat.mod_lt _ (by decide)
    refine (Bytes.get_write _ _ _ hLt).trans ?_
    rw [List.length_singleton, if_pos ⟨le_rfl, Nat.lt_succ_self _⟩, Nat.sub_self]
    rfl
  rw [line, pending_store hRoom]
  refine (Queue.window_push hRoom hBehind).trans ?_
  rw [s.cell_e, hCell]
  rfl

lemma Ordered.store (h : s.Ordered) (hRoom : s.pending < inputBufSize) : (s.store c).Ordered := by
  constructor
  · rw [pending_store hRoom]
    exact h.committed.trans (Nat.le_succ _)
  · rw [pending_store hRoom]
    exact hRoom

lemma ready_store (h : s.Ordered) (hRoom : s.pending < inputBufSize) : (s.store c).ready = s.ready := by
  rw [ready, line_store hRoom]
  apply List.take_append_of_le_length
  rw [length_line]
  exact h.committed

lemma tail_store (h : s.Ordered) (hRoom : s.pending < inputBufSize) : (s.store c).tail = s.tail ++ [c] := by
  rw [tail, line_store hRoom]
  apply List.drop_append_of_le_length
  rw [length_line]
  exact h.committed

/-! ## Committing the line -/

lemma committed_commit (s : Cons) : s.commit.committed = s.pending := rfl

lemma Ordered.commit (h : s.Ordered) : s.commit.Ordered := ⟨le_rfl, h.room⟩

lemma ready_commit (s : Cons) : s.commit.ready = s.ready ++ s.tail := by
  rw [ready_append_tail, ready, committed_commit]
  apply List.take_of_length_le
  rw [length_line]
  rfl

lemma tail_commit (s : Cons) : s.commit.tail = [] := by
  rw [tail, committed_commit]
  apply List.drop_of_length_le
  rw [length_line]
  rfl

/-! ## Erasing a character -/

def erase (s : Cons) : Cons := { s with e := s.e - 1 }

lemma pending_erase (hSome : 0 < s.pending) : s.pending = s.erase.pending + 1 := by
  have hr := s.r.toNat_lt
  have he := s.e.toNat_lt
  have hOne : (1 : UInt32).toNat = 1 := rfl
  simp only [pending, erase, UInt32.toNat_sub, hOne] at hSome ⊢
  omega

lemma line_erase (hSome : 0 < s.pending) : s.line = s.erase.line ++ [s.buf.get ((s.e - 1).toNat % inputBufSize)] := by
  have hCell : s.buf.get ((s.e - 1).toNat % inputBufSize) =
      s.buf.get ((s.r.toNat + s.erase.pending) % inputBufSize) := by
    rw [show s.r.toNat = s.erase.r.toNat from rfl, s.erase.cell_e]
    rfl
  rw [line, pending_erase hSome, Queue.window_succ, hCell]
  rfl

lemma Ordered.erase (h : s.Ordered) (hSome : s.committed < s.pending) : s.erase.Ordered := by
  have hPending := pending_erase (Nat.zero_lt_of_lt hSome)
  have hRoom := h.room
  have hSame : s.erase.committed = s.committed := rfl
  constructor
  · omega
  · omega

lemma ready_erase (h : s.Ordered) (hSome : s.committed < s.pending) : s.erase.ready = s.ready := by
  have hLe : s.committed ≤ s.erase.line.length := by
    rw [length_line]
    exact (h.erase hSome).committed
  rw [ready, ready, line_erase (Nat.zero_lt_of_lt hSome), List.take_append_of_le_length hLe]
  rfl

lemma tail_erase (h : s.Ordered) (hSome : s.committed < s.pending) :
    s.tail = s.erase.tail ++ [s.buf.get ((s.e - 1).toNat % inputBufSize)] := by
  have hLe : s.committed ≤ s.erase.line.length := by
    rw [length_line]
    exact (h.erase hSome).committed
  rw [tail, line_erase (Nat.zero_lt_of_lt hSome), List.drop_append_of_le_length hLe]
  rfl

/-- What an editing key does: the committed characters stay, the edited line becomes `l`. -/
structure Edits (s t : Cons) (l : Text) : Prop where
  ordered : t.Ordered
  ready : t.ready = s.ready
  tail : t.tail = l

lemma tail_nil (hNone : ¬ s.committed < s.pending) : s.tail = [] := by
  apply List.drop_of_length_le
  rw [length_line]
  exact Nat.le_of_not_lt hNone

lemma backspace_edits (h : s.Ordered) : s.Edits s.backspace s.tail.dropLast := by
  rw [backspace]
  split
  · rename_i hne
    have hSome := (ne_w_iff h).mp hne
    refine ⟨h.erase hSome, ready_erase h hSome, ?_⟩
    rw [tail_erase h hSome, List.dropLast_concat]
    rfl
  · rename_i hEq
    have hNone := tail_nil (mt (ne_w_iff h).mpr hEq)
    refine ⟨h, rfl, ?_⟩
    rw [hNone]
    rfl

lemma killLine_edits (s : Cons) (h : s.Ordered) (hLine : lf ∉ s.tail) : s.Edits s.killLine [] := by
  fun_induction killLine s with
  | case1 s hMore ih =>
    have hSome := (ne_w_iff h).mp hMore.1
    rw [tail_erase h hSome, List.mem_append, not_or] at hLine
    have hRest := ih (h.erase hSome) hLine.1
    exact ⟨hRest.ordered, hRest.ready.trans (ready_erase h hSome), hRest.tail⟩
  | case2 s hStop =>
    refine ⟨h, rfl, ?_⟩
    apply tail_nil
    intro hSome
    rw [tail_erase h hSome, List.mem_append, List.mem_singleton, not_or] at hLine
    exact hStop ⟨(ne_w_iff h).mpr hSome, fun hEq => hLine.2 hEq.symm⟩

/-! ## Taking a character -/

def advance (s : Cons) : Cons := { s with r := s.r + 1 }

lemma committed_advance (h : s.r ≠ s.w) : s.committed = s.advance.committed + 1 := by
  have hSome := r_ne_w_iff.mp h
  have hr := s.r.toNat_lt
  have hw := s.w.toNat_lt
  have hOne : (1 : UInt32).toNat = 1 := rfl
  simp only [committed, advance, UInt32.toNat_sub, UInt32.toNat_add, hOne] at hSome ⊢
  omega

lemma pending_advance (hSome : 0 < s.pending) : s.pending = s.advance.pending + 1 := by
  have hr := s.r.toNat_lt
  have he := s.e.toNat_lt
  have hOne : (1 : UInt32).toNat = 1 := rfl
  simp only [pending, advance, UInt32.toNat_sub, UInt32.toNat_add, hOne] at hSome ⊢
  omega

lemma line_advance (hSome : 0 < s.pending) : s.line = s.front :: s.advance.line := by
  have hNext : s.r.toNat + 1 ≡ s.advance.r.toNat [MOD inputBufSize] := by
    grind [UInt32.toNat_add, advance, Nat.ModEq, inputBufSize]
  rw [line, pending_advance hSome, Queue.window_pop, Queue.window_modEq hNext]
  rfl

lemma Ordered.advance (h : s.Ordered) (hne : s.r ≠ s.w) : s.advance.Ordered := by
  have hCommitted := committed_advance hne
  have hLe := h.committed
  have hRoom := h.room
  have hPending := pending_advance (s := s) (by omega)
  constructor
  · omega
  · omega

lemma ready_advance (h : s.Ordered) (hne : s.r ≠ s.w) : s.ready = s.front :: s.advance.ready := by
  have hSome : 0 < s.pending := (r_ne_w_iff.mp hne).trans_le h.committed
  rw [ready, line_advance hSome, committed_advance hne, List.take_succ_cons]
  rfl

lemma tail_advance (h : s.Ordered) (hne : s.r ≠ s.w) : s.tail = s.advance.tail := by
  have hSome : 0 < s.pending := (r_ne_w_iff.mp hne).trans_le h.committed
  rw [tail, line_advance hSome, committed_advance hne, List.drop_succ_cons]
  rfl

lemma ready_nil (hEq : s.r = s.w) : s.ready = [] := by
  have hZero : s.committed = 0 := by
    rw [committed, hEq]
    simp
  rw [ready, hZero, List.take_zero]

lemma putBack (s : Cons) : { s with r := s.r + 1 - 1 } = s := by
  rw [UInt32.add_sub_cancel]

end Cons

namespace Tty

open Editor

variable {s t : Tty} {c : UInt8}

structure Edited (s : Tty) : Prop where
  ordered : s.cons.Ordered
  out : (edit s.history).out = s.consumed ++ s.cons.ready
  taken : (edit s.history).taken = s.consumed.length
  tail : (edit s.history).tail = s.cons.tail
  newline : lf ∉ s.cons.tail

lemma Fresh.edited (h : s.Fresh) : s.Edited := by
  have hPending : s.cons.pending = 0 := by
    rw [Cons.pending, h.indices.1, h.indices.2.2]
    rfl
  have hCommitted : s.cons.committed = 0 := by
    rw [Cons.committed, h.indices.1, h.indices.2.1]
    rfl
  have hLine : s.cons.line = [] := List.eq_nil_of_length_eq_zero ((Cons.length_line _).trans hPending)
  have hReady : s.cons.ready = [] := by rw [Cons.ready, hLine, List.take_nil]
  have hTail : s.cons.tail = [] := by rw [Cons.tail, hLine, List.drop_nil]
  constructor
  · constructor
    · rw [hCommitted]
      exact Nat.zero_le _
    · rw [hPending]
      exact Nat.zero_le _
  · rw [h.rest.2.2, h.rest.2.1, hReady]
    rfl
  · rw [h.rest.2.2, h.rest.2.1]
    rfl
  · rw [h.rest.2.2, hTail]
    rfl
  · rw [hTail]
    exact List.not_mem_nil

lemma Edited.sleepers (h : s.Edited) (l : List ConsSleeper) : Edited { s with sleepers := l } :=
  ⟨h.ordered, h.out, h.taken, h.tail, h.newline⟩

lemma Edited.unread (h : s.Edited) : (edit s.history).unread = s.cons.pending := by
  rw [Editor.unread, h.out, h.taken, h.tail, List.length_append, Nat.add_sub_cancel_left]
  exact Cons.length_add_length _

lemma Edited.log (h : s.Edited) (hKey : (edit s.history).key c = edit s.history) :
    Edited { s with history := s.history ++ [.key c] } := by
  have hEdit : edit (s.history ++ [ConsInput.key c]) = edit s.history := (edit_concat ..).trans hKey
  constructor
  · exact h.ordered
  · rw [hEdit]
    exact h.out
  · rw [hEdit]
    exact h.taken
  · rw [hEdit]
    exact h.tail
  · exact h.newline

lemma Edited.edits (h : s.Edited) {f : Cons → Cons} {l : Text} (hf : s.cons.Edits (f s.cons) l)
    (hKey : (edit s.history).key c = { edit s.history with tail := l }) (hLine : lf ∉ l) :
    Edited ({ s with history := s.history ++ [ConsInput.key c] }.mapCons f) := by
  have hEdit : edit (s.history ++ [ConsInput.key c]) = { edit s.history with tail := l } := (edit_concat ..).trans hKey
  constructor
  · exact hf.ordered
  · change (edit (s.history ++ [ConsInput.key c])).out = s.consumed ++ (f s.cons).ready
    rw [hEdit, hf.ready]
    exact h.out
  · change (edit (s.history ++ [ConsInput.key c])).taken = s.consumed.length
    rw [hEdit]
    exact h.taken
  · change (edit (s.history ++ [ConsInput.key c])).tail = (f s.cons).tail
    rw [hEdit, hf.tail]
  · change lf ∉ (f s.cons).tail
    rw [hf.tail]
    exact hLine

lemma Edited.store (h : s.Edited) {k : UInt8} (hRoom : s.cons.pending < inputBufSize)
    (hKey : (edit s.history).key k = (edit s.history).append c) (hLine : c ≠ lf) :
    Edited ({ s with history := s.history ++ [ConsInput.key k] }.mapCons fun b => b.store c) := by
  have hEdit : edit (s.history ++ [ConsInput.key k]) = (edit s.history).append c := (edit_concat ..).trans hKey
  have hTail := Cons.tail_store (c := c) h.ordered hRoom
  constructor
  · exact h.ordered.store hRoom
  · change (edit (s.history ++ [ConsInput.key k])).out = s.consumed ++ (s.cons.store c).ready
    rw [hEdit, Cons.ready_store h.ordered hRoom]
    exact h.out
  · change (edit (s.history ++ [ConsInput.key k])).taken = s.consumed.length
    rw [hEdit]
    exact h.taken
  · change (edit (s.history ++ [ConsInput.key k])).tail = (s.cons.store c).tail
    rw [hEdit, hTail, ← h.tail]
    rfl
  · change lf ∉ (s.cons.store c).tail
    rw [hTail, List.mem_append, List.mem_singleton, not_or]
    exact ⟨h.newline, hLine.symm⟩

lemma Edited.finish (h : s.Edited) {k : UInt8} (hRoom : s.cons.pending < inputBufSize)
    (hKey : (edit s.history).key k = ((edit s.history).append c).commit) :
    Edited (({ s with history := s.history ++ [ConsInput.key k] }.mapCons fun b => b.store c).mapCons Cons.commit) := by
  have hEdit : edit (s.history ++ [ConsInput.key k]) = ((edit s.history).append c).commit := (edit_concat ..).trans hKey
  have hReady : (s.cons.store c).commit.ready = s.cons.ready ++ (s.cons.tail ++ [c]) := by
    rw [Cons.ready_commit, Cons.ready_store h.ordered hRoom, Cons.tail_store h.ordered hRoom]
  constructor
  · exact (h.ordered.store hRoom).commit
  · change (edit (s.history ++ [ConsInput.key k])).out = s.consumed ++ (s.cons.store c).commit.ready
    rw [hEdit, hReady, ← h.tail, ← List.append_assoc, ← h.out]
    rfl
  · change (edit (s.history ++ [ConsInput.key k])).taken = s.consumed.length
    rw [hEdit]
    exact h.taken
  · change (edit (s.history ++ [ConsInput.key k])).tail = (s.cons.store c).commit.tail
    rw [hEdit, Cons.tail_commit]
    rfl
  · change lf ∉ (s.cons.store c).commit.tail
    rw [Cons.tail_commit]
    exact List.not_mem_nil

lemma insert_edited (h : s.Edited) (hKey : (edit s.history).key c =
      if c = 0 then edit s.history
      else if inputBufSize ≤ (edit s.history).unread then edit s.history
      else (edit s.history).insert (if c = cr then lf else c)) :
    Edited ({ s with history := s.history ++ [ConsInput.key c] }.insert c) := by
  rw [h.unread] at hKey
  rw [Tty.insert]
  split
  · rename_i hStore
    have hRoom : s.cons.pending < inputBufSize := hStore.2
    rw [if_neg hStore.1, if_neg (Nat.not_le_of_lt hRoom)] at hKey
    obtain ⟨d, hd⟩ : ∃ d, d = if c = cr then lf else c := ⟨_, rfl⟩
    have hFull : (s.cons.store d).pending = ((edit s.history).append d).unread := by
      grind [h.unread, Cons.pending_store, List.length_append, Editor.unread, Editor.append]
    rw [← hd, Editor.insert, ← hFull] at hKey
    dsimp only
    rw [← hd]
    split
    · rename_i hEnd
      exact (h.finish hRoom (hKey.trans (if_pos hEnd))).sleepers _
    · rename_i hOpen
      exact h.store hRoom (hKey.trans (if_neg hOpen)) fun hEq => hOpen (.inl hEq)
  · rename_i hDrop
    apply h.log
    rw [hKey]
    split
    · rfl
    · rename_i hZero
      exact if_pos (Nat.le_of_not_lt fun hRoom => hDrop ⟨hZero, hRoom⟩)

lemma consoleintr_edited (h : s.Edited) (hNext : s.consoleintr c = some t) : t.Edited := by
  have hCtrl : ctrl 'P' ≠ 0 ∧ ctrl 'U' ≠ 0 ∧ ctrl 'C' ≠ 0 ∧ ctrl 'H' ≠ 0 ∧ del ≠ 0 := by decide
  unfold consoleintr at hNext
  dsimp only at hNext
  split at hNext
  · rename_i hP
    cases hNext
    apply h.log
    rw [Editor.key, if_pos (.inr (.inl hP))]
  · rename_i hP
    split at hNext
    · rename_i hU
      cases hNext
      refine h.edits (Cons.killLine_edits _ h.ordered h.newline) ?_ List.not_mem_nil
      subst hU
      rfl
    · rename_i hU
      split at hNext
      · cases hNext
      · split at hNext
        · grind [h.log, Editor.key]
        · rename_i hC
          have hKey : (edit s.history).key c = if c = 0 then edit s.history
              else if c = ctrl 'H' ∨ c = del then { edit s.history with tail := (edit s.history).tail.dropLast }
              else if inputBufSize ≤ (edit s.history).unread then edit s.history
              else (edit s.history).insert (if c = cr then lf else c) := by
            rw [Editor.key]
            simp only [hP, hC, hU, or_false, if_false]
          split at hNext
          · rename_i hH
            cases hNext
            have hNonzero : c ≠ 0 := by
              grind
            rw [if_neg hNonzero, if_pos hH, h.tail] at hKey
            refine h.edits (Cons.backspace_edits h.ordered) hKey ?_
            exact fun hMem => h.newline (List.dropLast_subset _ hMem)
          · grind [insert_edited]

lemma Edited.take (h : s.Edited) (hne : s.cons.r ≠ s.cons.w) : s.take.Edited := by
  have hReady := Cons.ready_advance h.ordered hne
  have hTail := Cons.tail_advance h.ordered hne
  have hEdit : edit (s.history ++ [ConsInput.take]) = { edit s.history with taken := (edit s.history).taken + 1 } :=
    edit_concat ..
  constructor
  · exact h.ordered.advance hne
  · change (edit (s.history ++ [ConsInput.take])).out = s.consumed ++ [s.cons.front] ++ s.cons.advance.ready
    rw [hEdit, List.append_assoc, List.singleton_append, ← hReady]
    exact h.out
  · change (edit (s.history ++ [ConsInput.take])).taken = (s.consumed ++ [s.cons.front]).length
    rw [hEdit, List.length_append, ← h.taken]
    rfl
  · change (edit (s.history ++ [ConsInput.take])).tail = s.cons.advance.tail
    rw [hEdit, ← hTail]
    exact h.tail
  · change lf ∉ s.cons.advance.tail
    rw [← hTail]
    exact h.newline

structure Served (u : ConsUser) (c : ConsCall) (s : Tty) (r : Option Int) (t : Tty) : Prop where
  edited : t.Edited
  reads : ∃ taken, Reads u c s.cons.ready taken r ∧ t.consumed = s.consumed ++ taken ∧ s.cons.ready = taken ++ t.cons.ready
  sleepers : ∀ x ∈ t.sleepers, x ∈ s.sleepers ∨ x.call.n ≤ x.call.target

lemma Edited.served_same (h : s.Edited) {u : ConsUser} {c : ConsCall} {r : Option Int} (hReads : Reads u c s.cons.ready [] r) :
    Served u c s r s :=
  ⟨h, ⟨[], hReads, (List.append_nil _).symm, rfl⟩, fun _ hx => .inl hx⟩

lemma Edited.served_take (h : s.Edited) (hne : s.cons.r ≠ s.cons.w) {u : ConsUser} {c : ConsCall} {r : Option Int}
    (hReads : Reads u c (s.cons.front :: s.cons.advance.ready) [s.cons.front] r) : Served u c s r s.take := by
  have hReady := Cons.ready_advance h.ordered hne
  refine ⟨h.take hne, ⟨[s.cons.front], ?_, rfl, hReady⟩, fun _ hx => .inl hx⟩
  rw [hReady]
  exact hReads

lemma consoleread_served (u : ConsUser) (c : ConsCall) (s : Tty) (h : s.Edited) (hc : c.n ≤ c.target) :
    Served u c s (consoleread u c s).1 (consoleread u c s).2 := by
  fun_induction consoleread u c s with
  | case1 c s hn hEmpty hKilled =>
    apply h.served_same
    rw [Cons.ready_nil hEmpty]
    exact .killed hn hKilled
  | case2 c s hn hEmpty hKilled =>
    refine ⟨h.sleepers _, ⟨[], ?_, (List.append_nil _).symm, rfl⟩, ?_⟩
    · rw [Cons.ready_nil hEmpty]
      exact .wait hn (Bool.eq_false_of_not_eq_true hKilled)
    · intro x hx
      rcases List.mem_cons.mp hx with rfl | hx
      · exact .inr hc
      · exact .inl hx
  | case3 c s hn hne hEof hMore =>
    have hSame : s.mapCons (fun b => { b with r := b.r + 1 - 1 }) = s := by
      rw [mapCons, Cons.putBack]
    dsimp only
    rw [hSame]
    apply h.served_same
    rw [Cons.ready_advance h.ordered hne, hEof]
    exact .pushBack hn hMore
  | case4 c s hn hne hEof hMore =>
    have hAll : c.n = c.target := by omega
    apply h.served_take hne
    rw [hEof, hAll, Int.sub_self]
    exact .eof hn hAll
  | case5 c s hn hne hEof hCopy hLine =>
    apply h.served_take hne
    rw [hLine]
    exact .newline hn hCopy
  | case6 c s hn hne hEof hCopy hLine ih =>
    obtain ⟨hEdited, ⟨taken, hReads, hConsumed, hReady⟩, hSleepers⟩ := ih (h.take hne) (by simp only; omega)
    have hFront := Cons.ready_advance h.ordered hne
    refine ⟨hEdited, ⟨s.cons.front :: taken, ?_, ?_, ?_⟩, hSleepers⟩
    · rw [hFront]
      exact .char hn hEof hLine hCopy hReads
    · rw [hConsumed]
      exact List.append_assoc ..
    · rw [hFront]
      exact congrArg (s.cons.front :: ·) hReady
  | case7 c s hn hne hEof hCopy =>
    apply h.served_take hne
    exact .fault hn hEof (Bool.eq_false_of_not_eq_true hCopy)
  | case8 c s hn =>
    apply h.served_same
    exact .done (Int.not_lt.mp hn)

structure Sound (s : Tty) : Prop where
  edited : s.Edited
  sleepers : ∀ x ∈ s.sleepers, x.call.n ≤ x.call.target

lemma Sound.served {u : ConsUser} {c : ConsCall} {r : Option Int} (h : s.Sound) (hServed : Served u c s r t) : t.Sound := by
  refine ⟨hServed.edited, ?_⟩
  intro x hx
  rcases hServed.sleepers x hx with hx | hx
  · exact h.sleepers x hx
  · exact hx

lemma Sound.map (h : s.Sound) {f : ConsSleeper → ConsSleeper} (hf : ∀ x, (f x).call = x.call) :
    Sound { s with sleepers := s.sleepers.map f } := by
  refine ⟨h.edited.sleepers _, ?_⟩
  intro x hx
  obtain ⟨y, hy, rfl⟩ := List.mem_map.mp hx
  rw [hf y]
  exact h.sleepers y hy

lemma Sound.erase (h : s.Sound) (x : ConsSleeper) : Sound { s with sleepers := s.sleepers.erase x } :=
  ⟨h.edited.sleepers _, fun y hy => h.sleepers y (List.mem_of_mem_erase hy)⟩

lemma insert_sleepers (s : Tty) (c : UInt8) :
    (s.insert c).sleepers = s.sleepers ∨ (s.insert c).sleepers = s.sleepers.map fun x => { x with awake := true } := by
  rw [Tty.insert]
  split
  · generalize (if c = cr then lf else c) = d
    dsimp only
    split
    · exact .inr rfl
    · exact .inl rfl
  · exact .inl rfl

lemma consoleintr_sleepers (hNext : s.consoleintr c = some t) :
    t.sleepers = s.sleepers ∨ t.sleepers = s.sleepers.map fun x => { x with awake := true } := by
  unfold consoleintr at hNext
  dsimp only at hNext
  split at hNext
  · cases hNext
    exact .inl rfl
  · split at hNext
    · cases hNext
      exact .inl rfl
    · split at hNext
      · cases hNext
      · split at hNext
        · cases hNext
          exact .inl rfl
        · split at hNext
          · cases hNext
            exact .inl rfl
          · cases hNext
            exact insert_sleepers _ c

lemma Sound.consoleintr (h : s.Sound) (hNext : s.consoleintr c = some t) : t.Sound := by
  refine ⟨consoleintr_edited h.edited hNext, ?_⟩
  rcases consoleintr_sleepers hNext with hEq | hEq
  · rw [hEq]
    exact h.sleepers
  · rw [hEq]
    exact (h.map (f := fun x => { x with awake := true }) fun _ => rfl).sleepers

lemma Sound.next {e : ConsEvent} (h : s.Sound) (hNext : s.next e = some t) : t.Sound := by
  cases e with
  | key c => exact h.consoleintr hNext
  | call c u =>
    obtain ⟨hTarget, ⟨⟩⟩ := Option.ite_none_right_eq_some.mp hNext
    exact h.served (consoleread_served u c s h.edited hTarget.ge)
  | resume c u =>
    obtain ⟨hMem, ⟨⟩⟩ := Option.ite_none_right_eq_some.mp hNext
    exact (h.erase _).served (consoleread_served u c _ (h.erase _).edited (h.sleepers _ hMem))
  | kill pid =>
    cases hNext
    apply h.map
    intro x
    split <;> rfl

lemma Reaches.sound (h : s.Reaches) : s.Sound :=
  h.invariant (fun _ hFresh => ⟨hFresh.edited, by rw [hFresh.rest.1]; exact fun _ hx => absurd hx List.not_mem_nil⟩)
    fun _ _ _ hs _ hNext => hs.next hNext

lemma ready_of_editing (h : s.Edited) (hKey : c = ctrl 'U' ∨ c = ctrl 'H' ∨ c = del) (hNext : s.consoleintr c = some t) :
    t.cons.ready = s.cons.ready := by
  rcases hKey with rfl | rfl | rfl
  · cases hNext
    exact (Cons.killLine_edits _ h.ordered h.newline).ready
  · cases hNext
    exact (Cons.backspace_edits h.ordered).ready
  · cases hNext
    exact (Cons.backspace_edits h.ordered).ready

end Tty

/-- The console is a line editor in front of its readers. In every state of every run the
indices stay in order and within the buffer, the characters consumed so far and those that
are ready are the ones that the reference editor has committed, editing keys leave the
committed characters alone, and a read that starts or continues takes and returns what
the reference reader does. -/
theorem console_line_discipline {s : Tty} (h : s.Reaches) :
    ((s.cons.w - s.cons.r).toNat ≤ (s.cons.e - s.cons.r).toNat ∧ (s.cons.e - s.cons.r).toNat ≤ inputBufSize) ∧
    (Editor.edit s.history).out = s.consumed ++ s.cons.ready ∧ (Editor.edit s.history).tail = s.cons.tail ∧
    (Editor.edit s.history).taken = s.consumed.length ∧
    (∀ c t, c = ctrl 'U' ∨ c = ctrl 'H' ∨ c = del → s.consoleintr c = some t → t.cons.ready = s.cons.ready) ∧
    ∀ c u, c.n = c.target ∨ ⟨c, true⟩ ∈ s.sleepers → ∃ taken, Reads u c s.cons.ready taken (consoleread u c s).1 ∧
      (consoleread u c s).2.consumed = s.consumed ++ taken ∧ s.cons.ready = taken ++ (consoleread u c s).2.cons.ready := by
  have hs := h.sound
  refine ⟨⟨hs.edited.ordered.committed, hs.edited.ordered.room⟩, hs.edited.out, hs.edited.tail, hs.edited.taken, ?_, ?_⟩
  · intro c t hKey hNext
    exact Tty.ready_of_editing hs.edited hKey hNext
  · intro c u hc
    apply (Tty.consoleread_served u c s hs.edited ?_).reads
    rcases hc with hn | hMem
    · exact hn.le
    · exact hs.sleepers _ hMem

namespace TtySample

def fresh : Tty := ⟨⟨Bytes.fill 0, 0, 0, 0⟩, [], [], []⟩

lemma fresh_fresh : fresh.Fresh := ⟨⟨rfl, rfl, rfl⟩, ⟨rfl, rfl, rfl⟩⟩

def keys : List ConsEvent := [.key 97, .key 98, .key 8, .key 13]

def typed : Tty := (Transition.run Tty.next keys fresh).getD fresh

def user : ConsUser := ⟨false, fun _ => true⟩

def readTen : ConsCall := ⟨1, 0, 10, 10⟩

lemma typed_reached : typed.Reaches :=
  Transition.Reachable.of_run (fun _ _ _ h => h) keys (fun _ _ _ => trivial) (.start fresh_fresh) rfl

lemma consoleread_readTen : consoleread user readTen typed = (some 2, typed.take.take) := by
  rw [consoleread, if_pos (by decide), if_neg (by decide), if_neg (by decide), if_pos (by decide), if_neg (by decide)]
  rw [consoleread, if_pos (by decide), if_neg (by decide), if_neg (by decide), if_pos (by decide), if_pos (by decide)]
  rfl

end TtySample

open TtySample in
theorem console_line_discipline_read : ∃ s : Tty, s.Reaches ∧ s.consumed = [97, 10] ∧
    (Editor.edit s.history).out = s.consumed ++ s.cons.ready := by
  have hRead : typed.take.take.Reaches := by
    apply Transition.Reachable.next (l := .call readTen user) typed_reached trivial
    rw [Tty.next, if_pos (by decide), consoleread_readTen]
  exact ⟨_, hRead, by decide, (console_line_discipline hRead).2.1⟩

end Xv6K230
