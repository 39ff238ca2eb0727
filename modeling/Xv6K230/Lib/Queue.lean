import Mathlib.Data.List.Range
import Mathlib.Data.Nat.ModEq

/-! # Queues in a circular store

The elements between two counters of a store with `c` cells.
-/

namespace Queue

variable {α : Type} {c : Nat} {data data' : Nat → α} {r r' n : Nat}

/-- The `n` elements from position `r` on. -/
def window (c : Nat) (data : Nat → α) (r n : Nat) : List α := (List.range n).map fun j => data ((r + j) % c)

@[simp] lemma length_window : (window c data r n).length = n := by
  rw [window, List.length_map, List.length_range]

@[simp] lemma window_zero : window c data r 0 = [] := rfl

lemma window_modEq (h : r ≡ r' [MOD c]) : window c data r n = window c data r' n := by
  apply List.map_congr_left
  intro j _
  exact congrArg data (h.add_right j)

/-- Distinct positions of a window that is no longer than the store have distinct cells. -/
lemma cell_ne {j k : Nat} (hjk : j < k) (hk : k < c) : (r + j) % c ≠ (r + k) % c := by
  intro hEq
  have hMod : j ≡ k [MOD c] := Nat.ModEq.add_left_cancel' r hEq
  have hLt := Nat.ModEq.eq_of_lt_of_lt hMod (hjk.trans hk) hk
  exact absurd hLt hjk.ne

lemma window_of_behind (hn : n < c) (hSame : ∀ k, k ≠ (r + n) % c → data' k = data k) :
    window c data' r n = window c data r n := by
  apply List.map_congr_left
  intro j hj
  exact hSame _ (cell_ne (List.mem_range.mp hj) hn)

lemma window_succ : window c data r (n + 1) = window c data r n ++ [data ((r + n) % c)] := by
  rw [window, List.range_succ, List.map_append]
  rfl

lemma window_push (hn : n < c) (hSame : ∀ k, k ≠ (r + n) % c → data' k = data k) :
    window c data' r (n + 1) = window c data r n ++ [data' ((r + n) % c)] := by
  rw [← window_of_behind hn hSame, window_succ]

lemma window_pop : window c data r (n + 1) = data (r % c) :: window c data (r + 1) n := by
  rw [window, List.range_succ_eq_map, List.map_cons, List.map_map, Nat.add_zero]
  congr 1
  apply List.map_congr_left
  intro j _
  change data ((r + (j + 1)) % c) = data ((r + 1 + j) % c)
  rw [Nat.add_right_comm, Nat.add_assoc]

end Queue
