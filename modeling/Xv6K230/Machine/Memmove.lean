import Mathlib.Data.BitVec
import Mathlib.Logic.Function.Basic

/-! # Overlapping moves

The two versions of `memmove`, in `kernel/string.c` and in `user/ulib.c`, on a memory of
bytes with 64-bit pointers. Both copy upwards or downwards, and they choose the direction
by different comparisons.
-/

namespace Xv6K230.Machine

open Function (update update_of_ne update_self)

abbrev Ptr : Type := BitVec 64

abbrev Ram : Type := Ptr → UInt8

-- while(n-- > 0) *d++ = *s++;
def copyUp : Nat → Ptr → Ptr → Ram → Ram
  | 0, _, _, mem => mem
  | n + 1, d, s, mem => copyUp n (d + 1) (s + 1) (update mem d (mem s))

-- while(n-- > 0) *--d = *--s;
def copyDown : Nat → Ptr → Ptr → Ram → Ram
  | 0, _, _, mem => mem
  | n + 1, d, s, mem => copyDown n (d - 1) (s - 1) (update mem (d - 1) (mem (s - 1)))

/-- `memmove` of the kernel. -/
def memmove (dst src : Ptr) (n : UInt32) (mem : Ram) : Ptr × Ram :=
  if n = 0 then (dst, mem)
  else
    let n := n.toNat
    if src < dst ∧ src + BitVec.ofNat 64 n > dst then
      (dst, copyDown n (dst + BitVec.ofNat 64 n) (src + BitVec.ofNat 64 n) mem)
    else (dst, copyUp n dst src mem)

/-- `memmove` of the user library. -/
def Ulib.memmove (vdst vsrc : Ptr) (n : Int32) (mem : Ram) : Ptr × Ram :=
  if vsrc > vdst then (vdst, copyUp n.toInt.toNat vdst vsrc mem)
  else (vdst, copyDown n.toInt.toNat (vdst + BitVec.ofInt 64 n.toInt) (vsrc + BitVec.ofInt 64 n.toInt) mem)

structure Moved (n : Nat) (d s : Ptr) (mem mem' : Ram) : Prop where
  moved : ∀ i < n, mem' (d + BitVec.ofNat 64 i) = mem (s + BitVec.ofNat 64 i)
  rest : ∀ a, (∀ i < n, a ≠ d + BitVec.ofNat 64 i) → mem' a = mem a

section

lemma add_succ (p : Ptr) (i : Nat) : p + 1 + BitVec.ofNat 64 i = p + BitVec.ofNat 64 (i + 1) := by
  rw [BitVec.ofNat_add, BitVec.add_assoc, BitVec.add_comm 1]
  rfl

lemma add_succ_sub (p : Ptr) (i : Nat) : p + BitVec.ofNat 64 (i + 1) - 1 = p + BitVec.ofNat 64 i := by
  rw [BitVec.ofNat_add, ← BitVec.add_assoc]
  exact BitVec.add_sub_cancel _ _

/-- Going up, no byte is stored where a later one is still to be read. -/
lemma copyUp_moved (n : Nat) {d s : Ptr} {mem : Ram}
    (hApart : ∀ i j, j < i → i < n → d + BitVec.ofNat 64 i ≠ d + BitVec.ofNat 64 j)
    (hUnread : ∀ i j, j < i → i < n → s + BitVec.ofNat 64 i ≠ d + BitVec.ofNat 64 j) : Moved n d s mem (copyUp n d s mem) := by
  induction n generalizing d s mem with
  | zero => exact ⟨fun i hi => absurd hi (Nat.not_lt_zero i), fun _ _ => rfl⟩
  | succ n ih =>
    have hMoved : Moved n (d + 1) (s + 1) (update mem d (mem s)) (copyUp (n + 1) d s mem) := by
      apply ih
      · intro i j hji hi
        rw [add_succ, add_succ]
        exact hApart _ _ (by omega) (by omega)
      · intro i j hji hi
        rw [add_succ, add_succ]
        exact hUnread _ _ (by omega) (by omega)
    have hFirst : ∀ i < n, d ≠ d + 1 + BitVec.ofNat 64 i := by
      intro i hi h
      rw [add_succ] at h
      apply hApart (i + 1) 0 (by omega) (by omega)
      simpa using h.symm
    constructor
    · intro i hi
      cases i with
      | zero =>
        have hLast := hMoved.rest d hFirst
        simpa using hLast
      | succ i =>
        have hNext := hMoved.moved i (by omega)
        rw [add_succ, add_succ] at hNext
        rw [hNext, update_of_ne]
        simpa using hUnread (i + 1) 0 (by omega) (by omega)
    · intro a ha
      rw [hMoved.rest a, update_of_ne]
      · simpa using ha 0 (by omega)
      · intro i hi
        rw [add_succ]
        exact ha (i + 1) (by omega)

/-- Going down, the same. -/
lemma copyDown_moved (n : Nat) {d s : Ptr} {mem : Ram}
    (hApart : ∀ i j, j < i → i < n → d + BitVec.ofNat 64 i ≠ d + BitVec.ofNat 64 j)
    (hUnread : ∀ i j, j < i → i < n → s + BitVec.ofNat 64 j ≠ d + BitVec.ofNat 64 i) :
    Moved n d s mem (copyDown n (d + BitVec.ofNat 64 n) (s + BitVec.ofNat 64 n) mem) := by
  induction n generalizing mem with
  | zero => exact ⟨fun i hi => absurd hi (Nat.not_lt_zero i), fun _ _ => rfl⟩
  | succ n ih =>
    rw [copyDown, add_succ_sub, add_succ_sub]
    have hMoved := @ih (update mem (d + BitVec.ofNat 64 n) (mem (s + BitVec.ofNat 64 n)))
      (fun i j hji hi => hApart i j hji (by omega)) fun i j hji hi => hUnread i j hji (by omega)
    constructor
    · intro i hi
      rcases Nat.lt_succ_iff_lt_or_eq.mp hi with hLt | rfl
      · rw [hMoved.moved i hLt, update_of_ne (hUnread n i hLt (by omega))]
      · rw [hMoved.rest _ fun j hj => hApart i j hj (by omega), update_self]
    · intro a ha
      rw [hMoved.rest a fun i hi => ha i (by omega), update_of_ne (ha n (by omega))]

end

section

variable {d s : Ptr} {n : Nat}

lemma toNat_add {p : Ptr} (h : p.toNat + n < 2 ^ 64) {i : Nat} (hi : i ≤ n) : (p + BitVec.ofNat 64 i).toNat = p.toNat + i := by
  rw [BitVec.toNat_add, BitVec.toNat_ofNat, Nat.add_mod_mod, Nat.mod_eq_of_lt (by omega)]

lemma add_ne {p q : Ptr} (hp : p.toNat + n < 2 ^ 64) (hq : q.toNat + n < 2 ^ 64) {i j : Nat} (hi : i < n) (hj : j < n)
    (h : p.toNat + i ≠ q.toNat + j) : p + BitVec.ofNat 64 i ≠ q + BitVec.ofNat 64 j := by
  intro hEq
  apply h
  rw [← toNat_add hp hi.le, ← toNat_add hq hj.le, hEq]

variable (hd : d.toNat + n < 2 ^ 64) (hs : s.toNat + n < 2 ^ 64) (mem : Ram)

include hd hs

lemma moved_up (h : ¬ (s < d ∧ d.toNat < s.toNat + n)) : Moved n d s mem (copyUp n d s mem) := by
  rw [BitVec.lt_def] at h
  apply copyUp_moved
  · exact fun i j hji hi => add_ne hd hd hi (by omega) (by omega)
  · exact fun i j hji hi => add_ne hs hd hi (by omega) (by omega)

lemma moved_down (h : s ≤ d) : Moved n d s mem (copyDown n (d + BitVec.ofNat 64 n) (s + BitVec.ofNat 64 n) mem) := by
  rw [BitVec.le_def] at h
  apply copyDown_moved
  · exact fun i j hji hi => add_ne hd hd hi (by omega) (by omega)
  · exact fun i j hji hi => add_ne hs hd (by omega) hi (by omega)

end

lemma memmove_moved {dst src : Ptr} {n : UInt32} (hd : dst.toNat + n.toNat < 2 ^ 64) (hs : src.toNat + n.toNat < 2 ^ 64)
    (mem : Ram) : (memmove dst src n mem).1 = dst ∧ Moved n.toNat dst src mem (memmove dst src n mem).2 := by
  unfold memmove
  split
  · rename_i h
    rw [h]
    exact ⟨rfl, fun i hi => absurd hi (Nat.not_lt_zero i), fun _ _ => rfl⟩
  · dsimp only
    have hEnd : src + BitVec.ofNat 64 n.toNat > dst ↔ dst.toNat < src.toNat + n.toNat := by
      rw [gt_iff_lt, BitVec.lt_def, toNat_add hs le_rfl]
    split
    · rename_i h
      exact ⟨rfl, moved_down hd hs mem (BitVec.le_of_lt h.1)⟩
    · rename_i h
      exact ⟨rfl, moved_up hd hs mem fun hOver => h ⟨hOver.1, hEnd.mpr hOver.2⟩⟩

lemma ulib_memmove_moved {dst src : Ptr} {n : Int32} (hn : 0 ≤ n.toInt) (hd : dst.toNat + n.toInt.toNat < 2 ^ 64)
    (hs : src.toNat + n.toInt.toNat < 2 ^ 64) (mem : Ram) :
    (Ulib.memmove dst src n mem).1 = dst ∧ Moved n.toInt.toNat dst src mem (Ulib.memmove dst src n mem).2 := by
  unfold Ulib.memmove
  split
  · rename_i h
    exact ⟨rfl, moved_up hd hs mem fun hLt => absurd hLt.1 (BitVec.lt_asymm h)⟩
  · rename_i h
    obtain ⟨k, hk⟩ := Int.eq_ofNat_of_zero_le hn
    rw [hk] at hd hs ⊢
    exact ⟨rfl, moved_down hd hs mem (BitVec.not_lt.mp h)⟩

/-- Both versions move the bytes of the source as they were before the call, however the two ranges overlap. -/
theorem memmove_exact (dst src : Ptr) (mem : Ram) :
    (∀ n : UInt32, dst.toNat + n.toNat < 2 ^ 64 → src.toNat + n.toNat < 2 ^ 64 →
      (memmove dst src n mem).1 = dst ∧ Moved n.toNat dst src mem (memmove dst src n mem).2) ∧
    ∀ n : Int32, 0 ≤ n.toInt → dst.toNat + n.toInt.toNat < 2 ^ 64 → src.toNat + n.toInt.toNat < 2 ^ 64 →
      (Ulib.memmove dst src n mem).1 = dst ∧ Moved n.toInt.toNat dst src mem (Ulib.memmove dst src n mem).2 :=
  ⟨fun _ hd hs => memmove_moved hd hs mem, fun _ hn hd hs => ulib_memmove_moved hn hd hs mem⟩

/-- Three bytes moved up by one. -/
theorem memmove_exact_overlap : Moved 3 9#64 8#64 (fun a => UInt8.ofNat a.toNat) (memmove 9 8 3 fun a => UInt8.ofNat a.toNat).2 ∧
    Moved 3 9#64 8#64 (fun a => UInt8.ofNat a.toNat) (Ulib.memmove 9 8 3 fun a => UInt8.ofNat a.toNat).2 :=
  ⟨((memmove_exact 9 8 _).1 3 (by decide) (by decide)).2, ((memmove_exact 9 8 _).2 3 (by decide) (by decide) (by decide)).2⟩

end Xv6K230.Machine
