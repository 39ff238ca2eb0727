import Mathlib.Data.Nat.Bitwise
import Mathlib.Data.List.Basic
import Mathlib.Tactic.Ring

/-! # Fixed-size byte arrays

A buffer of `n` bytes with the three ways a program looks into one: byte ranges, little-endian numbers and single bits.
-/

/-- A buffer of exactly `n` bytes. -/
def Bytes (n : Nat) : Type := Fin n → UInt8

/-- Bytes of any number. -/
abbrev Text : Type := List UInt8

namespace Bytes

variable {n : Nat}

def fill (v : UInt8) : Bytes n := fun _ => v

def get (b : Bytes n) (i : Nat) : UInt8 := if h : i < n then b ⟨i, h⟩ else 0

def read (b : Bytes n) (off len : Nat) : List UInt8 :=
  (List.range len).map fun i => b.get (off + i)

-- the range test is Boolean because that evaluates faster in the kernel
def write (b : Bytes n) (off : Nat) (l : List UInt8) : Bytes n := fun i =>
  bif off.ble i.val && i.val.blt (off + l.length) then l.getD (i.val - off) 0 else b i

@[simp] lemma get_fill (v : UInt8) {i : Nat} (hi : i < n) : (fill v : Bytes n).get i = v := by
  simp [get, fill, hi]

@[simp] lemma get_fill_zero (i : Nat) : (fill 0 : Bytes n).get i = 0 := by
  simp [get, fill]

lemma get_write (b : Bytes n) (off : Nat) (l : List UInt8) {i : Nat} (hi : i < n) :
    (b.write off l).get i =
      if off ≤ i ∧ i < off + l.length then l.getD (i - off) 0 else b.get i := by
  simp only [get, write, hi, dif_pos]
  by_cases h : off ≤ i ∧ i < off + l.length
  · rw [if_pos h, Nat.ble_eq_true_of_le h.1, Nat.blt_eq.mpr h.2]
    rfl
  · grind [Nat.le_of_ble_eq_true, Nat.blt_eq]

lemma get_write_of_disjoint (b : Bytes n) (off : Nat) (l : List UInt8) {i : Nat}
    (h : i < off ∨ off + l.length ≤ i) : (b.write off l).get i = b.get i := by
  by_cases hi : i < n
  · rw [get_write b off l hi, if_neg (by omega)]
  · simp [get, hi]

@[simp] lemma length_read (b : Bytes n) (off len : Nat) : (b.read off len).length = len := by
  simp [read]

lemma read_write_same (b : Bytes n) (off : Nat) (l : List UInt8) (h : off + l.length ≤ n) :
    (b.write off l).read off l.length = l := by
  apply List.ext_getElem
  · simp
  · grind [get_write, read]

lemma read_congr {a b : Bytes n} {off len : Nat}
    (h : ∀ i, off ≤ i → i < off + len → a.get i = b.get i) : a.read off len = b.read off len := by
  apply List.map_congr_left
  intro i hi
  have hlt := List.mem_range.mp hi
  exact h (off + i) (by omega) (by omega)

lemma read_write_of_disjoint (b : Bytes n) (off : Nat) (l : List UInt8) (o len : Nat)
    (h : o + len ≤ off ∨ off + l.length ≤ o) : (b.write off l).read o len = b.read o len := by
  apply read_congr
  intro i hi hlt
  exact get_write_of_disjoint b off l (by omega)

/-! ## Little-endian numbers -/

def bytesLE : Nat → Nat → List UInt8
  | 0, _ => []
  | k + 1, v => UInt8.ofNat v :: bytesLE k (v / 256)

def numLE : List UInt8 → Nat
  | [] => 0
  | b :: bs => b.toNat + 256 * numLE bs

@[simp] lemma length_bytesLE (k v : Nat) : (bytesLE k v).length = k := by
  induction k generalizing v with
  | zero => rfl
  | succ k ih => simp [bytesLE, ih]

lemma numLE_lt (l : List UInt8) : numLE l < 256 ^ l.length := by
  induction l with
  | nil => simp [numLE]
  | cons b bs ih =>
    have hb := b.toNat_lt
    simp only [numLE, List.length_cons, pow_succ]
    omega

lemma numLE_bytesLE (k v : Nat) : numLE (bytesLE k v) = v % 256 ^ k := by
  induction k generalizing v with
  | zero => simp [bytesLE, numLE, Nat.mod_one]
  | succ k ih =>
    have hByte : (UInt8.ofNat v).toNat = v % 256 := by simp
    have hSplit : v % (256 * 256 ^ k) = v % 256 + 256 * (v / 256 % 256 ^ k) := Nat.mod_mul
    rw [bytesLE, numLE, ih, hByte, ← hSplit, Nat.mul_comm, ← pow_succ]

lemma numLE_replicate_zero (k : Nat) : numLE (List.replicate k 0) = 0 := by
  induction k with
  | zero => rfl
  | succ k ih => simp [List.replicate_succ, numLE, ih]

/-- The `k`-byte number at offset `off`. -/
def getLE (b : Bytes n) (off k : Nat) : Nat := numLE (b.read off k)

def putLE (b : Bytes n) (off k v : Nat) : Bytes n := b.write off (bytesLE k v)

lemma getLE_putLE_same (b : Bytes n) {off k : Nat} (v : Nat) (h : off + k ≤ n) :
    (b.putLE off k v).getLE off k = v % 256 ^ k := by
  have hr := read_write_same b off (bytesLE k v) (by simpa using h)
  rw [length_bytesLE] at hr
  rw [getLE, putLE, hr, numLE_bytesLE]

lemma getLE_write_of_disjoint (b : Bytes n) (off : Nat) (l : List UInt8) (o k : Nat)
    (h : o + k ≤ off ∨ off + l.length ≤ o) : (b.write off l).getLE o k = b.getLE o k := by
  rw [getLE, getLE, read_write_of_disjoint b off l o k h]

lemma getLE_putLE_of_disjoint (b : Bytes n) (off k v o j : Nat)
    (h : o + j ≤ off ∨ off + k ≤ o) : (b.putLE off k v).getLE o j = b.getLE o j :=
  getLE_write_of_disjoint b off _ o j (by simpa using h)

@[simp] lemma getLE_fill_zero (off k : Nat) : (fill 0 : Bytes n).getLE off k = 0 := by
  have hr : (fill 0 : Bytes n).read off k = List.replicate k 0 := by
    apply List.ext_getElem <;> simp [read]
  rw [getLE, hr, numLE_replicate_zero]

/-! ## Arrays of 4-byte words -/

/-- Store the words `f 0, .., f (k - 1)` from offset `off` on. -/
def putWords (b : Bytes n) (off : Nat) (f : Nat → Nat) : Nat → Bytes n
  | 0 => b
  | k + 1 => (putWords b off f k).putLE (off + 4 * k) 4 (f k)

lemma getLE_putWords_of_disjoint (b : Bytes n) (off : Nat) (f : Nat → Nat) (k o j : Nat)
    (h : o + j ≤ off ∨ off + 4 * k ≤ o) : (b.putWords off f k).getLE o j = b.getLE o j := by
  induction k with
  | zero => rfl
  | succ k ih =>
    rw [putWords, getLE_putLE_of_disjoint _ _ _ _ _ _ (by omega)]
    exact ih (by omega)

lemma getLE_putWords_same (b : Bytes n) (off : Nat) (f : Nat → Nat) {k i : Nat} (hi : i < k)
    (h : off + 4 * k ≤ n) : (b.putWords off f k).getLE (off + 4 * i) 4 = f i % 2 ^ 32 := by
  induction k with
  | zero => omega
  | succ k ih =>
    grind [Nat.lt_succ_iff_lt_or_eq, getLE_putLE_of_disjoint, getLE_putLE_same, putWords]

/-! ## Bits -/

/-- Bit `i` of the buffer, counted from the low bit of byte 0. -/
def getBit (b : Bytes n) (i : Nat) : Bool := (b.get (i / 8)).toNat.testBit (i % 8)

def setBit (b : Bytes n) (i : Nat) : Bytes n :=
  b.write (i / 8) [UInt8.ofNat ((b.get (i / 8)).toNat ||| 2 ^ (i % 8))]

def clearBit (b : Bytes n) (i : Nat) : Bytes n :=
  b.write (i / 8) [UInt8.ofNat ((b.get (i / 8)).toNat &&& (255 - 2 ^ (i % 8)))]

lemma getBit_write_byte (b : Bytes n) {i : Nat} (hi : i / 8 < n) (v : Nat) (j : Nat) :
    (b.write (i / 8) [UInt8.ofNat v]).getBit j =
      if j / 8 = i / 8 then v.testBit (j % 8) else b.getBit j := by
  unfold getBit
  by_cases h : j / 8 = i / 8
  · rw [if_pos h, h, get_write _ _ _ hi, if_pos (by simp)]
    have hj : j % 8 < 8 := Nat.mod_lt j (by decide)
    have hByte : (UInt8.ofNat v).toNat = v % 2 ^ 8 := by simp
    simp only [Nat.sub_self, List.getD_cons_zero, hByte, Nat.testBit_mod_two_pow, hj, decide_true,
      Bool.true_and]
  · rw [if_neg h, get_write_of_disjoint]
    simp only [List.length_singleton]
    omega

lemma getBit_setBit (b : Bytes n) {i : Nat} (hi : i / 8 < n) (j : Nat) :
    (b.setBit i).getBit j = (decide (j = i) || b.getBit j) := by
  rw [setBit, getBit_write_byte b hi]
  by_cases h : j / 8 = i / 8
  · rw [if_pos h, Nat.testBit_or, Nat.testBit_two_pow, getBit, h, Bool.or_comm]
    congr 1
    simp only [decide_eq_decide]
    omega
  · rw [if_neg h]
    have hne : j ≠ i := fun he => h (by rw [he])
    simp [hne]

lemma testBit_mask_byte : ∀ k < 8, ∀ j < 8, (255 - 2 ^ k).testBit j = !decide (j = k) := by
  decide

lemma getBit_clearBit (b : Bytes n) {i : Nat} (hi : i / 8 < n) (j : Nat) :
    (b.clearBit i).getBit j = (!decide (j = i) && b.getBit j) := by
  rw [clearBit, getBit_write_byte b hi]
  by_cases h : j / 8 = i / 8
  · rw [if_pos h, Nat.testBit_and,
      testBit_mask_byte _ (Nat.mod_lt _ (by decide)) _ (Nat.mod_lt _ (by decide)), getBit, h, Bool.and_comm]
    congr 2
    simp only [decide_eq_decide]
    omega
  · rw [if_neg h]
    have hne : j ≠ i := fun he => h (by rw [he])
    simp [hne]

end Bytes
