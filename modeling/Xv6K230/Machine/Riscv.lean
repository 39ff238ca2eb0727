import Mathlib.Data.BitVec
import Mathlib.Tactic.IntervalCases

/-! # Addresses and page table entries of the Sv39 scheme

The address macros of `riscv.h` and `memlayout.h`, with addresses as natural numbers
below `2 ^ 64`, and the entry macros on 64-bit vectors, with the attribute bits 59 to 63
that the T-Head core adds above the page number.
-/

namespace Xv6K230.Riscv

def pgsize : Nat := 4096

def maxva : Nat := 2 ^ (9 + 9 + 9 + 12 - 1)

-- TRAMPOLINE and TRAPFRAME, the two pages at the top of every address space
def trampolineVa : Nat := maxva - pgsize
def trapframeVa : Nat := trampolineVa - pgsize

/-- The value a 64-bit unsigned register keeps of `x`. -/
def uint64 (x : Nat) : Nat := x % 2 ^ 64

def pgrounddown (a : Nat) : Nat := a / pgsize * pgsize

def pgroundup (sz : Nat) : Nat := pgrounddown (uint64 (sz + pgsize - 1))

def px (level va : Nat) : Nat := va / 2 ^ (12 + 9 * level) % 512

abbrev Pte : Type := BitVec 64

def pteV : Pte := 1#64 <<< 0
def pteR : Pte := 1#64 <<< 1
def pteW : Pte := 1#64 <<< 2
def pteX : Pte := 1#64 <<< 3
def pteU : Pte := 1#64 <<< 4
def pteA : Pte := 1#64 <<< 6
def pteD : Pte := 1#64 <<< 7

-- PTE_THEAD_MAEE: cacheable, bufferable and shareable memory
def pteTheadMaee : Pte := (1#64 <<< 62) ||| (1#64 <<< 61) ||| (1#64 <<< 60)

-- PTE_IO: strongly ordered device memory
def pteIo : Pte := pteR ||| pteW ||| (1#64 <<< 63)

-- the mask of the page number, as uvmcopy writes it out
def ppnMask : Pte := 0x003FFFFFFFFFFC00#64

def pa2pte (pa : Nat) : Pte := (BitVec.ofNat 64 pa >>> 12) <<< 10

def pte2pa (pte : Pte) : Nat := (((pte >>> 10) <<< 12) &&& 0x00FFFFFFFFFFFF00#64).toNat

/-- `pte & flag` as a C condition. -/
def Pte.has (pte flag : Pte) : Bool := pte &&& flag != 0#64

lemma pgroundup_eq {sz : Nat} (h : sz + 4095 < 2 ^ 64) : pgroundup sz = (sz + 4095) / 4096 * 4096 := by
  have hMod : (sz + 4095) % 2 ^ 64 = sz + 4095 := Nat.mod_eq_of_lt h
  simp only [pgroundup, pgrounddown, uint64, pgsize]
  rw [show sz + 4096 - 1 = sz + 4095 by omega, hMod]

lemma px_lt (level va : Nat) : px level va < 512 := Nat.mod_lt _ (by decide)

section

lemma has_shift (pte : Pte) {k : Nat} (hk : k < 64) : Pte.has pte (1#64 <<< k) = pte.getLsbD k := by
  unfold Pte.has
  cases h : pte.getLsbD k with
  | true =>
    rw [bne_iff_ne]
    intro hz
    have hBit := congrArg (fun x : Pte => x.getLsbD k) hz
    simp only [BitVec.getLsbD_and, h, BitVec.getLsbD_shiftLeft] at hBit
    simp [hk] at hBit
  | false =>
    grind

lemma has_pteV (pte : Pte) : Pte.has pte pteV = pte.getLsbD 0 := has_shift pte (by decide)
lemma has_pteW (pte : Pte) : Pte.has pte pteW = pte.getLsbD 2 := has_shift pte (by decide)
lemma has_pteU (pte : Pte) : Pte.has pte pteU = pte.getLsbD 4 := has_shift pte (by decide)

lemma has_rwx (pte : Pte) : Pte.has pte (pteR ||| pteW ||| pteX) =
    (pte.getLsbD 1 || pte.getLsbD 2 || pte.getLsbD 3) := by
  rw [← has_shift pte (show 1 < 64 by decide), ← has_shift pte (show 2 < 64 by decide),
    ← has_shift pte (show 3 < 64 by decide)]
  unfold Pte.has
  change (pte &&& (pteR ||| pteW ||| pteX) != 0#64) =
    (pte &&& pteR != 0#64 || pte &&& pteW != 0#64 || pte &&& pteX != 0#64)
  rw [Bool.eq_iff_iff]
  simp only [bne_iff_ne, Bool.or_eq_true, ne_eq, BitVec.and_or_distrib_left, BitVec.or_eq_zero_iff]
  tauto

variable {pa : Nat} {perm : Pte}

lemma getLsbD_entry (pa : Nat) (perm : Pte) {k : Nat} (hk : k < 10) :
    (pa2pte pa ||| perm ||| pteV).getLsbD k = (perm.getLsbD k || decide (k = 0)) := by
  unfold pa2pte pteV
  interval_cases k <;> simp

lemma getLsbD_address_high (hlt : pa < 2 ^ 56) {k : Nat} (hk : 56 ≤ k) :
    (BitVec.ofNat 64 pa).getLsbD k = false := by
  rw [BitVec.getLsbD_ofNat,
    Nat.testBit_lt_two_pow (lt_of_lt_of_le hlt (Nat.pow_le_pow_right (by decide) hk)), Bool.and_false]

lemma pte2pa_or (hAlign : pa % 4096 = 0) (hlt : pa < 2 ^ 56)
    (hPerm : ∀ k, 10 ≤ k → k ≤ 53 → perm.getLsbD k = false) : pte2pa (pa2pte pa ||| perm) = pa := by
  have hBits : ∀ k < 64, (k < 12 ∨ 56 ≤ k) → (BitVec.ofNat 64 pa).getLsbD k = false := by
    intro k hk hOut
    rcases hOut with hLow | hHigh
    · rw [BitVec.getLsbD_ofNat]
      have hdvd : 2 ^ 12 ∣ pa := Nat.dvd_of_mod_eq_zero hAlign
      obtain ⟨q, rfl⟩ := hdvd
      rw [Nat.testBit_two_pow_mul, decide_eq_false (show ¬ k ≥ 12 by omega), Bool.false_and,
        Bool.and_false]
    · exact getLsbD_address_high hlt hHigh
  have hEq : ((pa2pte pa ||| perm) >>> 10) <<< 12 &&& 0x00FFFFFFFFFFFF00#64 =
      BitVec.ofNat 64 pa := by
    apply BitVec.eq_of_getLsbD_eq
    intro k hk
    by_cases hOut : k < 12 ∨ 56 ≤ k
    · rw [hBits k hk hOut]
      interval_cases k <;> first | omega | simp
    · have hp := hPerm (k - 2) (by omega) (by omega)
      have hMask : (0x00FFFFFFFFFFFF00#64).getLsbD k = true := by
        interval_cases k <;> first | omega | rfl
      simp only [BitVec.getLsbD_and, hMask, Bool.and_true, BitVec.getLsbD_shiftLeft,
        BitVec.getLsbD_ushiftRight, BitVec.getLsbD_or, pa2pte, show 10 + (k - 12) = k - 2 by omega,
        hp, Bool.or_false, show 12 + (k - 2 - 10) = k by omega]
      simp [hk, show ¬ k < 12 by omega, show ¬ k - 2 < 10 by omega, show k - 2 < 64 by omega]
  rw [pte2pa, hEq, BitVec.toNat_ofNat, Nat.mod_eq_of_lt (lt_trans hlt (by norm_num))]

lemma getLsbD_of_masked (hPerm : perm &&& ppnMask = 0#64) {k : Nat} (hLow : 10 ≤ k) (hHigh : k ≤ 53) :
    perm.getLsbD k = false := by
  have hBit := congrArg (fun x : Pte => x.getLsbD k) hPerm
  unfold ppnMask at hBit
  interval_cases k <;> simpa using hBit

lemma pte2pa_entry (hAlign : pa % 4096 = 0) (hlt : pa < 2 ^ 56) (hPerm : perm &&& ppnMask = 0#64) :
    pte2pa (pa2pte pa ||| perm ||| pteV) = pa := by
  rw [BitVec.or_assoc]
  refine pte2pa_or hAlign hlt fun k hLow hHigh => ?_
  rw [BitVec.getLsbD_or, getLsbD_of_masked hPerm hLow hHigh]
  interval_cases k <;> rfl

lemma entry_flags (hlt : pa < 2 ^ 56) (hPerm : perm &&& ppnMask = 0#64) :
    (pa2pte pa ||| perm ||| pteV) &&& ~~~ppnMask = perm ||| pteV := by
  apply BitVec.eq_of_getLsbD_eq
  intro k hk
  have hBit := congrArg (fun x : Pte => x.getLsbD k) hPerm
  have hHigh : 54 ≤ k → (BitVec.ofNat 64 pa).getLsbD (k + 2) = false :=
    fun h => getLsbD_address_high hlt (by omega)
  unfold ppnMask at hBit
  unfold pa2pte ppnMask pteV
  interval_cases k <;> simp at hBit hHigh ⊢ <;> simp [hBit, hHigh]

lemma pa2pte_pte2pa (pte : Pte) : pa2pte (pte2pa pte) ||| (pte &&& ~~~ppnMask) = pte := by
  apply BitVec.eq_of_getLsbD_eq
  intro k hk
  unfold pa2pte pte2pa ppnMask
  rw [BitVec.ofNat_toNat]
  interval_cases k <;> simp

end

/-- The address of an entry and the bits that `uvmcopy` keeps make up the entry. An address survives being packed with any
bits outside of the page number. -/
theorem pte_packing : (∀ pte : Pte, pa2pte (pte2pa pte) ||| (pte &&& ~~~ppnMask) = pte) ∧
    ∀ (pa : Nat) (perm : Pte), pa % pgsize = 0 → pa < 2 ^ 56 → (∀ k, 10 ≤ k → k ≤ 53 → perm.getLsbD k = false) →
      pte2pa (pa2pte pa ||| perm) = pa :=
  ⟨pa2pte_pte2pa, fun _ _ => pte2pa_or⟩

theorem pte_packing_memory : pte2pa (pa2pte 0x80000000 ||| (pteR ||| pteW ||| pteTheadMaee)) = 0x80000000 := by
  refine pte_packing.2 _ _ (by decide) (by decide) fun k hLow hHigh => ?_
  interval_cases k <;> rfl

end Xv6K230.Riscv
