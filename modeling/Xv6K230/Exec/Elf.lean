import Xv6K230.Kernel.Image
import Xv6K230.Fs.Transfer

/-! # Executables

The program headers of an executable as they stand in the file, those that `kexec` reads
from it, and the memory image that a list of segments describes: what its bytes are, how
far it extends, and which segment a page is mapped for.
-/

namespace Xv6K230.Elf

open Fs Vm Riscv

structure Segment where
  type : Nat
  flags : Nat
  off : Nat
  vaddr : Nat
  filesz : Nat
  memsz : Nat
  deriving DecidableEq

namespace Segment

def ofBytes (ph : Text) : Segment where
  type := field ph 0 4
  flags := field ph 4 4
  off := field ph 8 8
  vaddr := field ph 16 8
  filesz := field ph 32 8
  memsz := field ph 40 8

def top (s : Segment) : Nat := s.vaddr + s.memsz

def executable (s : Segment) : Bool := s.flags &&& 1 ≠ 0

def writable (s : Segment) : Bool := s.flags &&& 2 ≠ 0

def Overlaps (s : Segment) (p : Nat) : Prop := s.vaddr < (p + 1) * 4096 ∧ p * 4096 < s.top ∧ 0 < s.memsz

instance (s : Segment) (p : Nat) : Decidable (s.Overlaps p) := inferInstanceAs (Decidable (_ ∧ _))

/-- The segment as `loadseg` gets it: its `offset` and `sz` are 32-bit. -/
def narrow (s : Segment) : Segment := { s with off := s.off % 2 ^ 32, filesz := s.filesz % 2 ^ 32 }

end Segment

/-! ## The headers of a file -/

section

variable (v : Node)

def magic : Nat := field (v.slice 0 elfhdrSize) 0 4

def phoff : Nat := field (v.slice 0 elfhdrSize) 32 8

def phnum : Nat := field (v.slice 0 elfhdrSize) 56 2

def entry : Nat := field (v.slice 0 elfhdrSize) 24 8

def proghdr (off : Nat) : Segment := .ofBytes (v.slice off proghdrSize)

/-- The `PT_LOAD` headers, at the 64-bit offset that the ELF header gives. -/
def segments : List Segment := ((List.range (phnum v)).map fun i => proghdr v (phoff v + proghdrSize * i)).filter (·.type = 1)

/-- The `n` headers that the loop of `kexec` reads from `off` on. -/
def scanned : (n off : Nat) → List Segment
  | 0, _ => []
  | n + 1, off => proghdr v off :: scanned n ((off + proghdrSize) % 2 ^ 32)

def loaded (n off : Nat) : List Segment := ((scanned v n off).filter (·.type = 1)).map .narrow

structure Admitted (s : Segment) : Prop where
  file : s.filesz ≤ s.memsz
  wrap : s.top < 2 ^ 64
  inside : 0 < s.narrow.filesz → s.narrow.off + s.narrow.filesz ≤ v.size

def Accepted : (n off : Nat) → Prop
  | 0, _ => True
  | n + 1, off => off + proghdrSize ≤ v.size ∧ ((proghdr v off).type = 1 → Admitted v (proghdr v off)) ∧
      Accepted n ((off + proghdrSize) % 2 ^ 32)

variable {v} {n off : Nat}

lemma loaded_succ : loaded v (n + 1) off =
    (if (proghdr v off).type = 1 then [(proghdr v off).narrow] else []) ++ loaded v n ((off + proghdrSize) % 2 ^ 32) := by
  unfold loaded
  rw [scanned, List.filter_cons]
  by_cases hType : (proghdr v off).type = 1 <;> simp [hType]

/-- As long as the offsets stay inside a file of this size, nothing is narrowed on the way. -/
lemma Accepted.header (hSize : v.size < 2 ^ 32) : ∀ {n off : Nat}, Accepted v n off → ∀ i < n,
    off + proghdrSize * (i + 1) ≤ v.size ∧
      ((proghdr v (off + proghdrSize * i)).type = 1 → Admitted v (proghdr v (off + proghdrSize * i))) := by
  intro n
  induction n with
  | zero =>
    intro off _ i hi
    omega
  | succ n ih =>
    rintro off ⟨hIn, hAdmit, hRest⟩ i hi
    rw [Nat.mod_eq_of_lt (by omega)] at hRest
    cases i with
    | zero => exact ⟨by omega, hAdmit⟩
    | succ i =>
      grind

lemma Accepted.scanned_eq (hSize : v.size < 2 ^ 32) : ∀ {n off : Nat}, Accepted v n off →
    scanned v n off = (List.range n).map fun i => proghdr v (off + proghdrSize * i) := by
  intro n
  induction n with
  | zero => exact fun _ => rfl
  | succ n ih =>
    rintro off ⟨hIn, -, hRest⟩
    rw [Nat.mod_eq_of_lt (by omega)] at hRest
    rw [scanned, Nat.mod_eq_of_lt (by omega), ih hRest, List.range_succ_eq_map, List.map_cons, List.map_map]
    congr 1
    apply List.map_congr_left
    intro i _
    exact congrArg (proghdr v) (by rw [Nat.mul_succ]; omega)

end

/-! ## The image of a list of segments -/

/-- The byte at `va` when the segments have been loaded in this order. -/
def image (v : Node) (segs : List Segment) (va : Nat) : UInt8 :=
  segs.foldl (fun b s => if s.vaddr ≤ va ∧ va < s.vaddr + s.filesz then v.data (s.off + (va - s.vaddr)) else b) 0

def extent (segs : List Segment) : Nat := segs.foldl (fun sz s => max sz s.top) 0

/-- The segment for which page `p` is mapped: the first one that ends beyond its start. -/
def mapper (segs : List Segment) (p : Nat) : Option Segment := segs.find? fun s => p < npages s.top

section

variable {v : Node} {segs : List Segment} {s : Segment} {va p : Nat}

lemma image_append : image v (segs ++ [s]) va =
    if s.vaddr ≤ va ∧ va < s.vaddr + s.filesz then v.data (s.off + (va - s.vaddr)) else image v segs va := by
  unfold image
  rw [List.foldl_append, List.foldl_cons, List.foldl_nil]

lemma extent_append : extent (segs ++ [s]) = max (extent segs) s.top := by
  unfold extent
  rw [List.foldl_append, List.foldl_cons, List.foldl_nil]

lemma top_le_extent : ∀ {segs : List Segment}, s ∈ segs → s.top ≤ extent segs := by
  intro segs
  induction segs using List.reverseRecOn with
  | nil => exact fun hs => absurd hs List.not_mem_nil
  | append_singleton segs t ih =>
    grind [extent_append, le_trans, le_max_left, List.mem_singleton, le_max_right]

lemma image_beyond : ∀ {segs : List Segment}, (∀ s ∈ segs, s.filesz ≤ s.memsz) → extent segs ≤ va → image v segs va = 0 := by
  intro segs
  induction segs using List.reverseRecOn with
  | nil => exact fun _ _ => rfl
  | append_singleton segs t ih =>
    intro hFile hva
    have hTop := top_le_extent (List.mem_append_right segs (List.mem_singleton_self t))
    have hLen := hFile t (List.mem_append_right segs (List.mem_singleton_self t))
    rw [extent_append] at hva
    rw [image_append, if_neg]
    · exact ih (fun s hs => hFile s (List.mem_append_left _ hs)) (le_trans (le_max_left ..) hva)
    · rw [Segment.top] at hva
      omega

lemma mapper_append : mapper (segs ++ [s]) p = (mapper segs p).or (if p < npages s.top then some s else none) := by
  unfold mapper
  rw [List.find?_append, List.find?_singleton]
  simp

lemma mapper_beyond (h : npages (extent segs) ≤ p) : mapper segs p = none := by
  unfold mapper
  rw [List.find?_eq_none]
  intro s hs
  have hTop := npages_mono (top_le_extent hs)
  simp only [decide_eq_true_eq]
  omega

def Segment.Apart (s t : Segment) : Prop := s.memsz = 0 ∨ t.memsz = 0 ∨ s.top ≤ t.vaddr ∨ t.top ≤ s.vaddr

instance (s t : Segment) : Decidable (s.Apart t) := inferInstanceAs (Decidable (_ ∨ _))

lemma image_outside : ∀ {segs : List Segment}, (∀ s ∈ segs, ¬ (s.vaddr ≤ va ∧ va < s.vaddr + s.filesz)) → image v segs va = 0 := by
  intro segs
  induction segs using List.reverseRecOn with
  | nil => exact fun _ => rfl
  | append_singleton segs t ih =>
    grind [image_append, List.mem_append_right, List.mem_singleton_self, List.mem_append_left]

lemma image_apart : ∀ {segs : List Segment}, (∀ s ∈ segs, s.filesz ≤ s.memsz) → segs.Pairwise Segment.Apart → ∀ s ∈ segs,
    ∀ j < s.memsz, image v segs (s.vaddr + j) = if j < s.filesz then v.data (s.off + j) else 0 := by
  intro segs
  induction segs using List.reverseRecOn with
  | nil => exact fun _ _ s hs => absurd hs List.not_mem_nil
  | append_singleton segs t ih =>
    intro hFile hApart s hs j hj
    obtain ⟨hApart', -, hLast⟩ := List.pairwise_append.mp hApart
    have hFile' : ∀ u ∈ segs, u.filesz ≤ u.memsz := fun u hu => hFile u (List.mem_append_left _ hu)
    have hFileLast := hFile t (List.mem_append_right segs (List.mem_singleton_self t))
    rw [image_append]
    rcases List.mem_append.mp hs with hs | hs
    · grind [List.mem_singleton_self, Segment.Apart, Segment.top]
    · obtain rfl := List.mem_singleton.mp hs
      by_cases hIn : j < s.filesz
      · rw [if_pos (by omega), if_pos hIn, show s.vaddr + j - s.vaddr = j by omega]
      · grind [image_outside, List.mem_singleton_self, Segment.Apart, Segment.top]

end

end Xv6K230.Elf
