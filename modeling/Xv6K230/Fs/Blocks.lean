import Xv6K230.Fs.Places

/-! # The block allocator

What `balloc` and `bfree` do to the bitmap and to the blocks.
-/

namespace Xv6K230.Fs

open Prog

/-- The stops that a sound file system may run into: a full table or log, a sleep, a
malformed directory. -/
def Mild (e : Stop) : Prop := e ≠ .freeingFreeBlock ∧ e ≠ .ilockNoType ∧ e ≠ .unlinkNlink

def LogFits (e : Stop) : Prop := e ≠ .logTooBig ∧ e ≠ .logOutside

variable {E : Stop → Prop} {s t : FsState} {a b c : Nat}

/-- `s` with another list of logged blocks. -/
@[simps]
def FsState.withLh (s : FsState) (l : List Nat) : FsState := { s with lh := l }

lemma wp_logWrite (hE : ∀ e, Mild e → E e) (b : Nat) {Q : Unit → FsState → Prop}
    (h : ∀ l, Q () (s.withLh l)) : wp (logWrite b) E Q s := by
  simp only [logWrite, wp_bind, wp_read, wp_ite, wp_stop, wp_pure, wp_update]
  have hBig : E .logTooBig := hE _ (by simp [Mild])
  have hOutside : E .logOutside := hE _ (by simp [Mild])
  exact ⟨fun _ => hBig, fun _ => ⟨fun _ => hOutside, fun _ => ⟨fun _ => h s.lh, fun _ => h _⟩⟩⟩

lemma Superblock.bblock_lt (sb : Superblock) (h : b < sb.size) : sb.bblock b < sb.nmeta := by
  have hDiv : b / bpb ≤ sb.size / bpb := Nat.div_le_div_right h.le
  unfold Superblock.bblock Superblock.nmeta
  omega

lemma Superblock.bmapstart_lt_nmeta (sb : Superblock) : sb.bmapstart < sb.nmeta :=
  Nat.lt_succ_of_le (Nat.le_add_right ..)

lemma Superblock.bmapstart_le (sb : Superblock) (b : Nat) : sb.bmapstart ≤ sb.bblock b := Nat.le_add_left ..

namespace FsState

lemma setBlock_disk_same (b : Nat) (x : Block) : (s.setBlock b x).disk b = x := if_pos rfl

lemma setBlock_disk_of_ne (x : Block) (h : c ≠ b) : (s.setBlock b x).disk c = s.disk c := if_neg h

lemma bit_congr (hsb : t.sb = s.sb) (h : ∀ c, s.sb.bmapstart ≤ c → c < s.sb.nmeta → t.disk c = s.disk c) :
    ∀ b < s.sb.size, t.bit b = s.bit b := by
  intro b hb
  unfold bit
  rw [hsb, h _ (s.sb.bmapstart_le b) (s.sb.bblock_lt hb)]

lemma eq_iff_div_mod (a b : Nat) : b = a ↔ b / bpb = a / bpb ∧ b % bpb = a % bpb := by
  constructor
  · rintro rfl
    exact ⟨rfl, rfl⟩
  · rintro ⟨hDiv, hMod⟩
    rw [← Nat.div_add_mod b bpb, hDiv, hMod, Nat.div_add_mod]

lemma bit_mark (a b : Nat) :
    (s.setBlock (s.sb.bblock a) ((s.disk (s.sb.bblock a)).setBit (a % bpb))).bit b = (decide (b = a) || s.bit b) := by
  have hByte : a % bpb / 8 < 1024 := by
    have := Nat.mod_lt a (show 0 < bpb by decide)
    unfold bpb bsize at *
    omega
  unfold bit
  by_cases hDiv : b / bpb = a / bpb
  · have hBlock : s.sb.bblock b = s.sb.bblock a := by rw [Superblock.bblock, hDiv, Superblock.bblock]
    rw [show (s.setBlock (s.sb.bblock a) _).sb = s.sb from rfl, hBlock, setBlock_disk_same, Bytes.getBit_setBit _ hByte]
    congr 1
    simp only [eq_iff_div_mod a b, hDiv, true_and]
  · have hne : s.sb.bblock b ≠ s.sb.bblock a := by
      unfold Superblock.bblock
      omega
    have hab : b ≠ a := fun he => hDiv (by rw [he])
    rw [show (s.setBlock (s.sb.bblock a) _).sb = s.sb from rfl, setBlock_disk_of_ne _ hne, decide_eq_false hab, Bool.false_or]

lemma bit_unmark (a b : Nat) :
    (s.setBlock (s.sb.bblock a) ((s.disk (s.sb.bblock a)).clearBit (a % bpb))).bit b = (!decide (b = a) && s.bit b) := by
  have hByte : a % bpb / 8 < 1024 := by
    have := Nat.mod_lt a (show 0 < bpb by decide)
    unfold bpb bsize at *
    omega
  unfold bit
  by_cases hDiv : b / bpb = a / bpb
  · have hBlock : s.sb.bblock b = s.sb.bblock a := by rw [Superblock.bblock, hDiv, Superblock.bblock]
    rw [show (s.setBlock (s.sb.bblock a) _).sb = s.sb from rfl, hBlock, setBlock_disk_same, Bytes.getBit_clearBit _ hByte]
    congr 2
    simp only [eq_iff_div_mod a b, hDiv, true_and]
  · have hne : s.sb.bblock b ≠ s.sb.bblock a := by
      unfold Superblock.bblock
      omega
    have hab : b ≠ a := fun he => hDiv (by rw [he])
    rw [show (s.setBlock (s.sb.bblock a) _).sb = s.sb from rfl, setBlock_disk_of_ne _ hne, decide_eq_false hab, Bool.not_false,
      Bool.true_and]

end FsState

structure Granted (s t : FsState) (a : Nat) : Prop where
  low : s.sb.nmeta ≤ a
  high : a < s.sb.size
  fresh : s.bit a = false
  zeroed : t.disk a = Bytes.fill 0
  bits : ∀ b < s.sb.size, t.bit b = (decide (b = a) || s.bit b)
  rest : ∀ c, c ≠ a → c < s.sb.bmapstart ∨ s.sb.nmeta ≤ c → t.disk c = s.disk c

structure Released (s t : FsState) (a : Nat) : Prop where
  bits : ∀ b < s.sb.size, t.bit b = (!decide (b = a) && s.bit b)
  rest : ∀ c, c < s.sb.bmapstart ∨ s.sb.nmeta ≤ c → t.disk c = s.disk c

def SameTable (s t : FsState) : Prop := t.sb = s.sb ∧ t.itable = s.itable

lemma firstFree_some {bp : Block} {n bi : Nat} (h : firstFree bp n = some bi) : bi < n ∧ bp.getBit bi = false := by
  constructor
  · exact List.mem_range.mp (List.mem_of_find?_eq_some h)
  · simpa using List.find?_some h

lemma firstFree_none {bp : Block} {n bi : Nat} (h : firstFree bp n = none) (hbi : bi < n) : bp.getBit bi = true := by
  have hSet := List.find?_eq_none.mp h bi (List.mem_range.mpr hbi)
  simpa using hSet

def FsState.NoneFree (s : FsState) : Prop := ∀ b < s.sb.size, s.bit b = true

section

variable (hE : ∀ e, Mild e → E e)

include hE

lemma bzero_spec (b : Nat) : wp (bzero b) E (fun _ t => ∃ l, t = (s.setBlock b (Bytes.fill 0)).withLh l) s := by
  unfold bzero
  rw [wp_bind, wp_update]
  exact wp_logWrite hE b fun l => ⟨l, rfl⟩

lemma ballocIn_spec (hLow : ∀ b < s.sb.nmeta, s.bit b = true) (k : Nat) :
    wp (ballocIn s.sb (k * bpb)) E (fun r t =>
      match r with
      | none => t = s ∧ ∀ b < s.sb.size, b / bpb = k → s.bit b = true
      | some a => SameTable s t ∧ Granted s t a) s := by
  unfold ballocIn bread
  rw [wp_bind, wp_read]
  cases hFree : firstFree (s.disk (s.sb.bblock (k * bpb))) (min bpb (s.sb.size - k * bpb)) with
  | none =>
    refine wp_val ⟨rfl, ?_⟩
    rintro b hb rfl
    have hBlock : s.sb.bblock (b / bpb * bpb) = s.sb.bblock b := by
      rw [Superblock.bblock, Superblock.bblock, Nat.mul_div_cancel _ (by decide)]
    have hMod := Nat.div_add_mod' b bpb
    have hLt : b % bpb < bpb := Nat.mod_lt _ (by decide)
    rw [hBlock] at hFree
    exact firstFree_none hFree (by omega)
  | some bi =>
    obtain ⟨hBound, hClear⟩ := firstFree_some hFree
    obtain ⟨a, ha⟩ : ∃ a, a = k * bpb + bi := ⟨_, rfl⟩
    have hDiv : a / bpb = k := by
      rw [ha, Nat.mul_comm, Nat.mul_add_div (by decide), Nat.div_eq_of_lt (by omega), Nat.add_zero]
    have hMod : a % bpb = bi := by
      rw [ha, Nat.mul_comm, Nat.mul_add_mod, Nat.mod_eq_of_lt (by omega)]
    have hBlock : s.sb.bblock (k * bpb) = s.sb.bblock a := by
      rw [Superblock.bblock, Superblock.bblock, hDiv, Nat.mul_div_cancel _ (by decide)]
    have hBit : s.bit a = false := by rw [FsState.bit, hMod, ← hBlock, hClear]
    have hLe : s.sb.nmeta ≤ a := by
      by_contra hlt
      rw [hLow a (by omega)] at hBit
      cases hBit
    have hSize : a < s.sb.size := by omega
    simp only [wp_bind, wp_update]
    apply wp_logWrite hE
    intro l
    rw [← ha, hBlock, ← hMod]
    apply wp_post (bzero_spec hE a)
    rintro _ _ ⟨l', rfl⟩
    rw [wp_pure]
    have hMarked : s.sb.bblock a < s.sb.nmeta := s.sb.bblock_lt hSize
    refine ⟨⟨rfl, rfl⟩, hLe, hSize, hBit, FsState.setBlock_disk_same _ _, ?_, ?_⟩
    · intro b hb
      rw [← FsState.bit_mark]
      refine FsState.bit_congr (s := s.setBlock (s.sb.bblock a) ((s.disk (s.sb.bblock a)).setBit (a % bpb))) ?_ ?_ b hb
      · rfl
      intro c _ hc
      exact FsState.setBlock_disk_of_ne _ (by change c < s.sb.nmeta at hc; omega)
    · intro c hca hc
      have hcb : c ≠ s.sb.bblock a := by
        have := s.sb.bmapstart_le a
        omega
      exact (FsState.setBlock_disk_of_ne _ hca).trans (FsState.setBlock_disk_of_ne _ hcb)

lemma balloc_spec (hLow : ∀ b < s.sb.nmeta, s.bit b = true) :
    wp balloc E (fun a t => (a = 0 ∧ t = s ∧ s.NoneFree) ∨ a ≠ 0 ∧ SameTable s t ∧ Granted s t a) s := by
  unfold balloc
  rw [wp_bind, wp_read, wp_bind]
  obtain ⟨n, hn⟩ : ∃ n, n = (s.sb.size + (bpb - 1)) / bpb := ⟨_, rfl⟩
  rw [← hn]
  -- a free block is one of a bitmap block that is still to come
  apply wp_firstM (I := fun bs t => t = s ∧ (∀ b ∈ bs, ∃ k, b = k * bpb) ∧
    ∀ b < s.sb.size, s.bit b = true ∨ b / bpb * bpb ∈ bs)
  · rintro t ⟨rfl, -, hFull⟩
    exact wp_val (.inl ⟨rfl, rfl, fun b hb => (hFull b hb).resolve_right (by simp)⟩)
  · rintro b bs t ⟨rfl, hAll, hRest⟩
    obtain ⟨k, rfl⟩ := hAll b List.mem_cons_self
    apply wp_post (ballocIn_spec hE hLow k)
    intro r u hr
    cases r with
    | none =>
      refine ⟨hr.1, fun c hc => hAll c (List.mem_cons_of_mem _ hc), ?_⟩
      intro c hc
      rcases hRest c hc with hSet | hMem
      · exact .inl hSet
      · rcases List.mem_cons.mp hMem with hHere | hLater
        · exact .inl (hr.2 c hc (Nat.eq_of_mul_eq_mul_right (by decide) hHere))
        · exact .inr hLater
    | some a =>
      apply wp_val
      refine .inr ⟨?_, hr⟩
      have hPos : 0 < t.sb.nmeta := Nat.succ_pos _
      have hLe := hr.2.low
      change a ≠ 0
      omega
  · refine ⟨rfl, ?_, ?_⟩
    · intro b hb
      obtain ⟨k, -, rfl⟩ := List.mem_map.mp hb
      exact ⟨k, rfl⟩
    · intro b hb
      refine .inr (List.mem_map.mpr ⟨b / bpb, List.mem_range.mpr ?_, rfl⟩)
      rw [hn, Nat.lt_div_iff_mul_lt (by decide)]
      have hMod := Nat.div_add_mod' b bpb
      omega

lemma bfree_spec (hBit : s.bit b = true) (hb : b < s.sb.size) :
    wp (bfree b) E (fun _ t => SameTable s t ∧ Released s t b) s := by
  have hTaken : (s.disk (s.sb.bblock b)).getBit (b % bpb) = true := hBit
  simp only [bfree, bread, wp_bind, wp_read, id, hTaken, wp_update, Bool.not_true, Bool.false_eq_true, if_false]
  apply wp_logWrite hE
  intro l
  refine ⟨⟨rfl, rfl⟩, ?_, ?_⟩
  · intro c hc
    rw [← FsState.bit_unmark]
    rfl
  · intro c hc
    apply FsState.setBlock_disk_of_ne
    have := s.sb.bmapstart_le b
    have := s.sb.bblock_lt hb
    omega

end

end Xv6K230.Fs
