import Xv6K230.Fs.Content

/-! # Checking an image

Whether a file system that nobody uses yet is consistent can be computed from its blocks,
as a checker before the first mount would do it.
-/

namespace Xv6K230.Fs

open List (mem_range)

instance (sb : Superblock) : Decidable sb.Ok :=
  decidable_of_iff (sb.inodestart + (sb.ninodes + 15) / 16 ≤ sb.bmapstart ∧ sb.nmeta ≤ sb.size ∧ sb.size ≤ 2 ^ 32 ∧
      sb.ninodes ≤ 2 ^ 16 ∧ 1 < sb.ninodes)
    ⟨fun ⟨h1, h2, h3, h4, h5⟩ => ⟨h1, h2, h3, h4, h5⟩, fun ⟨h1, h2, h3, h4, h5⟩ => ⟨h1, h2, h3, h4, h5⟩⟩

namespace FsState

variable (s : FsState)

/-- The blocks that the slots of inode `i` name, from the first slot on. -/
def blocksOf (i : Nat) : List Nat :=
  if s.Live s.inode i then ((List.range nslots).map (slotAt s.disk (s.inode i))).filter (· ≠ 0) else []

def allBlocks : List Nat := (List.range s.sb.ninodes).flatMap s.blocksOf

def bitmapOk : Bool :=
  (List.range s.sb.size).all fun b =>
    if b < s.sb.nmeta then s.bit b else s.bit b == s.allBlocks.contains b

def sizesOk : Bool :=
  (List.range s.sb.ninodes).all fun i =>
    !s.Live s.inode i || ((s.inode i).size.toNat ≤ 268 * 1024 &&
      (List.range (((s.inode i).size.toNat + 1023) / 1024)).all fun bn => slotAt s.disk (s.inode i) (fileSlot bn) ≠ 0)

def check : Bool :=
  decide s.sb.Ok && decide s.allBlocks.Nodup && s.allBlocks.all (fun b => s.sb.nmeta ≤ b && b < s.sb.size) &&
    s.bitmapOk && s.sizesOk

variable {s} {i q b : Nat}

lemma mem_blocksOf : b ∈ s.blocksOf i ↔ ∃ q, s.place s.inode none (some (i, q)) = some b := by
  simp only [place_some_iff]
  unfold blocksOf
  by_cases hLive : s.Live s.inode i
  · grind
  · grind

lemma mem_allBlocks : b ∈ s.allBlocks ↔ ∃ p, s.place s.inode none p = some b := by
  unfold allBlocks
  simp only [List.mem_flatMap, mem_range, mem_blocksOf]
  constructor
  · rintro ⟨i, -, q, h⟩
    exact ⟨some (i, q), h⟩
  · rintro ⟨p, h⟩
    rcases p with _ | ⟨i, q⟩
    · cases h
    · exact ⟨i, (place_some_iff.mp h).1.1, q, h⟩

lemma place_inj_of_nodup (h : s.allBlocks.Nodup) {p p' : Option (Nat × Nat)} (hp : s.place s.inode none p = some b)
    (hp' : s.place s.inode none p' = some b) : p = p' := by
  rcases p with _ | ⟨i, q⟩
  · cases hp
  rcases p' with _ | ⟨i', q'⟩
  · cases hp'
  unfold allBlocks at h
  rw [List.nodup_flatMap] at h
  obtain ⟨hOne, hTwo⟩ := h
  obtain ⟨hLive, hq, hAt, hne⟩ := place_some_iff.mp hp
  obtain ⟨hLive', hq', hAt', -⟩ := place_some_iff.mp hp'
  have hi : i = i' := by
    by_contra hne'
    have : Std.Symm (Function.onFun List.Disjoint s.blocksOf) := ⟨fun _ _ hd _ hb hb' => hd hb' hb⟩
    have hDisjoint := hTwo.forall (mem_range.mpr hLive.1) (mem_range.mpr hLive'.1) hne'
    exact hDisjoint (mem_blocksOf.mpr ⟨q, hp⟩) (mem_blocksOf.mpr ⟨q', hp'⟩)
  subst hi
  have hNodup := hOne i (mem_range.mpr hLive.1)
  unfold blocksOf at hNodup
  rw [if_pos hLive, List.filter_map] at hNodup
  have hInj := List.inj_on_of_nodup_map hNodup
  have hMem : ∀ {k}, k < nslots → slotAt s.disk (s.inode i) k = b →
      k ∈ (List.range nslots).filter ((fun x => decide (x ≠ 0)) ∘ slotAt s.disk (s.inode i)) := by
    intro k hk hkb
    rw [List.mem_filter, Function.comp, hkb]
    exact ⟨mem_range.mpr hk, decide_eq_true hne⟩
  rw [hInj (hMem hq hAt) (hMem hq' hAt') (hAt.trans hAt'.symm)]

lemma consistent_of_check (h : s.check = true) (hRef : ∀ ip, (s.itable ip).ref = 0) : Consistent s := by
  unfold check at h
  simp only [Bool.and_eq_true, decide_eq_true_eq, List.all_eq_true] at h
  obtain ⟨⟨⟨⟨hOk, hNodup⟩, hRange⟩, hBits⟩, hSizes⟩ := h
  unfold bitmapOk at hBits
  unfold sizesOk at hSizes
  rw [List.all_eq_true] at hBits hSizes
  have hBit : ∀ b < s.sb.size, s.sb.nmeta ≤ b → (s.bit b = true ↔ b ∈ s.allBlocks) := by
    grind
  refine ⟨hOk, ⟨⟨?_, ?_⟩, ?_⟩, ?_, ⟨?_, ?_, ?_, ?_⟩, ?_⟩
  · intro p p' b hp hp'
    exact place_inj_of_nodup hNodup hp hp'
  · intro b
    rw [← mem_allBlocks]
    constructor
    · rintro ⟨hLow, hHigh, hUsed⟩
      exact (hBit b hHigh hLow).mp hUsed
    · intro hb
      obtain ⟨hLow, hHigh⟩ := hRange b hb
      exact ⟨hLow, hHigh, (hBit b hHigh hLow).mpr hb⟩
  · grind [hOk.fits]
  · intro i hLive
    have hAt := hSizes i (mem_range.mpr hLive.1)
    simp only [hLive, decide_true, Bool.not_true, Bool.false_or, Bool.and_eq_true, decide_eq_true_eq, List.all_eq_true,
      mem_range] at hAt
    refine ⟨hAt.1, fun bn hbn => hAt.2 bn (by omega)⟩
  · intro ip
    exact (hRef ip).ge
  · intro ip hPos
    exact absurd (hRef ip) hPos.ne'
  · intro ip hPos
    exact absurd (hRef ip) hPos.ne'
  · intro ip jp hPos
    exact absurd (hRef ip) hPos.ne'
  · intro ip hPos
    exact absurd (hRef ip) hPos.ne'

end FsState

/-! ## A small image -/

namespace Sample

def dirent (inum : UInt16) (name : Text) : Text := (Dirent.mk inum name).toBytes

/-- Block 4 has the inodes, 5 the bitmap and 6 the root directory with two empty files. -/
def disk : Nat → Block
  | 4 => Dinode.store ⟨tFile, 0, 0, 1, 0, fun _ => 0⟩ (Dinode.store ⟨tFile, 0, 0, 1, 0, fun _ => 0⟩
      (Dinode.store ⟨tDir, 0, 0, 1, 64, fun i => if i = 0 then 6 else 0⟩ (Bytes.fill 0) 64) 128) 192
  | 5 => (Bytes.fill 0 : Block).write 0 [127, 0]
  | 6 => (Bytes.fill 0 : Block).write 0 (dirent 1 [46] ++ dirent 1 [46, 46] ++ dirent 2 [97] ++ dirent 3 [98])
  | _ => Bytes.fill 0

def fs : FsState where
  sb := { size := 16, ninodes := 8, nlog := 2, logstart := 2, inodestart := 4, bmapstart := 5 }
  disk := disk
  outstanding := 0
  lh := []
  itable := fun _ => ⟨0, 0, 0, false, false, Dinode.zero⟩

lemma fs_consistent : Consistent fs := FsState.consistent_of_check (by decide +kernel) fun _ => rfl

end Sample

end Xv6K230.Fs
