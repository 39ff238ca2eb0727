import Xv6K230.Block.Coherence

/-! # Which bytes of the image a block number names

`ramdisk_rw` multiplies the 32-bit block number by `BSIZE` before it widens the product.
-/

namespace Xv6K230.Blk

section

variable {s t u : Blocks} {me dev n : Nat} {b : Bi}

def Uncached (s : Blocks) (dev n : Nat) : Prop := ∀ c, ¬ ((s.buf c).dev = dev ∧ (s.buf c).blockno = n)

/-- The product `n * BSIZE` is exact, or it lies behind an image of `size` blocks. -/
def Exact (size n : Nat) : Prop := n < 2 ^ 22 ∨ size ≤ ramdiskIndex n

/-- A step of some process on the cache that writes no block to the image but one with a number other than `n` for which
the product is exact. -/
inductive Elsewhere (n : Nat) (s : Blocks) : Blocks → Prop
  | bread {t : Blocks} {b : Bi} (me dev k : Nat) (h : bread me dev k s = .ok (b, t)) : Elsewhere n s t
  | change (b : Bi) (d : Fs.Block) : Elsewhere n s (s.setBuf b { s.buf b with data := d })
  | bwrite {t : Blocks} (me : Nat) (b : Bi) (hExact : Exact s.size (s.buf b).blockno) (hOther : (s.buf b).blockno ≠ n)
      (h : bwrite me b s = .ok ((), t)) : Elsewhere n s t
  | brelse {t : Blocks} (me : Nat) (b : Bi) (h : brelse me b s = .ok ((), t)) : Elsewhere n s t

lemma bread_sections (h : bread me dev n s = .ok (b, t)) :
    ∃ s1 s2, bget dev n s = .ok (b, s1) ∧ acquiresleep me b s1 = .ok ((), s2) ∧ fill me b s2 = .ok ((), t) := by
  obtain ⟨c, s1, hGet, h⟩ := Prog.bind_ok h
  obtain ⟨⟨⟩, s2, hLock, h⟩ := Prog.bind_ok h
  obtain ⟨⟨⟩, s3, hFill, h⟩ := Prog.bind_ok h
  cases h
  exact ⟨s1, s2, hGet, hLock, hFill⟩

def Kept (s t : Blocks) : Prop := t.disk = s.disk ∧ t.size = s.size ∧ t.links = s.links

lemma bread_kept (hs : Listed s) (h : bread me dev n s = .ok (b, t)) : Kept s t := by
  obtain ⟨s1, s2, hGet, hLock, hFill⟩ := bread_sections h
  have h1 : Kept s s1 := by
    rcases bget_cases hs hGet with ⟨-, -, rfl⟩ | ⟨-, -, rfl⟩ <;> exact ⟨rfl, rfl, rfl⟩
  obtain ⟨-, rfl⟩ := acquiresleep_cases hLock
  rcases fill_cases hFill with ⟨-, rfl⟩ | ⟨-, rfl⟩ <;> exact h1

lemma ramdiskRw_bound {write : Bool} (h : ramdiskRw me b write s = .ok ((), t)) :
    ramdiskIndex (s.buf b).blockno < s.size := by
  by_contra hOut
  have hStop : ∃ e, ramdiskRw me b write s = .error e := by
    simp only [ramdiskRw, getBuf, Prog.read, bind, Prog.seq, id_eq]
    split
    · exact ⟨_, rfl⟩
    · rw [if_pos (by omega)]
      exact ⟨_, rfl⟩
  obtain ⟨e, he⟩ := hStop
  rw [he] at h
  cases h

lemma bwrite_bound (h : bwrite me b s = .ok ((), t)) : ramdiskIndex (s.buf b).blockno < s.size := by
  obtain ⟨v, s1, hGet, h⟩ := Prog.bind_ok h
  cases hGet
  split at h
  · cases h
  · exact ramdiskRw_bound h

lemma Elsewhere.keeps (hs : Listed s) (h : Elsewhere n s t) :
    Listed t ∧ t.disk n = s.disk n ∧ t.size = s.size := by
  cases h with
  | bread me dev k h =>
    obtain ⟨hDisk, hSize, hLinks⟩ := bread_kept hs h
    obtain ⟨L, hPerm, hRing⟩ := hs
    exact ⟨⟨L, hPerm, hLinks ▸ hRing⟩, congrFun hDisk n, hSize⟩
  | change b d => exact ⟨hs, rfl, rfl⟩
  | bwrite me b hExact hOther h =>
    have hSmall := hExact.resolve_right (not_le.mpr (bwrite_bound h))
    rw [bwrite_cases h]
    refine ⟨hs, if_neg ?_, rfl⟩
    rw [ramdiskIndex_of_lt hSmall]
    exact hOther.symm
  | brelse me b h =>
    obtain ⟨⟨⟩, s1, hLock, hPut⟩ := Prog.bind_ok h
    obtain rfl := brelseLock_cases hLock
    refine ⟨Listed.bput (s := s.setBuf b _) hs hPut, ?_⟩
    obtain ⟨links, -, rfl⟩ := bput_cases hPut
    exact ⟨rfl, rfl⟩

lemma elsewhere_run (hs : Listed s) (h : Relation.ReflTransGen (Elsewhere n) s u) :
    Listed u ∧ u.disk n = s.disk n ∧ u.size = s.size := by
  induction h with
  | refl => exact ⟨hs, rfl, rfl⟩
  | tail _ hStep ih =>
    obtain ⟨hListed, hDisk, hSize⟩ := hStep.keeps ih.1
    exact ⟨hListed, hDisk.trans ih.2.1, hSize.trans ih.2.2⟩

lemma bread_uncached (hs : Listed s) (hFresh : Uncached s dev n) (h : bread me dev n s = .ok (b, t)) :
    ramdiskIndex n < s.size ∧ (t.buf b).data = s.disk (ramdiskIndex n) := by
  obtain ⟨s1, s2, hGet, hLock, hFill⟩ := bread_sections h
  obtain ⟨hDev, hNo, -⟩ | ⟨-, -, h1⟩ := bget_cases hs hGet
  · exact absurd ⟨hDev, hNo⟩ (hFresh b)
  obtain ⟨-, h2⟩ := acquiresleep_cases hLock
  have hNo : (s2.buf b).blockno = n := by rw [h2, setBuf_same, h1, setBuf_same]
  have hValid : (s2.buf b).valid = false := by rw [h2, setBuf_same, h1, setBuf_same]
  have hImage : s2.size = s.size ∧ s2.disk = s.disk := by rw [h2, h1]; exact ⟨rfl, rfl⟩
  have hRw : ramdiskRw me b false s2 = .ok ((), t) := by
    simpa [fill, getBuf, Prog.read, bind, Prog.seq, hValid] using hFill
  have hBound := ramdiskRw_bound hRw
  rw [hNo, hImage.1] at hBound
  refine ⟨hBound, ?_⟩
  rw [(ramdiskRw_cases hRw).2, if_neg Bool.false_ne_true, setBuf_same, hNo, hImage.2]

lemma ramdiskIndex_lt (n : Nat) : ramdiskIndex n < 2 ^ 22 := by
  unfold ramdiskIndex
  omega

set_option maxRecDepth 4000 in
/-- After `binit` a `bread` gets a buffer, and it returns if the product lies in the image. -/
lemma bread_binit (n size : Nat) (disk : Nat → Fs.Block) (h : ramdiskIndex n < size) :
    ∃ b t, bread 1 1 n { Sample.fresh.blk with size := size, disk := disk } = .ok (b, t) := by
  obtain ⟨s, hs⟩ : ∃ s, s = { Sample.fresh.blk with size := size, disk := disk } := ⟨_, rfl⟩
  have hGet : bget 1 n s = .ok (Sample.buf0, s.setBuf Sample.buf0 ⟨false, 1, n, none, 1, Bytes.fill 0⟩) := by
    rw [hs]
    rfl
  rw [← hs]
  simp only [bread, bind, Prog.seq, hGet, acquiresleep, fill, ramdiskRw, getBuf, modBuf, Prog.read, Prog.update, setBuf_same, id_eq,
    Option.isSome_none, Bool.false_eq_true, if_false, Bool.not_false, if_true, ne_eq, not_true_eq_false]
  rw [if_neg (by rw [hs]; exact not_lt.mpr h)]
  exact ⟨_, _, rfl⟩

/-- A block that is not cached is read from its own place in the image, whatever was written to other blocks before, in
every image of `size` blocks exactly if the product is exact for it. -/
theorem bread_image (size n : Nat) : Exact size n ↔
    ∀ (s u t : Blocks) (me dev : Nat) (b : Bi), s.size = size → Listed s → Relation.ReflTransGen (Elsewhere n) s u →
      Uncached u dev n → bread me dev n u = .ok (b, t) → n < size ∧ (t.buf b).data = s.disk n := by
  constructor
  · rintro hExact s u t me dev b rfl hs hRun hFresh h
    obtain ⟨hListed, hDisk, hSize⟩ := elsewhere_run hs hRun
    obtain ⟨hBound, hData⟩ := bread_uncached hListed hFresh h
    rw [hSize] at hBound
    have hSmall := hExact.resolve_right (not_le.mpr hBound)
    rw [ramdiskIndex_of_lt hSmall] at hBound hData
    exact ⟨hBound, hData.trans hDisk⟩
  · -- an image whose block `n` differs from all others
    intro h
    by_contra hWraps
    obtain ⟨hBig, hIn⟩ := not_or.mp hWraps
    obtain ⟨disk, hDisk⟩ : ∃ disk : Nat → Fs.Block, disk = fun k => if k = n then Bytes.fill 1 else Bytes.fill 0 := ⟨_, rfl⟩
    have hListed : Listed { Sample.fresh.blk with size := size, disk := disk } := binit_ring
    have hFresh : Uncached { Sample.fresh.blk with size := size, disk := disk } 1 n := fun _ hDev => by cases hDev.1
    obtain ⟨b, t, hRead⟩ := bread_binit n size disk (not_le.mp hIn)
    obtain ⟨-, hData⟩ := bread_uncached hListed hFresh hRead
    obtain ⟨-, hClaimed⟩ := h _ _ t 1 1 b rfl hListed .refl hFresh hRead
    have hOther : ramdiskIndex n ≠ n := by
      have hLow := ramdiskIndex_lt n
      omega
    have hSame := hData.symm.trans hClaimed
    rw [hDisk] at hSame
    simp only [if_neg hOther, if_true] at hSame
    exact absurd (congrArg (Bytes.get · 0) hSame) (by decide)

end

set_option maxRecDepth 4000 in
/-- Block 5 is read after block 6 was read, changed and written. -/
theorem bread_image_five : ∃ (u t : Blocks) (b : Bi), Relation.ReflTransGen (Elsewhere 5) Sample.fresh.blk u ∧
    bread 1 1 5 u = .ok (b, t) ∧ 5 < Sample.fresh.blk.size ∧ (t.buf b).data = Sample.fresh.blk.disk 5 := by
  have hRun := (Relation.ReflTransGen.single (Elsewhere.bread 1 1 6 (s := Sample.fresh.blk) (n := 5) rfl)).tail
    (.change Sample.buf0 (Bytes.fill 7)) |>.tail (.bwrite 1 Sample.buf0 (.inl (by decide)) (by decide) rfl)
  refine ⟨_, _, _, hRun, rfl, ?_⟩
  refine (bread_image 2000 5).mp (.inl (by decide)) _ _ _ 1 1 _ rfl binit_ring hRun ?_ rfl
  unfold Uncached
  decide +kernel

/-- Block `2 ^ 22` of an image of 2000 blocks is read from block 0. -/
theorem bread_wraps : ∃ (t : Blocks) (b : Bi), bread 1 1 (2 ^ 22) Sample.fresh.blk = .ok (b, t) ∧
    Sample.fresh.blk.size ≤ 2 ^ 22 ∧ (t.buf b).data = Sample.fresh.blk.disk 0 := by
  refine ⟨_, _, rfl, by decide, rfl⟩

end Xv6K230.Blk
