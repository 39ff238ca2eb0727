import Xv6K230.Fs.Content
import Xv6K230.Fs.Path

/-! # Whole reads and writes

`readi` and `writei` between two states in which table and disk agree, and the entries of
directories, which are read and written sixteen bytes at a time.
-/

namespace Xv6K230.Fs

open Prog

variable {E : Stop → Prop} {s t u : FsState} {ip : Ip} {i off n : Nat}

lemma modDi_iupdate_noneFree (hOk : t.sb.Ok) (hInum : (t.itable ip).inum < t.sb.ninodes) (g : Dinode → Dinode) :
    wp (modDi ip g) (fun _ => True) (fun _ u => wp (iupdate ip) (fun _ => True) (fun _ v => t.NoneFree → v.NoneFree) u) t := by
  unfold iupdate
  rw [wp_modDi, wp_bind, wp_getInode, wp_bind, wp_read, wp_bind, wp_update]
  apply wp_logWrite (fun _ _ => trivial)
  intro lh hNone b hb
  have hAfter : ∀ c, t.sb.bmapstart ≤ c → c < t.sb.nmeta → (((t.setDi ip (g (t.itable ip).di)).setDinode
      ((t.setDi ip (g (t.itable ip).di)).itable ip).inum ((t.setDi ip (g (t.itable ip).di)).itable ip).di).withLh lh).disk c = t.disk c := by
    intro c hc _
    refine FsState.setBlock_disk_of_ne _ ?_
    have hBlock := hOk.iblock_lt hInum
    rw [show ((t.setDi ip (g (t.itable ip).di)).itable ip).inum = (t.itable ip).inum by rw [FsState.setDi_itable_same]]
    change c ≠ t.sb.iblock (t.itable ip).inum
    omega
  rw [FsState.bit_congr (by rfl) hAfter b hb]
  exact hNone b hb

lemma Ends.mono {src : CopyIn} {fuel tot : Nat} {d : Dinode} {r : Nat × Nat} {g f : Nat → UInt8}
    (h : Ends src n fuel tot off s d r t g f) (hNone : t.NoneFree → u.NoneFree) : Ends src n fuel tot off s d r u g f := by
  cases h with
  | copy failure bytes => exact .copy failure bytes
  | space short failure slot full bytes => exact .space short failure slot (hNone full) bytes
  | done all failure bytes => exact .done all failure bytes

section

variable (hE : ∀ e, Mild e → E e)

include hE

/-- The end of `writei`: the size grows to the offset reached and the inode is written back. -/
lemma writeiEnd_spec (h : Consistent s) (hip : Loaded s ip i) {d : Dinode} {f : Nat → UInt8}
    (hw : Written s.inode ip i s t d f) {end' : Nat} (hOff : off ≤ (s.inode i).size.toNat)
    (hMax : end' ≤ 268 * 1024)
    (hMapped : ∀ bn, off < end' → off / 1024 ≤ bn → bn * 1024 < end' → slotAt t.disk d (fileSlot bn) ≠ 0)
    {Q : Unit → FsState → Prop}
    (hQ : ∀ u, Alters s u i { s.files i with size := max (s.files i).size end', data := f } → Q () u) :
    wp (modDi ip fun d => if end' > d.size.toNat then { d with size := UInt32.ofNat end' } else d) E
      (fun _ u => wp (iupdate ip) E Q u) t := by
  have hLive := h.live hip
  have hd : Function.update s.inode i d i = d := Function.update_self ..
  have hSize : d.size = (s.inode i).size := by rw [hw.attr]
  have hFile : s.files i = (s.inode i).node s.disk := FsState.nodes_of_live hLive
  obtain ⟨hOldMax, hOldFull⟩ := h.full i hLive
  obtain ⟨d', hd'⟩ : ∃ d', d' = if end' > d.size.toNat then { d with size := UInt32.ofNat end' } else d := ⟨_, rfl⟩
  have hAddrs' : d'.addrs = d.addrs := by
    rw [hd']
    split <;> rfl
  have hType' : d'.type = d.type := by
    rw [hd']
    split <;> rfl
  have hSize' : d'.size.toNat = max (s.inode i).size.toNat end' := by
    grind [UInt32.toNat_ofNat', Nat.mod_eq_of_lt]
  have hType : d.type ≠ 0 := by
    rw [hw.attr]
    exact hLive.2
  apply modDi_iupdate_spec hE hw.intact _ (hw.loaded hip) (fun d => if end' > d.size.toNat then { d with size := UInt32.ofNat end' } else d)
  · rw [hd, ← hd', hAddrs']
  · rw [hd, ← hd', hType']
    exact hType
  · rw [hd, ← hd', hSize']
    omega
  · grind [hw.keeps, fileSlot_lt]
  · intro u hu hsb hEntries hFiles
    apply hQ u
    refine ⟨hu, hsb.trans hw.sb, hEntries.trans hw.entries, ?_⟩
    rw [hFiles, hd, ← hd', hw.nodes, Function.update_idem]
    congr 1
    have hData := congrFun hw.nodes i
    rw [Function.update_self, FsState.nodes_of_live (hw.intact.live (hw.loaded hip)), hd] at hData
    have hDataEq : dataAt t.disk d = f := congrArg Node.data hData
    unfold Dinode.node
    rw [dataAt_addrs hAddrs', hDataEq, hSize', hFile]
    rw [hd'] at hType' ⊢
    rw [hw.attr]
    split <;> rfl
  · intro j hj
    rw [Function.update_of_ne hj, hw.inode]

/-- A write refuses and changes nothing, or it stores a first part of what it is given. -/
lemma writei_exact (h : Consistent s) (hip : Loaded s ip i) (src : CopyIn) (off n : Nat) :
    wp (writei ip src off n) E (fun r t =>
      (r = -1 ∧ t = s ∧ ((s.files i).size < off ∨ (off + n) % 2 ^ 32 < off ∨ 268 * 1024 < off + n)) ∨
      ∃ (tot : Nat) (f : Nat → UInt8), r = tot ∧ (off ≤ (s.files i).size ∧ off ≤ (off + n) % 2 ^ 32 ∧ off + n ≤ 268 * 1024) ∧
        Moved src n 0 off (tot, off + tot) (s.files i).data f ∧
        Ends src n n 0 off s (s.inode i) (tot, off + tot) t (s.files i).data f ∧
        Alters s t i { s.files i with size := max (s.files i).size (off + tot), data := f }) s := by
  have hFile : s.files i = (s.inode i).node s.disk := FsState.nodes_of_live (h.live hip)
  have hSize : (s.files i).size = (s.inode i).size.toNat := by rw [hFile]; rfl
  unfold writei
  rw [wp_bind, wp_getInode, h.di hip, wp_ite]
  constructor
  · intro hOut
    exact wp_val (.inl ⟨rfl, rfl, by omega⟩)
  · intro hOff
    rw [wp_ite]
    constructor
    · intro hMax
      unfold maxfile ndirect nindirect bsize at hMax
      exact wp_val (.inl ⟨rfl, rfl, by omega⟩)
    · intro hMax
      have hMax' : off + n ≤ 268 * 1024 := by
        unfold maxfile ndirect nindirect bsize at hMax
        omega
      apply wp_call (writeiLoop_spec hE src n n 0 off s s.inode h hip (by omega) (by omega))
      rintro ⟨tot, end'⟩ t ⟨d, f, hw, hMoved, hMapped, hEnds⟩
      obtain rfl : end' = off + tot := hMoved.offset
      have hHigh : tot ≤ max n 0 := hMoved.high
      have hInum : (t.itable ip).inum < t.sb.ninodes := by
        rw [(hw.loaded hip).inum, hw.sb]
        exact (h.live hip).1
      have hFull := modDi_iupdate_noneFree hw.intact.ok hInum
        fun d => if off + tot > d.size.toNat then { d with size := UInt32.ofNat (off + tot) } else d
      simp only [wp_bind]
      have hEnd := writeiEnd_spec hE h hip hw (by omega) (by omega) hMapped
        (Q := fun _ u => Alters s u i { s.files i with size := max (s.files i).size (off + tot), data := f }) fun _ hu => hu
      apply wp_post (wp_weaken_stop (wp_both hEnd hFull) fun _ he => he.1)
      rintro _ u ⟨hAlters, hNone⟩
      apply wp_post (wp_weaken_stop (wp_both hAlters hNone) fun _ he => he.1)
      rintro _ v ⟨hv, hNone⟩
      exact wp_val (.inr ⟨tot, f, rfl, by omega, hMoved, hEnds.mono hNone, hv⟩)

lemma writei_moves (h : Consistent s) (hip : Loaded s ip i) (src : CopyIn) (off n : Nat) :
    wp (writei ip src off n) E (fun r t =>
      (r = -1 ∧ Alters s t i (s.files i)) ∨
      ∃ (tot : Nat) (f : Nat → UInt8), r = tot ∧ off ≤ (s.files i).size ∧ off + n ≤ 268 * 1024 ∧
        Moved src n 0 off (tot, off + tot) (s.files i).data f ∧
        Alters s t i { s.files i with size := max (s.files i).size (off + tot), data := f }) s := by
  apply wp_post (writei_exact hE h hip src off n)
  rintro r t (⟨hr, rfl, -⟩ | ⟨tot, f, hr, ⟨hOff, -, hMax⟩, hMoved, -, ht⟩)
  · exact .inl ⟨hr, .refl h i⟩
  · exact .inr ⟨tot, f, hr, hOff, hMax, hMoved, ht⟩

lemma writei_spec (h : Consistent s) (hip : Loaded s ip i) (src : CopyIn) (off n : Nat) :
    wp (writei ip src off n) E (fun _ t => ∃ sz f, (s.files i).size ≤ sz ∧
      Alters s t i { s.files i with size := sz, data := f }) s := by
  apply wp_post (writei_moves hE h hip src off n)
  rintro r t (⟨-, ht⟩ | ⟨tot, f, -, -, -, -, ht⟩)
  · exact ⟨_, _, le_refl _, ht⟩
  · exact ⟨_, f, le_max_left .., ht⟩

lemma writeDirent_spec (h : Consistent s) (hip : Loaded s ip i) {l : Text} (hl : l.length = 16) (hOff : off % 16 = 0) :
    wp (writeiKernel ip l off) E (fun r t =>
      (r ≠ 16 ∧ Alters s t i (s.files i)) ∨
      (r = 16 ∧ off ≤ (s.files i).size ∧ off + 16 ≤ 268 * 1024 ∧ Alters s t i { s.files i with
        size := max (s.files i).size (off + 16), data := overwrite (s.files i).data off l })) s := by
  have hFile : s.files i = (s.inode i).node s.disk := FsState.nodes_of_live (h.live hip)
  unfold writeiKernel writei
  rw [wp_bind, wp_getInode, h.di hip, hl, wp_ite]
  constructor
  · intro _
    exact wp_val (.inl ⟨by decide, .refl h i⟩)
  · intro hLow
    have hLow' : off ≤ (s.inode i).size.toNat := by omega
    have hSize : (s.files i).size = (s.inode i).size.toNat := by rw [hFile]; rfl
    rw [wp_ite]
    constructor
    · intro _
      exact wp_val (.inl ⟨by decide, .refl h i⟩)
    · intro hMax
      have hMax' : off + 16 ≤ 268 * 1024 := by
        unfold maxfile ndirect nindirect bsize at hMax
        omega
      unfold writeiLoop
      rw [if_pos (by decide), wp_bind, wp_bind]
      apply wp_post (bmap_spec hE h hip (off / bsize))
      rintro a t ⟨d, hMapped, hSlot, -⟩
      by_cases ha : a = 0
      · rw [if_pos ha, wp_pure]
        simp only [wp_bind]
        apply writeiEnd_spec hE h hip (.of_mapped hMapped) hLow' (by omega) (fun _ hlt => absurd hlt (lt_irrefl _))
        intro u hu
        apply wp_val
        refine .inl ⟨by decide, ?_⟩
        have hFileEq : { s.files i with size := max (s.files i).size off, data := (s.nodes s.inode i).data } = s.files i := by
          rw [hSize, max_eq_left hLow', ← hSize]
          rfl
        rwa [hFileEq] at hu
      · have hMin : min (16 - 0) (bsize - off % bsize) = 16 := by
          unfold bsize
          omega
        have hTake : (List.take 16 (l.drop 0)).take 16 = l := by
          rw [List.drop_zero, List.take_take, List.take_of_length_le (by omega)]
        have hFits : off % 1024 + l.length ≤ 1024 := by omega
        rw [if_neg ha]
        simp only [hMin, hTake, wp_bind, wp_update, if_true]
        apply wp_logWrite hE
        intro k
        unfold writeiLoop
        rw [if_neg (by decide), wp_pure]
        have hw := (Written.of_setData hMapped hip (show off / 1024 < 268 by omega) (hSlot ha) ha ((t.disk a).write (off % bsize) l)).withLh k
        have hSlots := (hMapped.intact.setData (hMapped.intact.live (hMapped.loaded hip)) (by omega : off / 1024 < 268)
          (by rw [Function.update_self]; exact hSlot ha) ha ((t.disk a).write (off % bsize) l)).2.2.1
        have hOwn := fun q => hSlots i q (hMapped.intact.live (hMapped.loaded hip))
        rw [Function.update_self] at hOwn
        have hOver := overwrite_block hMapped hip (hSlot ha) ha hFits (by omega)
        have hw' : Written s.inode ip i s ((t.setBlock a ((t.disk a).write (off % bsize) l)).withLh k) d
            (overwrite (s.files i).data off l) := by
          rw [← show _ = overwrite (s.files i).data off l from hOver]
          exact hw
        apply writeiEnd_spec hE h hip hw' hLow' hMax'
        · intro bn _ hbnLow hbnHigh
          have hbn : bn = off / 1024 := by omega
          have hAt : slotAt (t.setBlock a ((t.disk a).write (off % bsize) l)).disk d (fileSlot (off / 1024)) = a :=
            (hOwn _).trans (hSlot ha)
          rw [hbn]
          exact hAt.trans_ne ha
        · intro u hu
          exact wp_val (.inr ⟨rfl, by rw [hSize]; exact hLow', hMax', hu⟩)

end

/-! ## Reads -/

/-- `n` bytes of a file from `off` on. -/
def Node.slice (v : Node) (off n : Nat) : Text := (List.range n).map fun k => v.data (off + k)

lemma Node.slice_add (v : Node) (off k n : Nat) : v.slice off (k + n) = v.slice off k ++ v.slice (off + k) n := by
  unfold Node.slice
  rw [List.range_add, List.map_append, List.map_map]
  congr 1
  apply List.map_congr_left
  intro j _
  rw [Function.comp_apply, Nat.add_assoc]

@[simp] lemma Node.length_slice (v : Node) (off n : Nat) : (v.slice off n).length = n := by simp [Node.slice]

def Dinode.Whole (d : Dinode) (disk : Nat → Block) : Prop :=
  d.size.toNat ≤ 268 * 1024 ∧ ∀ bn, bn * 1024 < d.size.toNat → slotAt disk d (fileSlot bn) ≠ 0

section

variable {d : Dinode}

lemma read_slice {disk : Nat → Block} {k : Nat} (hk : off % 1024 + k ≤ 1024) (hOff : off < 268 * 1024)
    (hne : slotAt disk d (fileSlot (off / 1024)) ≠ 0) :
    (disk (slotAt disk d (fileSlot (off / 1024)))).read (off % 1024) k = (d.node disk).slice off k := by
  unfold Node.slice Bytes.read
  apply List.map_congr_left
  intro j hj
  have hj' := List.mem_range.mp hj
  have hDiv : (off + j) / 1024 = off / 1024 := by omega
  have hMod : (off + j) % 1024 = off % 1024 + j := by omega
  change _ = dataAt disk d (off + j)
  rw [dataAt, hDiv, if_pos ⟨by omega, hne⟩, hMod]

/-- The loop of a read changes nothing. It delivers the whole range, or stops where a copy fails. -/
lemma readiLoop_spec (hd : (s.itable ip).di = d) (hWhole : d.Whole s.disk) (copy : Nat → Text → Bool) (n : Nat) :
    ∀ fuel tot off acc, n - tot ≤ fuel → tot ≤ n → off + (n - tot) ≤ d.size.toNat →
    wp (readiLoop ip copy n fuel tot off acc) E (fun r t => t = s ∧
      ((r.1 = -1 ∧ ∃ k l, copy k l = false) ∨ r = ((n : Int), acc ++ (d.node s.disk).slice off (n - tot)))) s := by
  obtain ⟨hMax, hFull⟩ := hWhole
  intro fuel
  induction fuel with
  | zero =>
    intro tot off acc hFuel hTot _
    obtain rfl : tot = n := by omega
    exact wp_val ⟨rfl, .inr (by simp [Node.slice])⟩
  | succ fuel ih =>
    intro tot off acc hFuel hTot hEnd
    unfold readiLoop
    rw [wp_ite]
    constructor
    · intro hLess
      have hne := hFull (off / 1024) (by omega)
      apply wp_call (bmap_mapped hd (by omega) hne)
      rintro a t ⟨rfl, rfl⟩
      rw [if_neg hne, wp_bind, bread, wp_read]
      obtain ⟨k, hk⟩ : ∃ k, k = min (n - tot) (bsize - off % bsize) := ⟨_, rfl⟩
      rw [← hk]
      have hkBound : 0 < k ∧ k ≤ n - tot ∧ off % 1024 + k ≤ 1024 := by
        unfold bsize at hk
        omega
      have hSlice := read_slice hkBound.2.2 (by omega) hne
      simp only [show off % bsize = off % 1024 from rfl, hSlice]
      rw [wp_ite]
      constructor
      · intro _
        apply wp_post (ih (tot + k) (off + k) _ (by omega) (by omega) (by omega))
        rintro r u ⟨hu, hr⟩
        refine ⟨hu, hr.imp_right fun hEq => hEq.trans ?_⟩
        rw [List.append_assoc, ← Node.slice_add, show k + (n - (tot + k)) = n - tot by omega]
      · intro hFails
        exact wp_val ⟨rfl, .inl ⟨rfl, _, _, Bool.eq_false_iff.mpr hFails⟩⟩
    · intro hDone
      obtain rfl : tot = n := by omega
      exact wp_val ⟨rfl, .inr (by simp [Node.slice])⟩

/-- How many bytes a read of `n` bytes at `off` finds. -/
def Node.found (v : Node) (off n : Nat) : Nat :=
  if v.size < off ∨ (off + n) % 2 ^ 32 < off then 0 else min n (v.size - off)

/-- A read of a file without holes changes nothing and delivers the range, unless a copy fails. -/
lemma readi_whole (hd : (s.itable ip).di = d) (hWhole : d.Whole s.disk) (copy : Nat → Text → Bool) (off n : Nat) :
    wp (readi ip copy off n) E (fun r t => t = s ∧ ((r.1 = -1 ∧ ∃ k l, copy k l = false) ∨
      r = (((d.node s.disk).found off n : Int), (d.node s.disk).slice off ((d.node s.disk).found off n)))) s := by
  obtain ⟨size, hSize⟩ : ∃ size, size = d.size.toNat := ⟨_, rfl⟩
  unfold readi Node.found
  rw [wp_bind, wp_getInode, hd, show (d.node s.disk).size = size from hSize.symm, ← hSize, wp_ite]
  constructor
  · intro hOut
    rw [if_pos (by omega)]
    exact wp_val ⟨rfl, .inr rfl⟩
  · intro hIn
    obtain ⟨k, hk⟩ : ∃ k, k = if off + n > size then size - off else n := ⟨_, rfl⟩
    have hkMin : k = min n (size - off) := by
      rw [hk]
      split <;> omega
    rw [if_neg (show ¬ (size < off ∨ (off + n) % 2 ^ 32 < off) by omega), ← hkMin]
    simp only [← hk]
    exact readiLoop_spec hd hWhole copy k k 0 off [] (by omega) (Nat.zero_le _) (by omega)

end

lemma readi_slice (h : Consistent s) (hip : Loaded s ip i) (copy : Nat → Text → Bool) (off n : Nat) :
    wp (readi ip copy off n) E (fun r t => t = s ∧ ((r.1 = -1 ∧ ∃ k l, copy k l = false) ∨
      r = (((s.files i).found off n : Int), (s.files i).slice off ((s.files i).found off n)))) s := by
  rw [FsState.files_of_live (h.live hip)]
  exact readi_whole (h.di hip) (h.full i (h.live hip)) copy off n

lemma readi_spec (h : Consistent s) (hip : Loaded s ip i) (copy : Nat → Text → Bool) (off n : Nat) :
    wp (readi ip copy off n) E (fun _ t => t = s) s := wp_post (readi_slice h hip copy off n) fun _ _ ht => ht.1

/-- The directory entry at byte `off` of a file. -/
def Node.dirent (n : Node) (off : Nat) : Dirent := Dirent.ofBytes ((List.range 16).map fun k => n.data (off + k))

lemma readDirent_spec (h : Consistent s) (hip : Loaded s ip i) (hOff : off % 16 = 0) (e : Stop)
    (he : (s.files i).size < off + 16 → E e) :
    wp (readDirent ip off e) E (fun de t => t = s ∧ off + 16 ≤ (s.files i).size ∧ de = (s.files i).dirent off) s := by
  have hMax := (h.full i (h.live hip)).1
  have hSize : (s.files i).size = (s.inode i).size.toNat := h.size_eq hip
  unfold readDirent readiKernel
  apply wp_call (readi_slice h hip (fun _ _ => true) off direntSize)
  rintro r t ⟨rfl, (⟨-, k, l, hFalse⟩ | rfl)⟩
  · cases hFalse
  · rw [wp_ite]
    constructor
    · intro hCount
      refine (wp_stop _).mpr (he ?_)
      by_contra hEnd
      apply hCount
      have hWord : off + 16 < 2 ^ 32 := by omega
      unfold Node.found direntSize
      rw [if_neg (by omega)]
      omega
    · intro hCount
      have hFound : (t.files i).found off direntSize = 16 := by
        unfold direntSize at hCount ⊢
        omega
      simp only [hFound]
      refine wp_val ⟨rfl, ?_, rfl⟩
      unfold Node.found direntSize at hFound
      split at hFound <;> omega

end Xv6K230.Fs
