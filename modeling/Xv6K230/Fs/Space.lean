import Xv6K230.Fs.Still

/-! # Space on the disk

How many blocks are free, how many `bmap` has to allocate, and when for that reason
`dirlink` has no place for an entry.
-/

namespace Xv6K230.Fs

open Prog

variable {s t : FsState} {sb : Superblock} {e : Ip → Entry} {f : Nat → Node} {m : Nat → Dinode} {ip dp : Ip} {i a bn off : Nat}
  {d : Dinode}

def FsState.freeBlocks (s : FsState) : Nat := (List.range s.sb.size).countP fun b => !s.bit b

/-- The number of blocks that `bmap` has to allocate for block `bn` of a file. -/
def missing (disk : Nat → Block) (d : Dinode) (bn : Nat) : Nat :=
  if bn < ndirect then
    if d.addr bn = 0 then 1 else 0
  else if d.addr ndirect = 0 then 2
  else if (disk (d.addr ndirect)).getLE (4 * (bn - ndirect)) 4 = 0 then 1 else 0

def NoSpace (s : FsState) (d : Dinode) (n : Node) : Prop :=
  (∀ off, n.Slot off → (n.dirent off).inum ≠ 0) ∧
  (maxfile * bsize < n.size + direntSize ∨ s.freeBlocks < missing s.disk d (n.size / bsize))

lemma FsState.NoneFree.freeBlocks (h : s.NoneFree) : s.freeBlocks = 0 := by
  apply List.countP_eq_zero.mpr
  intro b hb
  rw [h b (List.mem_range.mp hb)]
  decide

lemma Granted.freeBlocks (h : Granted s t a) (hsb : t.sb = s.sb) : t.freeBlocks + 1 = s.freeBlocks := by
  have hPerm := List.perm_cons_erase (List.mem_range.mpr h.high)
  have hRest : ((List.range s.sb.size).erase a).countP (fun b => !t.bit b) =
      ((List.range s.sb.size).erase a).countP fun b => !s.bit b := by
    apply List.countP_congr
    intro b hb
    obtain ⟨hne, hMem⟩ := (List.nodup_range.mem_erase_iff).mp hb
    rw [h.bits b (List.mem_range.mp hMem), decide_eq_false hne, Bool.false_or]
  unfold FsState.freeBlocks
  rw [hsb, hPerm.countP_eq, hPerm.countP_eq, List.countP_cons, List.countP_cons, hRest, h.fresh, h.bits a h.high]
  simp

lemma balloc_count (hLow : ∀ b < s.sb.nmeta, s.bit b = true) :
    wp balloc (fun _ => True) (fun a t => (a = 0 ∧ s.freeBlocks = 0) ∨
      a ≠ 0 ∧ t.freeBlocks + 1 = s.freeBlocks ∧ SameTable s t ∧ Granted s t a) s := by
  apply wp_post (balloc_spec (fun _ _ => trivial) hLow)
  rintro a t (⟨ha, -, hNone⟩ | ⟨ha, hTable, hg⟩)
  · exact .inl ⟨ha, hNone.freeBlocks⟩
  · exact .inr ⟨ha, hg.freeBlocks hTable.1, hTable, hg⟩

lemma Granted.low_bits (h : Granted s t a) (hsb : t.sb = s.sb) (hLow : ∀ b < s.sb.nmeta, s.bit b = true) :
    ∀ b < t.sb.nmeta, t.bit b = true := by
  rw [hsb]
  intro b hb
  have hLe := h.low
  have hHigh := h.high
  rw [h.bits b (by omega), hLow b hb, Bool.or_true]

lemma entry_count (hLow : ∀ b < s.sb.nmeta, s.bit b = true) {ind : Nat} (hInd : ind ≠ 0) {R : Nat → FsState → Prop}
    (hMapped : (s.disk ind).getLE (4 * (bn - ndirect)) 4 ≠ 0 → ∀ a t, a ≠ 0 → R a t)
    (hFull : (s.disk ind).getLE (4 * (bn - ndirect)) 4 = 0 → s.freeBlocks = 0 → ∀ t, R 0 t)
    (hGot : (s.disk ind).getLE (4 * (bn - ndirect)) 4 = 0 → 0 < s.freeBlocks → ∀ a t, a ≠ 0 → R a t) :
    wp (do
      if ind = 0 then
        return 0
      else
        let bp ← bread ind
        let addr := bp.getLE (4 * (bn - ndirect)) 4
        if addr ≠ 0 then
          return addr
        else
          let addr ← balloc
          if addr ≠ 0 then
            Prog.update fun s => s.setBlock ind ((s.disk ind).putLE (4 * (bn - ndirect)) 4 addr)
            logWrite ind
          return addr : FsM Nat) (fun _ => True) R s := by
  rw [if_neg hInd, wp_bind, bread, wp_read]
  by_cases hEntry : (s.disk ind).getLE (4 * (bn - ndirect)) 4 = 0
  · rw [if_neg (not_not.mpr hEntry)]
    apply wp_call (balloc_count hLow)
    rintro a t (⟨rfl, hNone⟩ | ⟨ha, hCount, -⟩)
    · rw [if_neg (not_not.mpr rfl), wp_pure]
      exact hFull hEntry hNone t
    · rw [if_pos ha, wp_bind, wp_update, wp_bind]
      apply wp_post (wp_true _ _)
      intro _ u _
      exact wp_val (hGot hEntry (by omega) a u ha)
  · rw [if_pos hEntry, wp_pure]
    exact hMapped hEntry _ _ hEntry

/-- `bmap` fails exactly where the blocks that it has to allocate are more than are free. -/
lemma bmap_count (hLow : ∀ b < s.sb.nmeta, s.bit b = true) (hd : (s.itable ip).di = d) (hbn : bn < maxfile) :
    wp (bmap ip bn) (fun _ => True) (fun a _ => a = 0 ↔ s.freeBlocks < missing s.disk d bn) s := by
  unfold bmap missing
  rw [wp_bind, wp_getInode, hd]
  by_cases hDirect : bn < ndirect
  · rw [if_pos hDirect, if_pos hDirect]
    by_cases hAddr : d.addr bn = 0
    · rw [if_neg (not_not.mpr hAddr), if_pos hAddr]
      apply wp_call (balloc_count hLow)
      rintro a t (⟨rfl, hNone⟩ | ⟨ha, hCount, -⟩)
      · rw [if_pos rfl, wp_pure]
        exact ⟨fun _ => by omega, fun _ => rfl⟩
      · rw [if_neg ha, wp_bind, wp_modDi, wp_pure]
        exact ⟨fun hz => absurd hz ha, fun hlt => by omega⟩
    · rw [if_pos hAddr, if_neg hAddr, wp_pure]
      exact ⟨fun hz => absurd hz hAddr, fun hlt => by omega⟩
  · have hRange : bn - ndirect < nindirect := by
      unfold maxfile at hbn
      omega
    rw [if_neg hDirect, if_neg hDirect, if_pos hRange]
    unfold indirectBlock
    rw [wp_bind, wp_bind, wp_getInode, hd]
    by_cases hInd : d.addr ndirect = 0
    · -- the indirect block comes first; it is zeroed, so the entry is missing too
      rw [if_neg (not_not.mpr hInd), if_pos hInd]
      apply wp_call (balloc_count hLow)
      rintro ind t (⟨rfl, hNone⟩ | ⟨hne, hCount, hTable, hg⟩)
      · rw [if_pos rfl, wp_pure, if_pos rfl, wp_pure]
        exact ⟨fun _ => by omega, fun _ => rfl⟩
      · rw [if_neg hne, wp_bind, wp_modDi, wp_pure]
        have hZero : ((t.setDi ip ((t.itable ip).di.setAddr ndirect ind)).disk ind).getLE (4 * (bn - ndirect)) 4 = 0 := by
          rw [FsState.setDi_disk, hg.zeroed, Bytes.getLE_fill_zero]
        apply entry_count (s := t.setDi ip _) (hg.low_bits hTable.1 hLow) hne
        · exact fun hEntry => absurd hZero hEntry
        · intro _ hNone _
          change t.freeBlocks = 0 at hNone
          exact ⟨fun _ => by omega, fun _ => rfl⟩
        · intro _ hSome a _ ha
          change 0 < t.freeBlocks at hSome
          exact ⟨fun hz => absurd hz ha, fun hlt => by omega⟩
    · rw [if_pos hInd, if_neg hInd, wp_pure]
      apply entry_count hLow hInd
      · grind
      · grind
      · grind

lemma writeDirent_count (hLow : ∀ b < s.sb.nmeta, s.bit b = true) (hd : (s.itable ip).di = d) {l : Text}
    (hl : l.length = 16) (hOff : off % 16 = 0) (hSize : off ≤ d.size.toNat) :
    wp (writeiKernel ip l off) (fun _ => True) (fun r _ => r ≠ 16 ↔
      maxfile * bsize < off + 16 ∨ s.freeBlocks < missing s.disk d (off / bsize)) s := by
  have hWord := d.size.toNat_lt
  unfold writeiKernel writei
  rw [wp_bind, wp_getInode, hd, hl, wp_ite]
  constructor
  · intro hWrap
    refine wp_val ⟨fun _ => .inl ?_, fun _ => by decide⟩
    unfold maxfile ndirect nindirect bsize
    omega
  · intro _
    rw [wp_ite]
    constructor
    · intro hMax
      exact wp_val ⟨fun _ => .inl hMax, fun _ => by decide⟩
    · intro hMax
      have hbn : off / bsize < maxfile := by
        grind [Nat.div_lt_iff_lt_mul, maxfile, ndirect, nindirect, bsize]
      unfold writeiLoop
      rw [if_pos (by decide), wp_bind, wp_bind]
      apply wp_post (bmap_count hLow hd hbn)
      intro a t ha
      by_cases hZero : a = 0
      · rw [if_pos hZero, wp_pure, wp_bind, wp_modDi, wp_bind]
        apply wp_post (wp_true _ _)
        intro _ u _
        exact wp_val ⟨fun _ => .inr (ha.mp hZero), fun _ => by decide⟩
      · have hMin : min (16 - 0) (bsize - off % bsize) = 16 := by
          unfold bsize
          omega
        rw [if_neg hZero]
        simp only [hMin, wp_bind, wp_update, if_true]
        apply wp_post (wp_true _ _)
        intro _ u _
        unfold writeiLoop
        rw [if_neg (by decide), wp_pure, wp_modDi]
        apply wp_post (wp_true _ _)
        intro _ v _
        refine wp_val ⟨fun hne => absurd rfl hne, fun hr => ?_⟩
        rcases hr with hr | hr
        · exact absurd hr hMax
        · exact absurd (ha.mpr hr) hZero

lemma missing_of_mapped {disk : Nat → Block} (h : slotAt disk d (fileSlot bn) ≠ 0) : missing disk d bn = 0 := by
  unfold missing ndirect
  by_cases hDirect : bn < 12
  · rw [slotAt_direct hDirect] at h
    rw [if_pos hDirect, if_neg h]
  · have hInd : d.addr 12 ≠ 0 := by
      intro hZero
      have hSlot : fileSlot bn = bn + 1 := if_neg hDirect
      rw [hSlot, slotAt, if_neg (by omega), if_pos hZero] at h
      exact h rfl
    rw [slotAt_entry hDirect hInd] at h
    rw [if_neg hDirect, if_neg hInd, if_neg h]

/-- `dirlink` fails exactly on a name that the directory has and where there is no space. -/
lemma dirlink_count (h : View s sb e f) (hRef : 0 < (e dp).ref) (hValid : (e dp).valid = true)
    (hRange : (f (e dp).inum).type = tDir → (f (e dp).inum).InRange sb.ninodes) (hAligned : (f (e dp).inum).size % 16 = 0)
    (name : Text) (inum : Nat) :
    wp (dirlink dp name inum) (fun _ => True) (fun r _ => r = false ↔
      (∃ off, (f (e dp).inum).Names off name) ∨ NoSpace s (s.itable dp).di (f (e dp).inum)) s := by
  have hSize := h.size hRef hValid
  have hip := h.loaded hRef hValid
  obtain ⟨hMax, hMapped⟩ := h.consistent.full _ (h.consistent.live hip)
  rw [← h.consistent.di hip, hSize] at hMax hMapped
  unfold dirlink
  apply wp_call (dirlookup_spec (fun _ _ _ => trivial) h hRef hValid hRange name)
  rintro (_ | ⟨ip, off⟩) t ⟨-, hr⟩
  · obtain ⟨rfl, hAbsent⟩ := hr
    rw [wp_bind, wp_getInode, hSize]
    apply wp_call (scan_spec (P := fun de => de.inum = 0)
      (g := fun de off => if de.inum = 0 then return some off else return none)
      (R := fun r u => u = t ∧ match r with
        | some off => (f (e dp).inum).Slot off ∧ ((f (e dp).inum).dirent off).inum = 0
        | none => ∀ off, (f (e dp).inum).Slot off → ((f (e dp).inum).dirent off).inum ≠ 0)
      h hRef hValid (fun _ => trivial) _ _ (fun off hOff => mem_direntOffsets.mp hOff) _)
    · rintro (_ | off) u ⟨rfl, hSlot⟩
      · have hEnd : ((f (e dp).inum).size + (direntSize - 1)) / direntSize * direntSize = (f (e dp).inum).size := by
          unfold direntSize
          omega
        rw [Option.getD_none, hEnd]
        apply wp_call (writeDirent_count h.consistent.low rfl (Dirent.length_toBytes _) hAligned (le_of_eq hSize.symm))
        intro r v hr
        refine wp_val ?_
        rw [decide_eq_false_iff_not]
        constructor
        · exact fun hne => .inr ⟨hSlot, hr.mp hne⟩
        · rintro (⟨off, hNamed⟩ | hNone)
          · exact absurd hNamed (hAbsent off)
          · exact hr.mpr hNone.2
      · obtain ⟨⟨hMod, hLe⟩, hUnused⟩ := hSlot
        rw [Option.getD_some]
        apply wp_call (writeDirent_count h.consistent.low rfl (Dirent.length_toBytes _) hMod (by omega))
        intro r v hr
        have hThere : missing u.disk (u.itable dp).di (off / bsize) = 0 :=
          missing_of_mapped (hMapped _ (by unfold bsize; omega))
        rw [hThere] at hr
        refine wp_val ?_
        rw [decide_eq_false_iff_not]
        constructor
        · intro hne
          rcases hr.mp hne with hFar | hNeg
          · unfold maxfile ndirect nindirect bsize at hFar
            omega
          · omega
        · rintro (⟨off, hNamed⟩ | hNone)
          · exact absurd hNamed (hAbsent off)
          · exact absurd hUnused (hNone.1 off ⟨hMod, hLe⟩)
    · intro off _ hP
      rw [if_neg hP, wp_pure]
      exact ⟨rfl, rfl⟩
    · intro off hSlot hP
      rw [if_pos hP, wp_pure]
      exact ⟨⟨_, rfl⟩, rfl, hSlot, hP⟩
    · intro hAll
      refine ⟨rfl, fun off hSlot => (hAll off (mem_direntOffsets.mpr ⟨hSlot.1, ?_⟩)).2⟩
      have := hSlot.2
      omega
  · rw [wp_bind]
    apply wp_post (wp_true _ _)
    intro _ u _
    exact wp_val ⟨fun _ => .inl ⟨off, hr.1⟩, fun _ => rfl⟩

/-! ## What leaves the room in a directory as it is -/

/-- The bitmap, the data blocks and inode `i` are as they were. -/
structure SameRoom (i : Nat) (s t : FsState) : Prop where
  sb : t.sb = s.sb
  disk : ∀ b, s.sb.bmapstart ≤ b → t.disk b = s.disk b
  inode : t.inode i = s.inode i

lemma Still.sameRoom (h : Still s t) (i : Nat) : SameRoom i s t where
  sb := h.sb
  disk b _ := by rw [h.disk]
  inode := by
    unfold FsState.inode FsState.dinode
    rw [h.sb, h.disk]

lemma SameRoom.trans {u : FsState} (h : SameRoom i s t) (h' : SameRoom i t u) : SameRoom i s u where
  sb := h'.sb.trans h.sb
  disk b hb := by rw [h'.disk b (by rw [h.sb]; exact hb), h.disk b hb]
  inode := h'.inode.trans h.inode

lemma SameRoom.setDinode (hOk : s.sb.Ok) {j : Nat} (hj : j < s.sb.ninodes) (hne : j ≠ i) (d : Dinode) :
    SameRoom i s (s.setDinode j d) where
  sb := rfl
  disk b hb := FsState.setBlock_disk_of_ne _ (by have := hOk.iblock_lt hj; omega)
  inode := by rw [FsState.inode_setDinode hj, Function.update_of_ne hne.symm]

lemma SameRoom.freeBlocks (h : SameRoom i s t) : t.freeBlocks = s.freeBlocks := by
  unfold FsState.freeBlocks FsState.bit
  rw [h.sb]
  congr 1
  funext b
  have hBlock : s.sb.bmapstart ≤ s.sb.bblock b := Nat.le_add_left _ _
  rw [h.disk _ hBlock]

lemma SameRoom.noSpace_iff (h : SameRoom i s t) (hOk : Consistent s) (hLive : s.Live s.inode i) (n : Node) :
    NoSpace t (t.inode i) n ↔ NoSpace s (s.inode i) n := by
  have hSame : ∀ bn, missing t.disk (s.inode i) bn = missing s.disk (s.inode i) bn := by
    intro bn
    unfold missing
    by_cases hInd : (s.inode i).addr ndirect = 0
    · simp only [hInd, if_true]
    · have hSlot : slotAt s.disk (s.inode i) 12 = (s.inode i).addr ndirect := rfl
      have hPlace : s.place s.inode none (some (i, 12)) = some ((s.inode i).addr ndirect) := by
        rw [← hSlot] at hInd ⊢
        exact if_pos ⟨hLive, by decide, hInd⟩
      have hLow := (hOk.used hPlace).1
      have hMeta := s.sb.bmapstart_lt_nmeta
      rw [h.disk _ (by omega)]
  unfold NoSpace
  rw [h.inode, hSame, h.freeBlocks]

lemma ialloc_sameRoom (hOk : s.sb.Ok) (hUsed : (s.inode i).type ≠ 0) (dev : Nat) (type : UInt16) :
    wp (ialloc dev type) (fun _ => True) (fun _ t => SameRoom i s t) s := by
  unfold ialloc
  rw [wp_bind, wp_read]
  apply wp_firstM (I := fun l t => t = s ∧ ∀ j ∈ l, j < s.sb.ninodes)
  · rintro t ⟨rfl, -⟩
    exact (Still.refl t).sameRoom i
  · rintro j l t ⟨rfl, hAll⟩
    have hj := hAll j List.mem_cons_self
    unfold iallocAt
    rw [wp_bind, wp_read, wp_ite]
    constructor
    · intro hFree
      have hne : j ≠ i := by
        grind [FsState.inode]
      rw [wp_bind, wp_update, wp_bind]
      apply wp_logWrite (fun _ _ => trivial)
      intro lh
      apply wp_call (iget_still fun _ => trivial)
      intro ip u hu
      exact wp_val ((SameRoom.setDinode hOk hj hne _).trans (((Still.withLh _ lh).trans hu).sameRoom i))
    · exact fun _ => wp_val ⟨rfl, fun k hk => hAll k (List.mem_cons_of_mem _ hk)⟩
  · grind

lemma iupdate_sameRoom (hOk : s.sb.Ok) (hInum : (s.itable ip).inum < s.sb.ninodes) (hne : (s.itable ip).inum ≠ i) :
    wp (iupdate ip) (fun _ => True) (fun _ t => SameRoom i s t) s := by
  unfold iupdate
  rw [wp_bind, wp_getInode, wp_bind, wp_read, wp_bind, wp_update]
  apply wp_logWrite (fun _ _ => trivial)
  intro lh
  exact (SameRoom.setDinode hOk hInum hne _).trans ((Still.withLh _ lh).sameRoom i)

end Xv6K230.Fs
