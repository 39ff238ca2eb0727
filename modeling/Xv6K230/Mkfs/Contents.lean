import Xv6K230.Mkfs.Append
import Xv6K230.Fs.Lifetime

/-! # The files of the image

What the image holds after a sequence of `ialloc` and `iappend`: every inode stands for the
bytes that have been appended to it, and the kernel reads them back.
-/

namespace Xv6K230.Mkfs

open Fs Prog
open Function (update_of_ne update_self)

variable {E : Exit → Prop} {h h' : Host} {ty : Nat → UInt16} {c : Nat → Text} {i : Nat}

def Host.Has (h : Host) (i : Nat) : Prop := 0 < i ∧ i < h.freeinode

instance (i : Nat) : Decidable (h.Has i) := inferInstanceAs (Decidable (_ ∧ _))

/-- The file with the bytes `l`, as `mkfs` makes it. -/
def fileOf (type : UInt16) (l : Text) : Node := ⟨type, 0, 0, 1, l.length, fun x => l.getD x 0⟩

/-- The image holds inodes of the types `ty` with the contents `c`, on as few blocks as possible. -/
structure Represents (h : Host) (ty : Nat → UInt16) (c : Nat → Text) : Prop where
  len : h.len = fssize
  super : h.disk 1 = superBlock
  first : 0 < h.freeinode
  inodes : h.freeinode ≤ ninodes
  supply : h.freeblock = nmeta + ∑ i ∈ Finset.range ninodes, blocksFor (c i).length
  room : h.freeblock ≤ fssize
  zero : ∀ b, h.freeblock ≤ b → h.disk b = Bytes.fill 0
  consistent : Consistent (h.state noTable)
  files : ∀ i, (h.state noTable).files i = if h.Has i then fileOf (ty i) (c i) else Node.free
  types : ∀ i, h.Has i → ty i ≠ 0
  unused : ∀ i, ¬ h.Has i → c i = []
  filled : ∀ i, h.Has i → ∀ q < nslots, slotAt h.disk ((h.state noTable).inode i) q ≠ 0 ↔ Needed (c i).length q

structure Room (c : Nat → Text) : Prop where
  files : ∀ i, (c i).length ≤ 268 * 1024
  image : nmeta + ∑ i ∈ Finset.range ninodes, blocksFor (c i).length ≤ fssize

lemma Room.mono {c' : Nat → Text} (hRoom : Room c') (hLe : ∀ i, (c i).length ≤ (c' i).length) : Room c where
  files := fun i => (hLe i).trans (hRoom.files i)
  image := by
    have hSum := Finset.sum_le_sum fun i (_ : i ∈ Finset.range ninodes) => blocksFor_mono (hLe i)
    have := hRoom.image
    omega

lemma iblock_lt (hi : i < ninodes) : sb.iblock i < sb.bmapstart ∧ 1 < sb.iblock i := by
  unfold Superblock.iblock ipb
  have hStart : sb.inodestart = 33 ∧ sb.bmapstart = 46 := by decide
  unfold ninodes at hi
  omega

lemma load_inode {t : Ip → Inode} (hi : i < ninodes) :
    Dinode.load (h.disk (sb.iblock i)) (i % ipb * 64) = (h.state t).inode i := by
  have hInode : (h.state t).inode i = (h.state t).dinode i := if_pos hi
  rw [hInode, FsState.dinode, show (h.state t).disk ((h.state t).sb.iblock i) = h.disk (sb.iblock i) from
    state_disk (iblock_lt hi).1.ne]

lemma state_setDinode {t : Ip → Inode} (hi : i < ninodes) (d : Dinode) :
    (h.state t).setDinode i d = (h.setBlock (sb.iblock i) (d.store (h.disk (sb.iblock i)) (i % ipb * 64))).state t := by
  rw [← state_setBlock (iblock_lt hi).1.ne, ← state_disk (h := h) (t := t) (iblock_lt hi).1.ne]
  rfl

lemma retable {s t : FsState} (hsb : t.sb = s.sb) (hDisk : t.disk = s.disk) (hTable : t.itable = noTable) (hs : Consistent s) :
    Consistent t ∧ t.files = s.files ∧ t.inode = s.inode := by
  obtain ⟨sb', disk, out, lh, tbl⟩ := s
  obtain ⟨sb'', disk', out', lh', tbl'⟩ := t
  simp only at hsb hDisk hTable
  subst hsb hDisk hTable
  refine ⟨⟨hs.ok, ⟨hs.owned.placed, hs.owned.low⟩, hs.full, ⟨fun _ => le_rfl, ?_, ?_, ?_⟩, ?_⟩, rfl, rfl⟩
  · exact fun _ hRef => absurd hRef (lt_irrefl _)
  · exact fun _ hRef => absurd hRef (lt_irrefl _)
  · exact fun _ _ hRef => absurd hRef (lt_irrefl _)
  · exact fun _ hRef => absurd hRef (lt_irrefl _)

lemma state_loaded (i : Nat) (d : Dinode) :
    (h.state noTable).setInode ip0 ⟨rootdev, i, 1, false, true, d⟩ = h.state (loaded i d) := by
  unfold FsState.setInode Host.state loaded
  congr 1
  funext jp
  by_cases hj : jp = ip0 <;> simp [hj]

namespace Represents

lemma lt (hr : Represents h ty c) (hi : h.Has i) : i < ninodes := hi.2.trans_le hr.inodes

lemma file (hr : Represents h ty c) (hi : h.Has i) : (h.state noTable).files i = fileOf (ty i) (c i) := by
  rw [hr.files, if_pos hi]

lemma live (hr : Represents h ty c) (hi : h.Has i) : (h.state noTable).Live (h.state noTable).inode i := by
  by_contra hNot
  have hFree : (h.state noTable).files i = Node.free := if_neg hNot
  rw [hr.file hi] at hFree
  exact hr.types i hi (congrArg Node.type hFree)

lemma node (hr : Represents h ty c) (hi : h.Has i) :
    ((h.state noTable).inode i).node (h.state noTable).disk = fileOf (ty i) (c i) := by
  rw [← hr.file hi]
  exact (FsState.nodes_of_live (hr.live hi)).symm

lemma size (hr : Represents h ty c) (hi : h.Has i) : ((h.state noTable).inode i).size.toNat = (c i).length :=
  congrArg Node.size (hr.node hi)

lemma indirect_le (hr : Represents h ty c) (hi : h.Has i) (hInd : ((h.state noTable).inode i).addr 12 ≠ 0) :
    nmeta ≤ ((h.state noTable).inode i).addr 12 := by
  have hUsed := hr.consistent.used (q := 12) (FsState.place_some_iff.mpr ⟨hr.live hi, by decide, rfl, hInd⟩)
  exact sb_nmeta.symm.trans_le hUsed.1

lemma slotAt_state (hr : Represents h ty c) (hi : h.Has i) (q : Nat) :
    slotAt (h.state noTable).disk ((h.state noTable).inode i) q = slotAt h.disk ((h.state noTable).inode i) q :=
  slotAt_congr (fun hne => state_disk (ne_bmapstart (hr.indirect_le hi hne))) q

lemma load (hr : Represents h ty c) (hi : h.Has i) : Consistent (h.state (loaded i ((h.state noTable).inode i))) := by
  have hView : View (h.state noTable) sb (h.state noTable).entries (h.state noTable).files := ⟨hr.consistent, rfl, rfl, rfl⟩
  have hTable : TableOk sb.ninodes (Function.update (h.state noTable).entries ip0 ⟨rootdev, i, 1, false, true⟩) := by
    apply hView.table.take Int.one_pos rfl ⟨hi.1, hr.lt hi⟩
    intro jp hRef
    exact absurd hRef (lt_irrefl _)
  have hLoaded := hView.setInode (x := ⟨rootdev, i, 1, false, true, (h.state noTable).inode i⟩) hTable
    fun _ _ => ⟨rfl, hr.live hi⟩
  rw [state_loaded] at hLoaded
  exact hLoaded.consistent

lemma grows (hr : Represents h ty c) (hi : h.Has i) :
    Grows (h.state (loaded i ((h.state noTable).inode i))) i h.freeinode h ((h.state noTable).inode i) (c i)
      (Needed (c i).length) where
  len := hr.len
  inodes := rfl
  super := hr.super
  low := by
    rw [hr.supply]
    exact Nat.le_add_right ..
  room := hr.room
  zero := hr.zero
  written := by
    have hRefl := Written.of_mapped (.refl (hr.load hi) (loaded_loaded h i _))
    have hData : (fun x => (c i).getD x 0) =
        ((h.state (loaded i ((h.state noTable).inode i))).nodes (h.state (loaded i ((h.state noTable).inode i))).inode i).data :=
      (congrArg Node.data (hr.file hi)).symm
    rw [hData]
    exact hRefl
  filled := hr.filled i hi

def others (c : Nat → Text) (i : Nat) : Nat := nmeta + ∑ j ∈ (Finset.range ninodes).erase i, blocksFor (c j).length

lemma sum_others (hi : i < ninodes) (c : Nat → Text) :
    nmeta + ∑ j ∈ Finset.range ninodes, blocksFor (c j).length = others c i + blocksFor (c i).length := by
  rw [others, ← Finset.add_sum_erase _ _ (Finset.mem_range.mpr hi)]
  omega

lemma others_update (i : Nat) (l : Text) : others (Function.update c i l) i = others c i := by
  unfold others
  congr 1
  apply Finset.sum_congr rfl
  intro j hj
  rw [update_of_ne (Finset.ne_of_mem_erase hj)]

lemma wp_logWrite_state {t : Ip → Inode} {F : Stop → Prop} (b : Nat) {Q : Unit → FsState → Prop} :
    wp (logWrite b) F Q (h.state t) ↔ Q () ((h.state t).withLh [b]) := by
  have hSpace : ¬ (h.state t).lh.length ≥ logblocks := by simp [Host.state, logblocks, maxopblocks]
  have hInside : ¬ (h.state t).outstanding < 1 := by simp [Host.state]
  have hNew : b ∉ (h.state t).lh := List.not_mem_nil
  unfold logWrite
  rw [wp_bind, wp_read, id, if_neg hSpace, if_neg hInside, if_neg hNew, wp_update]
  rfl

lemma iupdate_state {d : Dinode} {k : Nat} {Q : FsState → Prop} (hi : i < ninodes) (hSize : d.size.toNat ≤ k)
    (hWp : wp (modDi ip0 fun d => if k > d.size.toNat then { d with size := UInt32.ofNat k } else d) (fun _ : Stop => True)
      (fun _ u => wp (iupdate ip0) (fun _ => True) (fun _ u => Q u) u) (h.state (loaded i d))) :
    ∃ u, Q u ∧ u.sb = sb ∧ u.disk = ((h.setBlock (sb.iblock i)
      (Dinode.store { d with size := UInt32.ofNat k } (h.disk (sb.iblock i)) (i % ipb * 64))).state noTable).disk := by
  have hAt : ∀ d, (h.state (loaded i d)).itable ip0 = ⟨rootdev, i, 1, false, true, d⟩ := by
    simp [Host.state, loaded]
  have hd : (if k > d.size.toNat then { d with size := UInt32.ofNat k } else d) = { d with size := UInt32.ofNat k } := by
    split
    · rfl
    · have hEq : UInt32.ofNat k = d.size := by
        rw [show k = d.size.toNat by omega, UInt32.ofNat_toNat]
      rw [hEq]
  rw [wp_modDi, hAt, hd, state_setDi] at hWp
  unfold iupdate at hWp
  rw [wp_bind, wp_getInode, hAt, wp_bind, wp_read, wp_bind, wp_update, state_setDinode hi, wp_logWrite_state] at hWp
  exact ⟨_, hWp, rfl, rfl⟩

lemma grown (hr : Represents h ty c) (hi : h.Has i) {p : Text} {d : Dinode}
    (hg : Grows (h.state (loaded i ((h.state noTable).inode i))) i h.freeinode h' d (c i ++ p) (Needed (c i ++ p).length))
    (hMax : (c i ++ p).length ≤ 268 * 1024) (hCount : h'.freeblock = others c i + blocksFor (c i ++ p).length) :
    Represents (h'.setBlock (sb.iblock i) (Dinode.store { d with size := UInt32.ofNat (c i ++ p).length } (h'.disk (sb.iblock i))
      (i % ipb * 64))) ty (Function.update c i (c i ++ p)) := by
  have hLess := hr.lt hi
  obtain ⟨k, hk⟩ : ∃ k, k = (c i ++ p).length := ⟨_, rfl⟩
  rw [← hk] at hg hMax hCount ⊢
  have hOld : (c i).length ≤ k := by
    rw [hk, List.length_append]
    omega
  have hSize : d.size.toNat = (c i).length := by
    rw [hg.written.attr]
    exact hr.size hi
  have hNode : { (h.state (loaded i ((h.state noTable).inode i))).files i with
      size := max ((h.state (loaded i ((h.state noTable).inode i))).files i).size k
      data := fun x => (c i ++ p).getD x 0 } = fileOf (ty i) (c i ++ p) := by
    rw [show (h.state (loaded i ((h.state noTable).inode i))).files i = fileOf (ty i) (c i) from hr.file hi,
      show max (fileOf (ty i) (c i)).size k = k from max_eq_right hOld, hk]
    rfl
  have hMapped : ∀ bn, (c i).length < k → (c i).length / 1024 ≤ bn → bn * 1024 < k →
      slotAt (h'.state (loaded i d)).disk d (fileSlot bn) ≠ 0 := by
    intro bn _ _ hbn
    rw [hg.slotAt_state, hg.filled _ (fileSlot_lt (by omega))]
    exact needed_fileSlot.mpr hbn
  have hEnd := writeiEnd_spec (E := fun _ : Stop => True) (fun _ _ => trivial) (hr.load hi) (loaded_loaded h i _)
    hg.written (hr.size hi).ge hMax hMapped
    (Q := fun _ u => Alters (h.state (loaded i ((h.state noTable).inode i))) u i (fileOf (ty i) (c i ++ p)))
    fun u hu => by rwa [hNode] at hu
  obtain ⟨u, hu, hsb, hDisk⟩ := iupdate_state hLess (by omega) hEnd
  obtain ⟨h2, hh2⟩ : ∃ h2, h2 = h'.setBlock (sb.iblock i) (Dinode.store { d with size := UInt32.ofNat k } (h'.disk (sb.iblock i))
    (i % ipb * 64)) := ⟨_, rfl⟩
  rw [← hh2] at hDisk ⊢
  obtain ⟨hBlock, hOne⟩ := iblock_lt hLess
  have hMeta : sb.bmapstart < nmeta := by decide
  have hSmall : sb.bmapstart < fssize := by decide
  have hLow := hg.low
  have hOther : ∀ b, b ≠ sb.iblock i → h2.disk b = h'.disk b := by
    intro b hb
    rw [hh2]
    exact setBlock_disk_of_ne _ hb
  have hFree : h2.freeblock = h'.freeblock := by rw [hh2]; rfl
  have hInodes : h2.freeinode = h.freeinode := by rw [hh2]; exact hg.inodes
  have hHas : ∀ j, h2.Has j ↔ h.Has j := by
    intro j
    unfold Host.Has
    rw [hInodes]
  have hInode : (h2.state noTable).inode = Function.update (h.state noTable).inode i { d with size := UInt32.ofNat k } := by
    rw [hh2, ← state_setDinode hLess, FsState.inode_setDinode hLess]
    congr 1
    exact hg.written.inode
  obtain ⟨hConsistent, hFiles, -⟩ := retable (t := h2.state noTable) hsb.symm hDisk.symm rfl hu.consistent
  exact {
    len := by rw [hh2]; exact setBlock_len hg.len (by omega) _
    super := by rw [hOther 1 hOne.ne, hg.super]
    first := by rw [hInodes]; exact hr.first
    inodes := by rw [hInodes]; exact hr.inodes
    supply := by rw [hFree, hCount, sum_others hLess, others_update, update_self, hk]
    room := by rw [hFree]; exact hg.room
    zero := by
      intro b hb
      rw [hFree] at hb
      rw [hOther b (by omega)]
      exact hg.zero b hb
    consistent := hConsistent
    files := by
      intro j
      rw [hFiles, hu.files]
      simp only [hHas]
      by_cases hj : j = i
      · rw [hj, update_self, update_self, if_pos hi]
      · rw [update_of_ne hj, update_of_ne hj]
        exact hr.files j
    types := fun j hj => hr.types j ((hHas j).mp hj)
    unused := by
      intro j hj
      have hne : j ≠ i := by
        rintro rfl
        exact hj ((hHas j).mpr hi)
      rw [update_of_ne hne]
      exact hr.unused j fun hc => hj ((hHas j).mpr hc)
    filled := by
      intro j hj q hq
      have hj' := (hHas j).mp hj
      rw [hInode]
      by_cases hji : j = i
      · subst hji
        have hDir : slotAt h2.disk d q = slotAt h'.disk d q :=
          slotAt_congr (fun hInd => hOther _ (by have := (hg.indirect hInd).1; omega)) q
        have hSame : slotAt h2.disk { d with size := UInt32.ofNat k } q = slotAt h'.disk d q := (slotAt_addrs rfl q).trans hDir
        rw [update_self, update_self, hSame, ← hk, ← hg.filled q hq]
      · rw [update_of_ne hji, update_of_ne hji, ← hr.filled j hj' q hq]
        have hInd := fun hne => hr.indirect_le hj' hne
        have hOthers : slotAt (h'.state (loaded i d)).disk ((h.state noTable).inode j) q =
            slotAt (h.state noTable).disk ((h.state noTable).inode j) q := hg.written.others j q hji (hr.live hj') hq
        have hRest : slotAt h2.disk ((h.state noTable).inode j) q = slotAt h'.disk ((h.state noTable).inode j) q :=
          slotAt_congr (fun hne => hOther _ (by have := hInd hne; omega)) q
        have hState : slotAt (h'.state (loaded i d)).disk ((h.state noTable).inode j) q = slotAt h'.disk ((h.state noTable).inode j) q :=
          slotAt_congr (fun hne => state_disk (ne_bmapstart (hInd hne))) q
        rw [hRest, ← hState, hOthers, hr.slotAt_state hj'] }

end Represents

/-! ## The operations -/

lemma iappend_spec (hr : Represents h ty c) (hi : h.Has i) (p : Text)
    (hE : ¬ Room (Function.update c i (c i ++ p)) → ∀ e, E e) :
    wp (iappend i p) E (fun _ h' => Represents h' ty (Function.update c i (c i ++ p)) ∧ h'.freeinode = h.freeinode) h := by
  have hLess := hr.lt hi
  obtain ⟨hBlock, -⟩ := iblock_lt hLess
  have hSmall : sb.bmapstart < fssize ∧ fssize < 2 ^ 22 := by decide
  have hCount := hr.supply.trans (Represents.sum_others hLess c)
  have hOld : (c i).length ≤ 268 * 1024 := by
    rw [← hr.size hi]
    exact (hr.consistent.full i (hr.live hi)).1
  unfold iappend rinode
  rw [wp_bind, wp_bind, wp_rsect (by omega) hr.len]
  refine ⟨fun _ => ?_, fun hOut => absurd hOut (by omega)⟩
  rw [wp_pure, load_inode (t := noTable) hLess, hr.size hi, wp_bind]
  have hFail : (268 * 1024 < (c i ++ p).length ∨ fssize < Represents.others c i + blocksFor (c i ++ p).length) → ∀ e, E e := by
    rintro (hBig | hFull)
    · apply hE
      intro hRoom
      have := hRoom.files i
      rw [update_self] at this
      omega
    · apply hE
      intro hRoom
      have := hRoom.image
      rw [Represents.sum_others hLess, Represents.others_update, update_self] at this
      omega
  have hLoop := appendLoop_spec hFail p.length h _ (c i) p le_rfl (List.length_append.symm) hOld (hr.grows hi) hCount
  apply wp_post hLoop
  rintro ⟨d, off⟩ h1 ⟨rfl, hMax, hg, hCount1⟩
  unfold winode
  rw [wp_bind, wp_rsect (by omega) hg.len]
  refine ⟨fun _ => ?_, fun hOut => absurd hOut (by omega)⟩
  rw [wp_wsect (by omega)]
  exact ⟨hr.grown hi hg hMax hCount1, hg.inodes⟩

lemma ialloc_spec (hr : Represents h ty c) {type : UInt16} (hType : type ≠ 0) (hFree : h.freeinode < ninodes) :
    wp (ialloc type) E (fun i h' => i = h.freeinode ∧ Represents h' (Function.update ty i type) c ∧ h'.freeinode = i + 1) h := by
  obtain ⟨n, hn⟩ : ∃ n, n = h.freeinode := ⟨_, rfl⟩
  obtain ⟨d, hd⟩ : ∃ d : Dinode, d = { Dinode.zero with type := type, nlink := 1 } := ⟨_, rfl⟩
  have hLess : n < ninodes := hn ▸ hFree
  obtain ⟨hBlock, hOne⟩ := iblock_lt hLess
  have hSmall : sb.bmapstart < fssize ∧ fssize < 2 ^ 22 ∧ sb.bmapstart < nmeta := by decide
  have hNot : ¬ h.Has n := by
    unfold Host.Has
    omega
  have hClear : ∀ k < 13, d.addr k = 0 := by
    intro k hk
    rw [hd, Dinode.addr, dif_pos hk]
    rfl
  have hView := setDinode_view (s := h.state noTable) (d := d) ⟨hr.consistent, rfl, rfl, rfl⟩ (i := n) hLess
    (by rw [hr.files, if_neg hNot]; rfl) (by rw [hd]; exact hType) hClear (by rw [hd]; rfl)
  have hInode := FsState.inode_setDinode (s := h.state noTable) (i := n) (d := d) hLess
  rw [state_setDinode hLess] at hView hInode
  unfold ialloc winode
  simp only [wp_bind, wp_read, wp_update]
  rw [← hn, ← hd, wp_rsect (h := { h with freeinode := n + 1 }) (by omega) hr.len]
  refine ⟨fun _ => ?_, fun hOut => absurd hOut (by omega)⟩
  rw [wp_wsect (by omega), wp_pure]
  obtain ⟨h2, hh2⟩ : ∃ h2, h2 = ({ h with freeinode := n + 1 } : Host).setBlock (sb.iblock n)
    (d.store (h.disk (sb.iblock n)) (n % ipb * 64)) := ⟨_, rfl⟩
  have hState : h2.state noTable = (h.setBlock (sb.iblock n) (d.store (h.disk (sb.iblock n)) (n % ipb * 64))).state noTable := by
    rw [hh2]
    rfl
  rw [← hh2]
  rw [← hState] at hView hInode
  have hOther : ∀ b, b ≠ sb.iblock n → h2.disk b = h.disk b := by
    intro b hb
    rw [hh2]
    exact setBlock_disk_of_ne _ hb
  have hFree2 : h2.freeblock = h.freeblock := by rw [hh2]; rfl
  have hInodes : h2.freeinode = n + 1 := by rw [hh2]; rfl
  have hFirst := hr.first
  have hHas : ∀ j, h2.Has j ↔ h.Has j ∨ j = n := by
    intro j
    unfold Host.Has
    rw [hInodes]
    omega
  have hLow : nmeta ≤ h.freeblock := by
    rw [hr.supply]
    exact Nat.le_add_right ..
  refine ⟨rfl, ?_, hInodes⟩
  exact {
    len := by rw [hh2]; exact setBlock_len (h := { h with freeinode := n + 1 }) hr.len (by omega) _
    super := by rw [hOther 1 hOne.ne, hr.super]
    first := by omega
    inodes := by omega
    supply := by rw [hFree2, hr.supply]
    room := by rw [hFree2]; exact hr.room
    zero := by
      intro b hb
      rw [hFree2] at hb
      rw [hOther b (by omega)]
      exact hr.zero b hb
    consistent := hView.consistent
    files := by
      intro j
      rw [hView.files]
      simp only [hHas]
      by_cases hj : j = n
      · subst hj
        rw [update_self, update_self, if_pos (.inr rfl), hr.unused j hNot, hd]
        rfl
      · rw [update_of_ne hj, update_of_ne hj, hr.files]
        simp only [hj, or_false]
    types := by
      intro j hj
      by_cases hjn : j = n
      · rw [hjn, update_self]
        exact hType
      · rw [update_of_ne hjn]
        exact hr.types j (((hHas j).mp hj).resolve_right hjn)
    unused := fun j hj => hr.unused j fun hc => hj ((hHas j).mpr (.inl hc))
    filled := by
      intro j hj q hq
      rw [hInode]
      by_cases hjn : j = n
      · subst hjn
        rw [update_self, slotAt_cleared hClear, hr.unused j hNot]
        simp [Needed]
      · have hj' := ((hHas j).mp hj).resolve_right hjn
        rw [update_of_ne hjn, ← hr.filled j hj' q hq]
        have hRest : slotAt h2.disk ((h.state noTable).inode j) q = slotAt h.disk ((h.state noTable).inode j) q :=
          slotAt_congr (fun hne => hOther _ (by have := hr.indirect_le hj' hne; omega)) q
        rw [hRest] }

lemma blank_represents (hLen : h.len = fssize) (hSuper : h.disk 1 = superBlock) (hZero : ∀ b, b ≠ 1 → h.disk b = Bytes.fill 0)
    (hInodes : h.freeinode = 1) (hBlocks : h.freeblock = nmeta) : Represents h (fun _ => 0) fun _ => [] := by
  have hRoom : h.freeblock ≤ fssize := by
    rw [hBlocks]
    decide
  have hType : ∀ i < ninodes, ((h.state noTable).inode i).type = 0 := by
    intro i hi
    obtain ⟨-, hOne⟩ := iblock_lt hi
    rw [← load_inode hi, hZero _ hOne.ne']
    simp [Dinode.load]
  have hNot : ∀ i, ¬ (h.state noTable).Live (h.state noTable).inode i := fun i hLive => hLive.2 (hType i hLive.1)
  have hPlace : ∀ p, (h.state noTable).place (h.state noTable).inode none p = none := by
    rintro (_ | ⟨i, q⟩)
    · rfl
    · exact FsState.place_none_iff.mpr fun hLive => absurd hLive (hNot i)
  have hHas : ∀ i, ¬ h.Has i := by
    unfold Host.Has
    omega
  have hNoRef : ∀ ip, ¬ 0 < ((h.state noTable).itable ip).ref := fun _ => lt_irrefl _
  exact {
    len := hLen
    super := hSuper
    first := by omega
    inodes := by rw [hInodes]; decide
    supply := by simp [hBlocks, blocksFor]
    room := hRoom
    zero := by
      intro b hb
      have : 1 < nmeta := by decide
      exact hZero b (by omega)
    consistent := {
      ok := sb_ok
      owned := by
        refine ⟨⟨fun hp => ?_, fun b => ⟨fun hUsed => ?_, fun ⟨p, hp⟩ => ?_⟩⟩, fun b hb => ?_⟩
        · rw [hPlace] at hp
          cases hp
        · obtain ⟨hLow, hHigh, hBit⟩ := hUsed
          rw [state_bit hRoom hHigh, hBlocks] at hBit
          have hLess := of_decide_eq_true hBit
          have hLow' : nmeta ≤ b := sb_nmeta.symm.trans_le hLow
          omega
        · rw [hPlace] at hp
          cases hp
        · have hLess : b < nmeta := hb.trans_eq sb_nmeta
          have hFits : nmeta ≤ fssize := by decide
          rw [state_bit hRoom (by omega), hBlocks]
          exact decide_eq_true hLess
      full := fun i hLive => absurd hLive (hNot i)
      table := ⟨fun _ => le_rfl, fun ip hRef => absurd hRef (hNoRef ip), fun ip hRef => absurd hRef (hNoRef ip),
        fun ip _ hRef => absurd hRef (hNoRef ip)⟩
      cached := fun ip hRef => absurd hRef (hNoRef ip) }
    files := by
      intro i
      rw [if_neg (hHas i)]
      exact if_neg (hNot i)
    types := fun i hi => absurd hi (hHas i)
    unused := fun _ _ => rfl
    filled := fun i hi => absurd hi (hHas i) }

lemma format_spec : wp format E (fun _ h => Represents h (fun _ => 0) (fun _ => []) ∧ h.freeinode = 1) blank := by
  have hSmall : fssize < 2 ^ 22 ∧ 1 < fssize := by decide
  unfold format
  rw [wp_bind, wp_update]
  apply wp_call (R := fun _ h => h.len = fssize ∧ (∀ b, h.disk b = Bytes.fill 0) ∧ h.freeinode = 1 ∧ h.freeblock = nmeta)
  · -- the sectors up to the length of the file have been written
    apply wp_post (wp_eachM (I := fun l h => l = List.range' h.len (fssize - h.len) ∧ h.len ≤ fssize ∧
      (∀ b, h.disk b = Bytes.fill 0) ∧ h.freeinode = 1 ∧ h.freeblock = nmeta) ?_ _ _ ?_)
    · grind
    · rintro b l h ⟨hList, hLe, hDisk, hCounters⟩
      have hPos : h.len < fssize := by
        grind [List.length_cons, List.length_range']
      obtain ⟨k, hk⟩ : ∃ k, fssize - h.len = k + 1 := ⟨fssize - h.len - 1, by omega⟩
      rw [hk, List.range'_succ] at hList
      obtain ⟨rfl, rfl⟩ := List.cons.inj hList
      rw [wp_wsect (by omega)]
      have hLen : (h.setBlock h.len (Bytes.fill 0)).len = h.len + 1 := max_eq_right (Nat.le_succ _)
      refine ⟨?_, by omega, fun b => ?_, hCounters⟩
      · rw [hLen, show fssize - (h.len + 1) = k by omega]
      · by_cases hb : b = h.len
        · rw [hb, setBlock_disk_same]
        · rw [setBlock_disk_of_ne _ hb, hDisk]
    · refine ⟨?_, Nat.zero_le _, fun _ => rfl, rfl, rfl⟩
      exact List.range_eq_range'
  · rintro _ h ⟨hLen, hDisk, hInodes, hBlocks⟩
    rw [wp_wsect (by omega)]
    refine ⟨blank_represents (setBlock_len hLen hSmall.2 _) (setBlock_disk_same ..) (fun b hb => ?_) hInodes hBlocks, hInodes⟩
    rw [setBlock_disk_of_ne _ hb, hDisk]

/-! ## Sequences of operations -/

inductive Op where
  | ialloc (type : UInt16)
  | iappend (inum : Nat) (p : Text)

def Op.run : Op → HostM Unit
  | .ialloc type => do
    let _ ← Mkfs.ialloc type
    return ()
  | .iappend inum p => Mkfs.iappend inum p

/-- An image made by `ops`. -/
def build (ops : List Op) : HostM Unit := do
  format
  Prog.eachM Op.run ops

/-- The chunks that go to inode `i`, one after the other. -/
def contents (ops : List Op) (i : Nat) : Text :=
  ops.flatMap fun
    | .iappend j p => if j = i then p else []
    | .ialloc _ => []

def Op.allocs : Op → Bool
  | .ialloc _ => true
  | .iappend _ _ => false

def allocated (ops : List Op) : Nat := ops.countP Op.allocs

/-- From the next free inode `n` on, types are not 0 and `iappend` works on inodes that exist. -/
def Valid : (n : Nat) → List Op → Prop
  | _, [] => True
  | n, .ialloc type :: ops => type ≠ 0 ∧ Valid (n + 1) ops
  | n, .iappend i _ :: ops => (0 < i ∧ i < n) ∧ Valid n ops

lemma run_spec : ∀ {ops : List Op} {h : Host} {ty : Nat → UInt16} {c : Nat → Text}, Represents h ty c →
    Valid h.freeinode ops → h.freeinode + allocated ops ≤ ninodes → (¬ Room (fun i => c i ++ contents ops i) → ∀ e, E e) →
    wp (Prog.eachM Op.run ops) E (fun _ h' => (∃ ty', Represents h' ty' fun i => c i ++ contents ops i) ∧
      h'.freeinode = h.freeinode + allocated ops) h
  | [], h, ty, c, hr, _, _, _ => by
    refine (wp_ret _).mpr ⟨⟨ty, ?_⟩, rfl⟩
    simpa [contents] using hr
  | .ialloc type :: ops, h, ty, c, hr, hValid, hInodes, hE => by
    have hCount : allocated (.ialloc type :: ops) = allocated ops + 1 := List.countP_cons_of_pos rfl
    have hSame : contents (.ialloc type :: ops) = contents ops := rfl
    rw [hCount] at hInodes
    rw [hSame] at hE
    apply wp_call (R := fun _ h' => (∃ ty', Represents h' ty' c) ∧ h'.freeinode = h.freeinode + 1)
    · apply wp_call (ialloc_spec hr hValid.1 (by omega))
      rintro _ h' ⟨rfl, hr', hNext⟩
      exact wp_val ⟨⟨_, hr'⟩, hNext⟩
    · rintro _ h' ⟨⟨ty', hr'⟩, hNext⟩
      apply wp_post (run_spec hr' (by rw [hNext]; exact hValid.2) (by omega) hE)
      rintro _ h2 ⟨hr2, hNext2⟩
      rw [hSame, hCount]
      exact ⟨hr2, by omega⟩
  | .iappend i p :: ops, h, ty, c, hr, hValid, hInodes, hE => by
    have hCount : allocated (.iappend i p :: ops) = allocated ops := List.countP_cons_of_neg (by simp [Op.allocs])
    have hSame : (fun j => Function.update c i (c i ++ p) j ++ contents ops j) = fun j => c j ++ contents (.iappend i p :: ops) j := by
      funext j
      by_cases hj : j = i
      · subst hj
        simp [contents]
      · simp [contents, hj, Ne.symm hj]
    rw [hCount] at hInodes
    rw [← hSame] at hE
    have hStep := iappend_spec (E := E) hr hValid.1 p fun hFull => hE fun hRoom => hFull (hRoom.mono fun j => by
      rw [List.length_append]
      exact Nat.le_add_right ..)
    apply wp_call hStep
    rintro _ h' ⟨hr', hNext⟩
    apply wp_post (run_spec hr' (by rw [hNext]; exact hValid.2) (by omega) hE)
    rintro _ h2 ⟨hr2, hNext2⟩
    rw [hCount, ← hSame]
    exact ⟨hr2, by omega⟩

lemma build_spec {ops : List Op} (hValid : Valid 1 ops) (hInodes : allocated ops < ninodes)
    (hE : ¬ Room (contents ops) → ∀ e, E e) :
    wp (build ops) E (fun _ h => (∃ ty, Represents h ty (contents ops)) ∧ h.freeinode = 1 + allocated ops) blank := by
  unfold build
  apply wp_call format_spec
  rintro _ h ⟨hr, hFirst⟩
  have hRun := run_spec (E := E) hr (hFirst.symm ▸ hValid) (by omega) hE
  rw [hFirst] at hRun
  exact hRun

/-! ## Reading the image -/

structure Serves (h : Host) (s : FsState) (ip : Ip) (i : Nat) : Prop where
  disk : s.disk = h.disk
  sb : s.sb = loadSuper (h.disk 1)
  inum : (s.itable ip).inum = i
  di : (s.itable ip).di = s.dinode i

def Reads (h : Host) (i : Nat) (l : Text) : Prop :=
  ∀ s ip, Serves h s ip i → ∀ off n, off + n < 2 ^ 32 →
    readi ip (fun _ _ => true) off n s = .ok (((((l.drop off).take n).length : Int), (l.drop off).take n), s)

lemma loadSuper_superBlock : loadSuper superBlock = sb := by decide +kernel

lemma slice_fileOf (type : UInt16) (l : Text) (off n : Nat) :
    (fileOf type l).slice off (min n (l.length - off)) = (l.drop off).take n := by
  apply List.ext_getElem
  · rw [Node.length_slice, List.length_take, List.length_drop]
  · intro k hk _
    rw [Node.length_slice] at hk
    simp only [Node.slice, fileOf, List.getElem_map, List.getElem_range, List.getElem_take, List.getElem_drop]
    exact List.getD_eq_getElem _ _ (by omega)

namespace Represents

lemma serves_inode (hr : Represents h ty c) (hi : h.Has i) {s : FsState} {ip : Ip} (hs : Serves h s ip i) :
    (s.itable ip).di = (h.state noTable).inode i := by
  have hsb : s.sb = sb := by rw [hs.sb, hr.super, loadSuper_superBlock]
  rw [hs.di, FsState.dinode, hs.disk, hsb, load_inode (hr.lt hi)]

lemma whole (hr : Represents h ty c) (hi : h.Has i) : ((h.state noTable).inode i).Whole h.disk := by
  obtain ⟨hMax, -⟩ := hr.consistent.full i (hr.live hi)
  refine ⟨hMax, fun bn hbn => ?_⟩
  rw [hr.filled i hi _ (fileSlot_lt (by omega)), ← hr.size hi]
  exact needed_fileSlot.mpr hbn

lemma node_disk (hr : Represents h ty c) (hi : h.Has i) : ((h.state noTable).inode i).node h.disk = fileOf (ty i) (c i) := by
  rw [← hr.node hi]
  apply FsState.node_congr (s := h.state noTable) (t := { h.state noTable with disk := h.disk }) (hr.live hi)
  intro q b hp
  have hLow := (hr.consistent.used hp).1
  exact (state_disk (ne_bmapstart (sb_nmeta.symm.trans_le hLow))).symm

lemma reads (hr : Represents h ty c) (hi : h.Has i) : Reads h i (c i) := by
  intro s ip hs off n hWord
  have hRead := readi_whole (E := fun _ => False) (hr.serves_inode hi hs) (by rw [hs.disk]; exact hr.whole hi) (fun _ _ => true) off n
  rw [hs.disk, hr.node_disk hi] at hRead
  obtain ⟨r, t, hRun, rfl, hr⟩ := wp_total hRead
  rw [hRun]
  rcases hr with ⟨-, k, l, hFalse⟩ | rfl
  · cases hFalse
  · have hFound : (fileOf (ty i) (c i)).found off n = min n ((c i).length - off) := by
      unfold Node.found
      rw [show (fileOf (ty i) (c i)).size = (c i).length from rfl, Nat.mod_eq_of_lt hWord]
      split <;> omega
    rw [hFound, slice_fileOf, List.length_take, List.length_drop]

end Represents

/-- With enough inodes and blocks any sequence of `ialloc` and `iappend` succeeds. Every inode has
the size of what has been appended to it, the kernel reads exactly these bytes, as long as the end
of the range fits a `uint`, and a further append to another inode does not change what it reads. -/
theorem appended_reads {ops : List Op} (hValid : Valid 1 ops) (hInodes : allocated ops < ninodes) (hRoom : Room (contents ops)) :
    ∃ h, build ops blank = .ok ((), h) ∧ ∀ i, 0 < i → i ≤ allocated ops →
      (Dinode.load (h.disk (sb.iblock i)) (i % ipb * 64)).size.toNat = (contents ops i).length ∧
      Reads h i (contents ops i) ∧
      ∀ j p h', 0 < j → j ≤ allocated ops → j ≠ i → iappend j p h = .ok ((), h') → Reads h' i (contents ops i) := by
  obtain ⟨_, h, hRun, ⟨ty, hr⟩, hFree⟩ := wp_total (build_spec (E := fun _ => False) hValid hInodes fun hFull => absurd hRoom hFull)
  refine ⟨h, hRun, fun i hPos hLe => ?_⟩
  have hi : h.Has i := ⟨hPos, by omega⟩
  refine ⟨?_, hr.reads hi, ?_⟩
  · rw [load_inode (t := noTable) (hr.lt hi), hr.size hi]
  · intro j p h' hjPos hjLe hne hAppend
    have hj : h.Has j := ⟨hjPos, by omega⟩
    obtain ⟨hr', hFree'⟩ := wp_ok (iappend_spec (E := fun _ => True) hr hj p fun _ _ => trivial) hAppend
    have hi' : h'.Has i := ⟨hPos, by omega⟩
    have hReads := hr'.reads hi'
    rwa [update_of_ne hne.symm] at hReads

def twoFiles : List Op := [.ialloc tFile, .iappend 1 [7, 8], .ialloc tFile, .iappend 2 [9], .iappend 1 [1]]

lemma twoFiles_room : Room (contents twoFiles) where
  files := by
    intro i
    simp only [contents, twoFiles, List.flatMap_cons, List.flatMap_nil]
    split_ifs <;> simp
  image := by decide +kernel

theorem appended_reads_twoFiles : ∃ h, build twoFiles blank = .ok ((), h) ∧ Reads h 1 [7, 8, 1] ∧ Reads h 2 [9] := by
  have hValid : Valid 1 twoFiles := by simp [twoFiles, Valid, tFile]
  obtain ⟨h, hRun, hReads⟩ := appended_reads hValid (by decide) twoFiles_room
  exact ⟨h, hRun, (hReads 1 (by decide) (by decide)).2.1, (hReads 2 (by decide) (by decide)).2.1⟩

/-- A range whose end does not fit a `uint` reads as empty, although the file goes on. -/
theorem readi_wraps : ∃ ops h s ip, Valid 1 ops ∧ allocated ops < ninodes ∧ Room (contents ops) ∧ build ops blank = .ok ((), h) ∧
    Serves h s ip 1 ∧ readi ip (fun _ _ => true) 1 (2 ^ 32 - 1) s = .ok ((0, []), s) ∧
    ((contents ops 1).drop 1).take (2 ^ 32 - 1) = [8, 1] := by
  have hValid : Valid 1 twoFiles := by simp [twoFiles, Valid, tFile]
  obtain ⟨_, h, hRun, -⟩ := wp_total (build_spec (E := fun _ => False) hValid (by decide) fun hFull => absurd twoFiles_room hFull)
  obtain ⟨d, hd⟩ : ∃ d, d = Dinode.load (h.disk ((loadSuper (h.disk 1)).iblock 1)) (1 % ipb * 64) := ⟨_, rfl⟩
  refine ⟨twoFiles, h, ⟨loadSuper (h.disk 1), h.disk, 0, [], fun _ => ⟨rootdev, 1, 1, true, true, d⟩⟩, ip0, hValid, by decide,
    twoFiles_room, hRun, ⟨rfl, rfl, rfl, hd⟩, ?_, by decide⟩
  unfold readi
  change (if _ then _ else _ : FsM (Int × Text)) _ = _
  rw [if_pos (.inr (by decide))]
  rfl

end Xv6K230.Mkfs
