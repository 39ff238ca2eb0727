import Xv6K230.Fs.Transfer

/-! # The image builder

`mkfs.c`, and `iappend` seen through the invariant of the kernel's file system.
-/

namespace Xv6K230.Mkfs

open Function (update_self)
open Fs

def fssize : Nat := 2000
def ninodes : Nat := 200
def nbitmap : Nat := fssize / bpb + 1
def ninodeblocks : Nat := ninodes / ipb + 1
def nlog : Nat := logblocks + 1
def nmeta : Nat := 2 + nlog + ninodeblocks + nbitmap
def fsmagic : Nat := 0x10203040

def sb : Superblock where
  size := fssize
  ninodes := ninodes
  nlog := nlog
  logstart := 2
  inodestart := 2 + nlog
  bmapstart := 2 + nlog + ninodeblocks

/-- The image file, with its length in sectors, and the two counters. -/
structure Host where
  len : Nat
  disk : Nat → Block
  freeinode : Nat
  freeblock : Nat

inductive Exit where
  | die
  | assert
  deriving DecidableEq

abbrev HostM : Type → Type := Prog Exit Host

/-- The sector at which `lseek` to `sec * BSIZE` ends up; the product is a `uint`. -/
def sector (sec : Nat) : Nat := sec * bsize % 2 ^ 32 / bsize

def Host.setBlock (h : Host) (b : Nat) (buf : Block) : Host :=
  { h with len := max h.len (b + 1), disk := fun c => if c = b then buf else h.disk c }

def wsect (sec : Nat) (buf : Block) : HostM Unit := Prog.update fun h => h.setBlock (sector sec) buf

def rsect (sec : Nat) : HostM Block := do
  let h ← Prog.read id
  if sector sec < h.len then return h.disk (sector sec) else Prog.stop .die

def winode (inum : Nat) (ip : Dinode) : HostM Unit := do
  let buf ← rsect (sb.iblock inum)
  wsect (sb.iblock inum) (ip.store buf (inum % ipb * 64))

def rinode (inum : Nat) : HostM Dinode := do
  let buf ← rsect (sb.iblock inum)
  return Dinode.load buf (inum % ipb * 64)

def ialloc (type : UInt16) : HostM Nat := do
  let inum ← Prog.read Host.freeinode
  Prog.update fun h => { h with freeinode := inum + 1 }
  winode inum { Dinode.zero with type := type, nlink := 1 }
  return inum

/-- The bitmap block in which the first `used` blocks are marked. -/
def bitmap (used : Nat) : Block := (List.range used).foldl (fun buf i => buf.setBit i) (Bytes.fill 0)

def balloc (used : Nat) : HostM Unit := if used < bpb then wsect sb.bmapstart (bitmap used) else Prog.stop .assert

/-- `freeblock++` -/
def nextBlock : HostM Nat := do
  let b ← Prog.read Host.freeblock
  Prog.update fun h => { h with freeblock := b + 1 }
  return b

/-- The part of the loop of `iappend` that finds block `fbn` of the file. -/
def appendBlock (din : Dinode) (fbn : Nat) : HostM (Dinode × Nat) := do
  if fbn < ndirect then
    if din.addr fbn = 0 then
      let b ← nextBlock
      return (din.setAddr fbn b, (din.setAddr fbn b).addr fbn)
    else
      return (din, din.addr fbn)
  else
    let din ← if din.addr ndirect = 0 then do
        let b ← nextBlock
        pure (din.setAddr ndirect b)
      else pure din
    let indirect ← rsect (din.addr ndirect)
    if indirect.getLE (4 * (fbn - ndirect)) 4 = 0 then
      let b ← nextBlock
      let indirect := indirect.putLE (4 * (fbn - ndirect)) 4 b
      wsect (din.addr ndirect) indirect
      return (din, indirect.getLE (4 * (fbn - ndirect)) 4)
    else
      return (din, indirect.getLE (4 * (fbn - ndirect)) 4)

/-- The loop of `iappend`, with the bytes that are left. -/
def appendLoop : (fuel : Nat) → Dinode → (off : Nat) → Text → HostM (Dinode × Nat)
  | 0, din, off, _ => return (din, off)
  | fuel + 1, din, off, p =>
    if 0 < p.length then do
      let fbn := off / bsize
      if fbn < maxfile then
        let (din, x) ← appendBlock din fbn
        let n1 := min p.length ((fbn + 1) * bsize - off)
        let buf ← rsect x
        wsect x (buf.write (off - fbn * bsize) (p.take n1))
        appendLoop fuel din (off + n1) (p.drop n1)
      else
        Prog.stop .assert
    else
      return (din, off)

def iappend (inum : Nat) (p : Text) : HostM Unit := do
  let din ← rinode inum
  let (din, off) ← appendLoop p.length din din.size.toNat p
  winode inum { din with size := UInt32.ofNat off }

/-! ## The program -/

/-- The 32-bit words of the superblock, in the order of `struct superblock`. -/
def superWords : Nat → Nat
  | 0 => fsmagic
  | 1 => sb.size
  | 2 => fssize - nmeta
  | 3 => sb.ninodes
  | 4 => sb.nlog
  | 5 => sb.logstart
  | 6 => sb.inodestart
  | 7 => sb.bmapstart
  | _ => 0

def superBlock : Block := (Bytes.fill 0).putWords 0 superWords 8

/-- The superblock that the kernel's `readsb` finds in a block. -/
def loadSuper (b : Block) : Superblock where
  size := b.getLE 4 4
  ninodes := b.getLE 12 4
  nlog := b.getLE 16 4
  logstart := b.getLE 20 4
  inodestart := b.getLE 24 4
  bmapstart := b.getLE 28 4

/-- The start of `main`, up to the first inode. -/
def format : HostM Unit := do
  Prog.update fun h => { h with freeblock := nmeta }
  Prog.eachM (fun i => wsect i (Bytes.fill 0)) (List.range fssize)
  wsect 1 superBlock

/-- A file named on the command line and what the calls of `read` on it deliver. -/
structure Input where
  arg : Text
  reads : List Text

def Input.base (f : Input) : Text := if [117, 115, 101, 114, 47].isPrefixOf f.arg then f.arg.drop 5 else f.arg

def Input.shortname (f : Input) : Text := if f.base.head? = some 95 then f.base.drop 1 else f.base

def addFile (root : Nat) (f : Input) : HostM Unit := do
  if 47 ∈ f.base then
    Prog.stop .assert
  else if dirsiz < f.shortname.length then
    Prog.stop .assert
  else
    let inum ← ialloc tFile
    iappend root (Dirent.toBytes ⟨UInt16.ofNat inum, f.shortname⟩)
    Prog.eachM (iappend inum) f.reads

def fixRoot (root : Nat) : HostM Unit := do
  let din ← rinode root
  winode root { din with size := UInt32.ofNat ((din.size.toNat / bsize + 1) * bsize) }

/-- `main` with the files that follow the name of the image on the command line. -/
def main (files : List Input) : HostM Unit := do
  format
  let root ← ialloc tDir
  if root ≠ rootino then
    Prog.stop .assert
  else
    iappend root (Dirent.toBytes ⟨UInt16.ofNat root, [46]⟩)
    iappend root (Dirent.toBytes ⟨UInt16.ofNat root, [46, 46]⟩)
    Prog.eachM (addFile root) files
    fixRoot root
    let used ← Prog.read Host.freeblock
    balloc used

/-- The image file as `open` with `O_TRUNC` leaves it. -/
def blank : Host := ⟨0, fun _ => Bytes.fill 0, 1, 0⟩

open Prog

variable {E : Exit → Prop} {h h' : Host} {i k b sec : Nat} {d : Dinode}

/-! ## Sectors -/

lemma sector_eq (hs : sec < 2 ^ 22) : sector sec = sec := by
  unfold sector bsize
  omega

lemma wp_rsect (hs : sec < 2 ^ 22) (hLen : h.len = fssize) {Q : Block → Host → Prop} :
    wp (rsect sec) E Q h ↔ (sec < fssize → Q (h.disk sec) h) ∧ (fssize ≤ sec → E .die) := by
  unfold rsect
  rw [wp_bind, wp_read, wp_ite, wp_pure, wp_stop, id, sector_eq hs, hLen, not_lt]

lemma wp_wsect (hs : sec < 2 ^ 22) (buf : Block) {Q : Unit → Host → Prop} :
    wp (wsect sec buf) E Q h ↔ Q () (h.setBlock sec buf) := by
  unfold wsect
  rw [wp_update, sector_eq hs]

lemma setBlock_len (hLen : h.len = fssize) (hb : b < fssize) (x : Block) : (h.setBlock b x).len = fssize := by
  change max h.len (b + 1) = fssize
  omega

lemma setBlock_disk_same (b : Nat) (x : Block) : (h.setBlock b x).disk b = x := if_pos rfl

lemma setBlock_disk_of_ne {c : Nat} (x : Block) (hc : c ≠ b) : (h.setBlock b x).disk c = h.disk c := if_neg hc

lemma wp_nextBlock {Q : Nat → Host → Prop} :
    wp nextBlock E Q h ↔ Q h.freeblock { h with freeblock := h.freeblock + 1 } := by
  unfold nextBlock
  rw [wp_bind, wp_read, wp_bind, wp_update, wp_pure]

/-! ## The state as the kernel sees it -/

lemma getBit_bitmap {n : Nat} (hn : n ≤ 8192) (j : Nat) : (bitmap n).getBit j = decide (j < n) := by
  induction n with
  | zero => simp [bitmap, Bytes.getBit]
  | succ n ih =>
    have hStep : bitmap (n + 1) = (bitmap n).setBit n := by
      unfold bitmap
      rw [List.range_succ, List.foldl_append, List.foldl_cons, List.foldl_nil]
    rw [hStep, Bytes.getBit_setBit _ (by omega), ih (by omega), ← Bool.decide_or, decide_eq_decide]
    omega

def noTable : Ip → Inode := fun _ => ⟨0, 0, 0, false, false, Dinode.zero⟩

/-- The table with inode `i`, of which `d` is the copy. -/
def loaded (i : Nat) (d : Dinode) : Ip → Inode := Function.update noTable ip0 ⟨rootdev, i, 1, false, true, d⟩

def Host.state (h : Host) (t : Ip → Inode) : FsState where
  sb := sb
  disk := fun c => if c = sb.bmapstart then bitmap h.freeblock else h.disk c
  outstanding := 1
  lh := []
  itable := t

lemma sb_nmeta : sb.nmeta = nmeta := by decide

lemma sb_ok : sb.Ok := ⟨by decide, by decide, by decide, by decide, by decide⟩

lemma state_disk {t : Ip → Inode} (hb : b ≠ sb.bmapstart) : (h.state t).disk b = h.disk b := if_neg hb

lemma state_bitmap (h : Host) (t : Ip → Inode) : (h.state t).disk sb.bmapstart = bitmap h.freeblock := by simp [Host.state]

lemma ne_bmapstart (hb : nmeta ≤ b) : b ≠ sb.bmapstart := by
  have : sb.bmapstart < nmeta := by decide
  omega

lemma ne_one (hb : nmeta ≤ b) : 1 ≠ b := by
  have : 1 < nmeta := by decide
  omega

lemma state_bit {t : Ip → Inode} (hRoom : h.freeblock ≤ fssize) (hb : b < fssize) :
    (h.state t).bit b = decide (b < h.freeblock) := by
  have hDiv : b / bpb = 0 := Nat.div_eq_of_lt (hb.trans (by decide))
  have hMod : b % bpb = b := Nat.mod_eq_of_lt (hb.trans (by decide))
  have hBlock : (h.state t).sb.bblock b = sb.bmapstart := by
    change b / bpb + sb.bmapstart = _
    rw [hDiv, Nat.zero_add]
  unfold FsState.bit
  rw [hBlock, hMod, state_bitmap, getBit_bitmap (hRoom.trans (by decide))]

lemma loaded_loaded (h : Host) (i : Nat) (d : Dinode) : Loaded (h.state (loaded i d)) ip0 i := by
  have hAt : loaded i d ip0 = ⟨rootdev, i, 1, false, true, d⟩ := update_self ..
  exact ⟨by simp [Host.state, hAt], by simp [Host.state, hAt], by simp [Host.state, hAt]⟩

lemma state_setDi (d' : Dinode) : (h.state (loaded i d)).setDi ip0 d' = h.state (loaded i d') := by
  unfold FsState.setDi FsState.setInode Host.state loaded
  congr 1
  funext jp
  by_cases hj : jp = ip0
  · simp [hj]
  · simp [hj]

lemma state_setBlock {t : Ip → Inode} (hb : b ≠ sb.bmapstart) (x : Block) :
    (h.state t).setBlock b x = (h.setBlock b x).state t := by
  unfold FsState.setBlock Host.state Host.setBlock
  congr 1
  funext c
  by_cases hc : c = b
  · simp [hc, hb]
  · simp [hc]

lemma nextBlock_granted (hLow : nmeta ≤ h.freeblock) (hHigh : h.freeblock < fssize)
    (hZero : h.disk h.freeblock = Bytes.fill 0) (t : Ip → Inode) :
    Granted (h.state t) (({ h with freeblock := h.freeblock + 1 } : Host).state t) h.freeblock where
  low := sb_nmeta.trans_le hLow
  high := hHigh
  fresh := by rw [state_bit hHigh.le hHigh, decide_eq_false (lt_irrefl _)]
  zeroed := (state_disk (ne_bmapstart hLow)).trans hZero
  bits := by
    intro c hc
    rw [state_bit (Nat.succ_le_of_lt hHigh) hc, state_bit hHigh.le hc, ← Bool.decide_or, decide_eq_decide]
    change c < h.freeblock + 1 ↔ _
    omega
  rest := by
    intro c _ hc
    have hne : c ≠ sb.bmapstart := by
      rcases hc with hc | hc
      · exact hc.ne
      · exact ne_bmapstart (sb_nmeta.symm.trans_le hc)
    rw [state_disk hne, state_disk hne]

/-! ## Blocks and sizes -/

def Needed (sz q : Nat) : Prop :=
  (q < 12 ∧ q * 1024 < sz) ∨ (q = 12 ∧ 12 * 1024 < sz) ∨ (12 < q ∧ (q - 1) * 1024 < sz)

/-- How many blocks a file of `sz` bytes takes, with the indirect block. -/
def blocksFor (sz : Nat) : Nat := (sz + 1023) / 1024 + if 12 * 1024 < sz then 1 else 0

/-- `iappend` on inode `i` of state `s`, when `n` is the next free inode: the copy of the inode is
`d`, the file has the bytes `bytes`, and the slots `N` of the inode are filled. -/
structure Grows (s : FsState) (i n : Nat) (h : Host) (d : Dinode) (bytes : Text) (N : Nat → Prop) : Prop where
  len : h.len = fssize
  inodes : h.freeinode = n
  super : h.disk 1 = superBlock
  low : nmeta ≤ h.freeblock
  room : h.freeblock ≤ fssize
  zero : ∀ b, h.freeblock ≤ b → h.disk b = Bytes.fill 0
  written : Written s.inode ip0 i s (h.state (loaded i d)) d fun x => bytes.getD x 0
  filled : ∀ q < nslots, slotAt h.disk d q ≠ 0 ↔ N q

namespace Grows

variable {s : FsState} {n : Nat} {bytes : Text} {N N' : Nat → Prop}

lemma congr (hg : Grows s i n h d bytes N) (hN : ∀ q < nslots, N q ↔ N' q) : Grows s i n h d bytes N' :=
  { hg with filled := fun q hq => (hg.filled q hq).trans (hN q hq) }

lemma live (hg : Grows s i n h d bytes N) : (h.state (loaded i d)).Live (Function.update s.inode i d) i :=
  hg.written.intact.live (loaded_loaded h i d)

lemma used (hg : Grows s i n h d bytes N) {q : Nat} (hq : q < nslots) (hAt : slotAt (h.state (loaded i d)).disk d q = b) (hb : b ≠ 0) :
    nmeta ≤ b ∧ b < h.freeblock := by
  have hUsed := hg.written.intact.used (FsState.place_some_iff.mpr
    ⟨hg.live, hq, by rwa [update_self], hb⟩)
  obtain ⟨hLow, hHigh, hBit⟩ := hUsed
  rw [state_bit hg.room hHigh] at hBit
  exact ⟨sb_nmeta.symm.trans_le hLow, of_decide_eq_true hBit⟩

lemma indirect (hg : Grows s i n h d bytes N) (hInd : d.addr 12 ≠ 0) : nmeta ≤ d.addr 12 ∧ d.addr 12 < h.freeblock :=
  hg.used (q := 12) (by decide) rfl hInd

lemma slotAt_state (hg : Grows s i n h d bytes N) (q : Nat) : slotAt (h.state (loaded i d)).disk d q = slotAt h.disk d q := by
  apply slotAt_congr
  intro hInd
  exact state_disk (ne_bmapstart (hg.indirect hInd).1)

lemma slot_used (hg : Grows s i n h d bytes N) {q : Nat} (hq : q < nslots) (hne : slotAt h.disk d q ≠ 0) :
    nmeta ≤ slotAt h.disk d q ∧ slotAt h.disk d q < h.freeblock :=
  hg.used hq (hg.slotAt_state q) hne

lemma data (hg : Grows s i n h d bytes N) :
    ((h.state (loaded i d)).nodes (Function.update s.inode i d) i).data = fun x => bytes.getD x 0 := by
  rw [hg.written.nodes, update_self]

lemma addr (hg : Grows s i n h d bytes N) (hk : k < 13) (hEmpty : d.addr k = 0) (hRoom : h.freeblock < fssize) :
    Grows s i n { h with freeblock := h.freeblock + 1 } (d.setAddr k h.freeblock) bytes fun q => N q ∨ q = k := by
  have hd : Function.update s.inode i d i = d := update_self ..
  have hZero := hg.zero h.freeblock le_rfl
  have hWord : h.freeblock < 2 ^ 32 := hRoom.trans (by decide)
  have hGranted := nextBlock_granted hg.low hRoom hZero (loaded i d)
  have hMapped := hg.written.intact.attachAddr (loaded_loaded h i d) (k := k)
    (t := ({ h with freeblock := h.freeblock + 1 } : Host).state (loaded i d)) ⟨rfl, rfl⟩ hGranted hk (by rwa [hd])
  rw [hd, state_setDi] at hMapped
  have hWritten := hg.written.trans (.of_mapped hMapped)
  rw [hg.data] at hWritten
  refine ⟨hg.len, hg.inodes, hg.super, hg.low.trans (Nat.le_succ _), hRoom, fun c hc => hg.zero c (Nat.le_of_succ_le hc), hWritten, ?_⟩
  intro q hq
  change slotAt h.disk (d.setAddr k h.freeblock) q ≠ 0 ↔ _
  rw [slotAt_setAddr hk hWord fun hk12 => ⟨by rw [← hk12]; exact hEmpty, hZero⟩]
  have hne : h.freeblock ≠ 0 := by
    have := hg.low
    have : 0 < nmeta := by decide
    omega
  by_cases hqk : q = k
  · simp [hqk, hne]
  · rw [if_neg hqk, hg.filled q hq]
    simp [hqk]

lemma slotAt_entry (hg : Grows s i n h d bytes N) (hInd : d.addr 12 ≠ 0) {j q : Nat} (hj : j < 256) :
    slotAt (({ h with freeblock := h.freeblock + 1 } : Host).setBlock (d.addr 12)
      ((h.disk (d.addr 12)).putLE (4 * j) 4 h.freeblock)).disk d q = if q = 13 + j then h.freeblock else slotAt h.disk d q := by
  have hDisk : (({ h with freeblock := h.freeblock + 1 } : Host).setBlock (d.addr 12)
      ((h.disk (d.addr 12)).putLE (4 * j) 4 h.freeblock)).disk =
      fun c => if c = d.addr 12 then (h.disk c).putLE (4 * j) 4 h.freeblock else h.disk c := by
    funext c
    by_cases hc : c = d.addr 12 <;> simp [Host.setBlock, hc]
  rw [hDisk, slotAt_putLE hj (hg.room.trans_lt (by decide)) hInd]

lemma entry (hg : Grows s i n h d bytes N) (hInd : d.addr 12 ≠ 0) {j : Nat} (hj : j < 256) (hEmpty : slotAt h.disk d (13 + j) = 0)
    (hRoom : h.freeblock < fssize) :
    Grows s i n (({ h with freeblock := h.freeblock + 1 } : Host).setBlock (d.addr 12) ((h.disk (d.addr 12)).putLE (4 * j) 4 h.freeblock))
      d bytes fun q => N q ∨ q = 13 + j := by
  have hd : Function.update s.inode i d i = d := update_self ..
  obtain ⟨hIndLow, hIndHigh⟩ := hg.indirect hInd
  have hGranted := nextBlock_granted hg.low hRoom (hg.zero h.freeblock le_rfl) (loaded i d)
  obtain ⟨hMapped, -⟩ := hg.written.intact.attachEntry (loaded_loaded h i d)
    (t := ({ h with freeblock := h.freeblock + 1 } : Host).state (loaded i d)) ⟨rfl, rfl⟩ hGranted hj (by rwa [hd])
    (by rw [hd, hg.slotAt_state, hEmpty])
  rw [hd, state_setBlock (ne_bmapstart hIndLow), state_disk (ne_bmapstart hIndLow)] at hMapped
  have hWritten := hg.written.trans (.of_mapped hMapped)
  rw [hg.data] at hWritten
  refine ⟨?_, hg.inodes, ?_, hg.low.trans (Nat.le_succ _), hRoom, fun c hc => ?_, hWritten, ?_⟩
  · exact setBlock_len (h := { h with freeblock := h.freeblock + 1 }) hg.len (by omega) _
  · exact (setBlock_disk_of_ne _ (ne_one hIndLow)).trans hg.super
  · have hc' : h.freeblock + 1 ≤ c := hc
    rw [setBlock_disk_of_ne _ (by omega)]
    exact hg.zero c (by omega)
  · intro q hq
    have hne : h.freeblock ≠ 0 := by omega
    rw [hg.slotAt_entry hInd hj]
    by_cases hqj : q = 13 + j
    · simp [hqj, hne]
    · rw [if_neg hqj, hg.filled q hq]
      simp [hqj]

lemma overwrite_append (l : Text) :
    overwrite (fun x => bytes.getD x 0) bytes.length l = fun x => (bytes ++ l).getD x 0 := by
  funext x
  unfold overwrite
  by_cases hIn : bytes.length ≤ x ∧ x < bytes.length + l.length
  · rw [if_pos hIn, List.getD_append_right _ _ _ _ hIn.1]
  · grind

lemma store (hg : Grows s i n h d bytes N) {x : Nat} (hMax : bytes.length < 268 * 1024)
    (hx : slotAt h.disk d (fileSlot (bytes.length / 1024)) = x) (hne : x ≠ 0) {l : Text}
    (hl : bytes.length % 1024 + l.length ≤ 1024) :
    Grows s i n (h.setBlock x ((h.disk x).write (bytes.length % 1024) l)) d (bytes ++ l) N := by
  have hd : Function.update s.inode i d i = d := update_self ..
  have hSlot : fileSlot (bytes.length / 1024) < nslots := fileSlot_lt (by omega)
  obtain ⟨hLow, hHigh⟩ := hg.slot_used hSlot (hx ▸ hne)
  rw [hx] at hLow hHigh
  have hRoom := hg.room
  have hAt : slotAt (h.state (loaded i d)).disk d (fileSlot (bytes.length / 1024)) = x := (hg.slotAt_state _).trans hx
  have hMapped : Mapped (Function.update s.inode i d) ip0 i (h.state (loaded i d)) (h.state (loaded i d)) d := by
    have hRefl := Mapped.refl hg.written.intact (loaded_loaded h i d)
    rwa [hd] at hRefl
  have hData := overwrite_block hMapped (loaded_loaded h i d) hAt hne hl (by omega)
  have hWrite := Written.of_setData hMapped (loaded_loaded h i d) (by omega) hAt hne
    (((h.state (loaded i d)).disk x).write (bytes.length % 1024) l)
  rw [hData, hg.data, overwrite_append, state_setBlock (ne_bmapstart hLow), state_disk (ne_bmapstart hLow)] at hWrite
  refine ⟨setBlock_len hg.len (by omega) _, hg.inodes, (setBlock_disk_of_ne _ (ne_one hLow)).trans hg.super, hg.low, hg.room,
    fun c hc => ?_, hg.written.trans hWrite, ?_⟩
  · have hc' : h.freeblock ≤ c := hc
    rw [setBlock_disk_of_ne _ (by omega)]
    exact hg.zero c hc
  · -- a data block is not the indirect block
    intro q hq
    rw [← hg.filled q hq]
    have hSame : slotAt (h.setBlock x ((h.disk x).write (bytes.length % 1024) l)).disk d q = slotAt h.disk d q := by
      apply slotAt_congr
      intro hInd
      apply setBlock_disk_of_ne
      rintro hEq
      have hPlace : ∀ q < nslots, slotAt (h.state (loaded i d)).disk d q = x →
          (h.state (loaded i d)).place (Function.update s.inode i d) none (some (i, q)) = some x := by
        intro q hq hAt
        exact FsState.place_some_iff.mpr ⟨hg.live, hq, by rwa [hd], hne⟩
      have hInj := hg.written.intact.owned.placed.inj (hPlace _ hSlot hAt) (hPlace 12 (by decide) hEq)
      exact fileSlot_ne _ (congrArg Prod.snd (Option.some.inj hInj))
    rw [hSame]

end Grows

/-! ## The loop -/

section

variable {s : FsState} {bytes : Text}

lemma blocksFor_succ (sz : Nat) : blocksFor (sz + 1) =
    blocksFor sz + (if sz % 1024 = 0 then 1 else 0) + if sz = 12 * 1024 then 1 else 0 := by
  unfold blocksFor
  split_ifs <;> omega

lemma blocksFor_mono {a b : Nat} (h : a ≤ b) : blocksFor a ≤ blocksFor b := by
  unfold blocksFor
  split_ifs <;> omega

lemma needed_succ {sz q : Nat} (hq : q < nslots) (hMax : sz < 268 * 1024) : Needed (sz + 1) q ↔
    (Needed sz q ∨ sz = 12 * 1024 ∧ q = 12) ∨ sz % 1024 = 0 ∧ q = fileSlot (sz / 1024) := by
  unfold Needed fileSlot nslots at *
  split_ifs <;> omega

lemma needed_fileSlot {sz bn : Nat} : Needed sz (fileSlot bn) ↔ bn * 1024 < sz := by
  unfold Needed fileSlot
  split <;> omega

lemma needed_slot {sz : Nat} : Needed sz (fileSlot (sz / 1024)) ↔ sz % 1024 ≠ 0 := by
  rw [needed_fileSlot]
  omega

lemma needed_block {sz n q : Nat} (hn : 0 < n) (hFits : sz % 1024 + n ≤ 1024) : Needed (sz + n) q ↔ Needed (sz + 1) q := by
  unfold Needed
  omega

lemma blocksFor_block {sz n : Nat} (hn : 0 < n) (hFits : sz % 1024 + n ≤ 1024) : blocksFor (sz + n) = blocksFor (sz + 1) := by
  unfold blocksFor
  split_ifs <;> omega

variable {n base : Nat} {N : Nat → Prop} {K : Dinode × Nat → Block → Host → Prop}

/-- `appendBlock` on a file that has its indirect block, and the read of the block it has found. -/
lemma appendEntry_rsect (hg : Grows s i n h d bytes N)
    (hN : ∀ q < nslots, N q ↔ Needed bytes.length q ∨ bytes.length = 12 * 1024 ∧ q = 12)
    (hLow : ¬ bytes.length / 1024 < 12) (hMax : bytes.length < 268 * 1024)
    (hCount : h.freeblock = base + blocksFor bytes.length + if bytes.length = 12 * 1024 then 1 else 0)
    (hE : fssize < base + blocksFor (bytes.length + 1) → ∀ e, E e)
    (hK : ∀ d' x h', Grows s i n h' d' bytes (Needed (bytes.length + 1)) → h'.freeblock = base + blocksFor (bytes.length + 1) →
      slotAt h'.disk d' (fileSlot (bytes.length / 1024)) = x → x ≠ 0 → K (d', x) (h'.disk x) h') :
    wp (do
      let indirect ← rsect (d.addr ndirect)
      if indirect.getLE (4 * (bytes.length / bsize - ndirect)) 4 = 0 then
        let b ← nextBlock
        let indirect := indirect.putLE (4 * (bytes.length / bsize - ndirect)) 4 b
        wsect (d.addr ndirect) indirect
        return (d, indirect.getLE (4 * (bytes.length / bsize - ndirect)) 4)
      else
        return (d, indirect.getLE (4 * (bytes.length / bsize - ndirect)) 4)) E
      (fun r t => wp (rsect r.2) E (K r) t) h := by
  have hRoom := hg.room
  have hSmall : fssize < 2 ^ 22 := by decide
  have hInd : d.addr 12 ≠ 0 := by
    have hFilled := (hg.filled 12 (by decide)).mpr ((hN 12 (by decide)).mpr (by unfold Needed; omega))
    exact hFilled
  obtain ⟨hIndLow, hIndHigh⟩ := hg.indirect hInd
  obtain ⟨j, hj⟩ : ∃ j, j = bytes.length / 1024 - 12 := ⟨_, rfl⟩
  have hSlot : fileSlot (bytes.length / 1024) = 13 + j := by
    rw [fileSlot, if_neg hLow]
    omega
  have hjLess : j < 256 := by omega
  have hEntry : slotAt h.disk d (13 + j) = (h.disk (d.addr 12)).getLE (4 * j) 4 := by
    rw [← hSlot, slotAt_entry hLow hInd, hj]
  have hIs : N (13 + j) ↔ bytes.length % 1024 ≠ 0 := by
    rw [hN _ (by unfold nslots; omega), ← hSlot, needed_slot]
    have := fileSlot_ne (bytes.length / 1024)
    omega
  have hNext : ∀ q < nslots, Needed (bytes.length + 1) q ↔ N q ∨ bytes.length % 1024 = 0 ∧ q = 13 + j := by
    intro q hq
    rw [needed_succ hq hMax, hN q hq, hSlot]
  have hBlocks := blocksFor_succ bytes.length
  simp only [wp_bind]
  change wp (rsect (d.addr 12)) E _ h
  rw [wp_rsect (by omega) hg.len]
  refine ⟨fun _ => ?_, fun hOut => absurd hOut (by omega)⟩
  change wp (if (h.disk (d.addr 12)).getLE (4 * (bytes.length / 1024 - 12)) 4 = 0 then _ else _) E _ h
  rw [← hj, ← hEntry, wp_ite]
  constructor
  · intro hEmpty
    have hMod : bytes.length % 1024 = 0 := by
      by_contra hne
      exact (hg.filled _ (by unfold nslots; omega)).mpr (hIs.mpr hne) hEmpty
    rw [if_pos hMod] at hBlocks
    simp only [wp_bind, wp_nextBlock]
    change wp (wsect (d.addr 12) _) E _ _
    rw [wp_wsect (by omega), wp_pure]
    have hGet : ((h.disk (d.addr 12)).putLE (4 * j) 4 h.freeblock).getLE (4 * j) 4 = h.freeblock := by
      grind [Bytes.getLE_putLE_same, Nat.mod_eq_of_lt]
    simp only [show bytes.length / bsize - ndirect = j from hj.symm, hGet]
    rw [wp_rsect (by omega) (setBlock_len (h := { h with freeblock := h.freeblock + 1 }) hg.len (by omega) _)]
    constructor
    · intro hFits
      have hGrown := hg.entry hInd hjLess hEmpty hFits
      apply hK _ _ _ (hGrown.congr fun q hq => (by rw [hNext q hq]; simp [hMod]))
      · change h.freeblock + 1 = _
        omega
      · rw [hSlot, hg.slotAt_entry hInd hjLess, if_pos rfl]
      · have := hg.low
        have : 0 < nmeta := by decide
        omega
    · intro hOut
      exact hE (by omega) _
  · intro hne
    rw [wp_pure]
    have hMod : bytes.length % 1024 ≠ 0 := hIs.mp ((hg.filled _ (by unfold nslots; omega)).mp hne)
    rw [if_neg hMod] at hBlocks
    have hUsed := hg.slot_used (q := 13 + j) (by unfold nslots; omega) hne
    simp only [show bytes.length / bsize - ndirect = j from hj.symm, ← hEntry]
    rw [wp_rsect (by omega) hg.len]
    refine ⟨fun _ => ?_, fun hOut => absurd hOut (by omega)⟩
    apply hK _ _ _ (hg.congr fun q hq => (by rw [hNext q hq]; simp [hMod]))
    · omega
    · rw [hSlot]
    · exact hne

/-- `appendBlock` finds or allocates the block in which the file ends; the read of the block fails
when the image has no more room. -/
lemma appendBlock_rsect (hg : Grows s i n h d bytes (Needed bytes.length)) (hMax : bytes.length < 268 * 1024)
    (hCount : h.freeblock = base + blocksFor bytes.length) (hE : fssize < base + blocksFor (bytes.length + 1) → ∀ e, E e)
    (hK : ∀ d' x h', Grows s i n h' d' bytes (Needed (bytes.length + 1)) → h'.freeblock = base + blocksFor (bytes.length + 1) →
      slotAt h'.disk d' (fileSlot (bytes.length / 1024)) = x → x ≠ 0 → K (d', x) (h'.disk x) h') :
    wp (appendBlock d (bytes.length / bsize)) E (fun r t => wp (rsect r.2) E (K r) t) h := by
  have hRoom := hg.room
  have hLow := hg.low
  have hSmall : fssize < 2 ^ 22 := by decide
  have hPos : 0 < nmeta := by decide
  have hBlocks := blocksFor_succ bytes.length
  have hNext : ∀ q < nslots, _ := fun q hq => needed_succ (q := q) hq hMax
  unfold appendBlock
  by_cases hDirect : bytes.length / bsize < ndirect
  · have hDirect' : bytes.length / 1024 < 12 := hDirect
    have hSlot : fileSlot (bytes.length / 1024) = bytes.length / 1024 := if_pos hDirect'
    have hAt : ∀ (disk : Nat → Block) (d : Dinode), slotAt disk d (bytes.length / 1024) = d.addr (bytes.length / 1024) :=
      fun disk d => if_pos (by omega)
    have hFilled := hg.filled (bytes.length / 1024) (by unfold nslots; omega)
    rw [hAt, ← hSlot, needed_slot, hSlot] at hFilled
    have hne : bytes.length ≠ 12 * 1024 := by omega
    rw [if_neg hne] at hBlocks
    rw [if_pos hDirect, wp_ite]
    constructor
    · intro hEmpty
      have hEmpty' : d.addr (bytes.length / 1024) = 0 := hEmpty
      have hMod : bytes.length % 1024 = 0 := by
        by_contra hne
        exact hFilled.mpr hne hEmpty'
      have hGet : (d.setAddr (bytes.length / 1024) h.freeblock).addr (bytes.length / 1024) = h.freeblock := by
        rw [Dinode.addr_setAddr _ (by omega) (by omega), if_pos rfl]
      rw [if_pos hMod] at hBlocks
      rw [wp_bind, wp_nextBlock, wp_pure]
      change wp (rsect ((d.setAddr (bytes.length / 1024) h.freeblock).addr (bytes.length / 1024))) E _ _
      rw [hGet, wp_rsect (h := { h with freeblock := h.freeblock + 1 }) (by omega) hg.len]
      constructor
      · intro hFits
        have hGrown := hg.addr (k := bytes.length / 1024) (by omega) hEmpty' hFits
        have hPair : (d.setAddr (bytes.length / bsize) h.freeblock, (d.setAddr (bytes.length / bsize) h.freeblock).addr (bytes.length / bsize)) =
            (d.setAddr (bytes.length / 1024) h.freeblock, h.freeblock) := Prod.ext rfl hGet
        rw [hPair]
        apply hK _ _ _ (hGrown.congr fun q hq => (by rw [hNext q hq, hSlot]; simp [hMod, hne]))
        · change h.freeblock + 1 = _
          omega
        · rw [hSlot, hAt, hGet]
        · omega
      · intro hOut
        exact hE (by omega) _
    · intro hAddr
      have hAddr' : d.addr (bytes.length / 1024) ≠ 0 := hAddr
      have hMod : bytes.length % 1024 ≠ 0 := hFilled.mp hAddr'
      have hUsed := hg.slot_used (q := bytes.length / 1024) (by unfold nslots; omega) (by rwa [hAt])
      rw [hAt] at hUsed
      rw [if_neg hMod] at hBlocks
      rw [wp_pure]
      change wp (rsect (d.addr (bytes.length / 1024))) E _ h
      rw [wp_rsect (by omega) hg.len]
      refine ⟨fun _ => ?_, fun hOut => absurd hOut (by omega)⟩
      apply hK d (d.addr (bytes.length / 1024)) h (hg.congr fun q hq => (by rw [hNext q hq]; simp [hMod, hne]))
      · omega
      · rw [hSlot, hAt]
      · exact hAddr'
  · have hHigh : ¬ bytes.length / 1024 < 12 := hDirect
    rw [if_neg hDirect]
    have hFilled := hg.filled 12 (by decide)
    change d.addr 12 ≠ 0 ↔ _ at hFilled
    by_cases hInd : d.addr 12 = 0
    · have hInd' : d.addr ndirect = 0 := hInd
      have hExact : bytes.length = 12 * 1024 := by
        grind [Needed]
      have hGet : (d.setAddr 12 h.freeblock).addr 12 = h.freeblock := by
        rw [Dinode.addr_setAddr _ (by decide) (by omega), if_pos rfl]
      rw [if_pos hInd', wp_bind, wp_nextBlock]
      by_cases hFits : h.freeblock < fssize
      · refine appendEntry_rsect (hg.addr (k := 12) (by decide) hInd hFits) ?_ hHigh hMax ?_ hE hK
        · intro q _
          simp [hExact]
        · change h.freeblock + 1 = _
          rw [if_pos hExact]
          omega
      · rw [wp_bind, wp_pure, wp_bind]
        change wp (rsect ((d.setAddr 12 h.freeblock).addr 12)) E _ _
        rw [hGet, wp_rsect (h := { h with freeblock := h.freeblock + 1 }) (by omega) hg.len]
        refine ⟨fun hIn => absurd hIn hFits, fun _ => hE ?_ _⟩
        split_ifs at hBlocks <;> omega
    · have hInd' : ¬ d.addr ndirect = 0 := hInd
      have hMore : Needed bytes.length 12 := hFilled.mp hInd
      have hne : bytes.length ≠ 12 * 1024 := by
        unfold Needed at hMore
        omega
      rw [if_neg hInd']
      refine appendEntry_rsect hg ?_ hHigh hMax ?_ hE hK
      · intro q _
        simp [hne]
      · rw [if_neg hne, hCount, Nat.add_zero]

/-- The loop appends all of its bytes, or it fails because the file or the image is full. -/
lemma appendLoop_spec (hE : (268 * 1024 < k ∨ fssize < base + blocksFor k) → ∀ e, E e) :
    ∀ (fuel : Nat) (h : Host) (d : Dinode) (bytes p : Text), p.length ≤ fuel → bytes.length + p.length = k →
      bytes.length ≤ 268 * 1024 → Grows s i n h d bytes (Needed bytes.length) → h.freeblock = base + blocksFor bytes.length →
      wp (appendLoop fuel d bytes.length p) E (fun r h' => r.2 = k ∧ k ≤ 268 * 1024 ∧ Grows s i n h' r.1 (bytes ++ p) (Needed k) ∧
        h'.freeblock = base + blocksFor k) h := by
  intro fuel
  induction fuel with
  | zero =>
    intro h d bytes p hFuel hLength hSize hg hCount
    obtain rfl := List.length_eq_zero_iff.mp (Nat.le_zero.mp hFuel)
    rw [List.append_nil, ← hLength]
    exact wp_val ⟨rfl, hSize, hg, hCount⟩
  | succ fuel ih =>
    intro h d bytes p hFuel hLength hSize hg hCount
    unfold appendLoop
    rw [wp_ite]
    constructor
    · intro hPos
      simp only
      rw [wp_ite]
      constructor
      · intro hMaxfile
        have hMax : bytes.length < 268 * 1024 := by
          unfold bsize maxfile ndirect nindirect at hMaxfile
          omega
        rw [wp_bind]
        have hMono := blocksFor_mono (a := bytes.length + 1) (b := k) (by omega)
        apply wp_post (Q := fun r t => wp (rsect r.2) E (fun buf u => wp (do
          wsect r.2 (buf.write (bytes.length - bytes.length / bsize * bsize)
            (p.take (min p.length ((bytes.length / bsize + 1) * bsize - bytes.length))))
          appendLoop fuel r.1 (bytes.length + min p.length ((bytes.length / bsize + 1) * bsize - bytes.length))
            (p.drop (min p.length ((bytes.length / bsize + 1) * bsize - bytes.length)))) E
          (fun r h' => r.2 = k ∧ k ≤ 268 * 1024 ∧ Grows s i n h' r.1 (bytes ++ p) (Needed k) ∧ h'.freeblock = base + blocksFor k) u) t)
        · apply appendBlock_rsect hg hMax hCount
          · intro hFull
            exact hE (.inr (by omega))
          · intro d' x h' hg' hCount' hx hne
            obtain ⟨m, hm⟩ : ∃ m, m = min p.length ((bytes.length / bsize + 1) * bsize - bytes.length) := ⟨_, rfl⟩
            have hmBound : 0 < m ∧ m ≤ p.length ∧ bytes.length % 1024 + m ≤ 1024 := by
              unfold bsize at hm
              omega
            have hOff : bytes.length - bytes.length / bsize * bsize = bytes.length % 1024 := by
              unfold bsize
              omega
            have hTake : (p.take m).length = m := by
              rw [List.length_take]
              omega
            have hUsed := hg'.slot_used (fileSlot_lt (by omega)) (hx ▸ hne)
            rw [hx] at hUsed
            have hRoom := hg'.room
            have hSmall : fssize < 2 ^ 22 := by decide
            rw [← hm, hOff, wp_bind, wp_wsect (by omega)]
            have hStored := hg'.store (l := p.take m) hMax hx hne (by omega)
            have hGrown : (bytes ++ p.take m).length = bytes.length + m := by rw [List.length_append, hTake]
            have hRest := ih _ d' (bytes ++ p.take m) (p.drop m) (by rw [List.length_drop]; omega)
              (by rw [hGrown, List.length_drop]; omega) (by omega)
              (hStored.congr fun q _ => by rw [hGrown, needed_block hmBound.1 hmBound.2.2])
              (by rw [hGrown, blocksFor_block hmBound.1 hmBound.2.2]; exact hCount')
            rwa [hGrown, List.append_assoc, List.take_append_drop] at hRest
        · intro r t ht
          exact (wp_bind _ _).mpr ht
      · intro hMaxfile
        apply (wp_stop _).mpr
        apply hE (.inl _)
        unfold bsize maxfile ndirect nindirect at hMaxfile
        omega
    · intro hEmpty
      obtain rfl := List.length_eq_zero_iff.mp (Nat.eq_zero_of_not_pos hEmpty)
      rw [List.append_nil, ← hLength]
      exact wp_val ⟨rfl, hSize, hg, hCount⟩

end

end Xv6K230.Mkfs
