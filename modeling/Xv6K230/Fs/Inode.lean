import Xv6K230.Fs.State

/-! # Inodes

The inode allocator, the in-memory inode table, and the mapping from file blocks to disk blocks, from `fs.c`.
-/

namespace Xv6K230.Fs

def getInode (ip : Ip) : FsM Inode := Prog.read fun s => s.itable ip

def modInode (ip : Ip) (f : Inode → Inode) : FsM Unit :=
  Prog.update fun s => s.setInode ip (f (s.itable ip))

def modDi (ip : Ip) (f : Dinode → Dinode) : FsM Unit := modInode ip fun i => { i with di := f i.di }

def iupdate (ip : Ip) : FsM Unit := do
  let i ← getInode ip
  let s ← Prog.read id
  Prog.update fun s => s.setDinode i.inum i.di
  logWrite (s.sb.iblock i.inum)

def findInode (t : Ip → Inode) (dev inum : Nat) : Option Ip :=
  (List.finRange ninode).find? fun ip => (t ip).ref > 0 && (t ip).dev == dev && (t ip).inum == inum

def emptySlot (t : Ip → Inode) : Option Ip := (List.finRange ninode).find? fun ip => (t ip).ref == 0

def iget (dev inum : Nat) : FsM Ip := do
  let t ← Prog.read FsState.itable
  match findInode t dev inum with
  | some ip =>
    modInode ip fun i => { i with ref := i.ref + 1 }
    return ip
  | none =>
    match emptySlot t with
    | none => Prog.stop .igetNoInodes
    | some ip =>
      modInode ip fun i => { i with dev := dev, inum := inum, ref := 1, valid := false }
      return ip

def idup (ip : Ip) : FsM Ip := do
  modInode ip fun i => { i with ref := i.ref + 1 }
  return ip

def acquiresleep (ip : Ip) : FsM Unit := do
  let i ← getInode ip
  if i.locked then Prog.stop .asleep else modInode ip fun i => { i with locked := true }

def releasesleep (ip : Ip) : FsM Unit := modInode ip fun i => { i with locked := false }

def ilock (ip : Ip) : FsM Unit := do
  let i ← getInode ip
  if i.ref < 1 then
    Prog.stop .ilock
  else
    acquiresleep ip
    if !i.valid then
      let s ← Prog.read id
      modInode ip fun i => { i with di := s.dinode i.inum, valid := true }
      if (s.dinode i.inum).type = 0 then Prog.stop .ilockNoType

def iunlock (ip : Ip) : FsM Unit := do
  let i ← getInode ip
  if !i.locked ∨ i.ref < 1 then Prog.stop .iunlock else releasesleep ip

/-- One pass of the loop of `ialloc`. -/
def iallocAt (dev : Nat) (type : UInt16) (inum : Nat) : FsM (Option Ip) := do
  let s ← Prog.read id
  if (s.dinode inum).type = 0 then
    Prog.update fun s => s.setDinode inum { Dinode.zero with type := type }
    logWrite (s.sb.iblock inum)
    let ip ← iget dev inum
    return some ip
  else
    return none

def ialloc (dev : Nat) (type : UInt16) : FsM (Option Ip) := do
  let sb ← Prog.read FsState.sb
  Prog.firstM (iallocAt dev type) ((List.range (sb.ninodes - 1)).map (· + 1))

/-! ## Content -/

/-- The address of the indirect block of `ip`, allocated if need be; 0 if out of blocks. -/
def indirectBlock (ip : Ip) : FsM Nat := do
  let i ← getInode ip
  if i.di.addr ndirect ≠ 0 then
    return i.di.addr ndirect
  else
    let addr ← balloc
    if addr = 0 then
      return 0
    else
      modDi ip fun d => d.setAddr ndirect addr
      return addr

def bmap (ip : Ip) (bn : Nat) : FsM Nat := do
  let i ← getInode ip
  if bn < ndirect then
    if i.di.addr bn ≠ 0 then
      return i.di.addr bn
    else
      let addr ← balloc
      if addr = 0 then
        return 0
      else
        modDi ip fun d => d.setAddr bn addr
        return addr
  else if bn - ndirect < nindirect then
    let ind ← indirectBlock ip
    if ind = 0 then
      return 0
    else
      let bp ← bread ind
      let addr := bp.getLE (4 * (bn - ndirect)) 4
      if addr ≠ 0 then
        return addr
      else
        let addr ← balloc
        if addr ≠ 0 then
          Prog.update fun s => s.setBlock ind ((s.disk ind).putLE (4 * (bn - ndirect)) 4 addr)
          logWrite ind
        return addr
  else
    Prog.stop .bmapRange

/-- Free the direct block `k` of `ip`, if it has one. -/
def truncDirect (ip : Ip) (k : Nat) : FsM Unit := do
  let i ← getInode ip
  if i.di.addr k ≠ 0 then
    bfree (i.di.addr k)
    modDi ip fun d => d.setAddr k 0

/-- Free the block that entry `j` of the indirect block `ind` names. -/
def truncEntry (ind j : Nat) : FsM Unit := do
  let bp ← bread ind
  if bp.getLE (4 * j) 4 ≠ 0 then bfree (bp.getLE (4 * j) 4)

def itrunc (ip : Ip) : FsM Unit := do
  Prog.eachM (truncDirect ip) (List.range ndirect)
  let i ← getInode ip
  let ind := i.di.addr ndirect
  if ind ≠ 0 then
    Prog.eachM (truncEntry ind) (List.range nindirect)
    bfree ind
    modDi ip fun d => d.setAddr ndirect 0
  modDi ip fun d => { d with size := 0 }
  iupdate ip

def iput (ip : Ip) : FsM Unit := do
  let i ← getInode ip
  if i.ref = 1 ∧ i.valid ∧ i.di.nlink = 0 then
    acquiresleep ip
    itrunc ip
    modDi ip fun d => { d with type := 0 }
    iupdate ip
    modInode ip fun i => { i with valid := false }
    releasesleep ip
  modInode ip fun i => { i with ref := i.ref - 1 }

def iunlockput (ip : Ip) : FsM Unit := do
  iunlock ip
  iput ip

/-- One pass of the loop of `ireclaim`. -/
def reclaimAt (dev inum : Nat) : FsM Unit := do
  let s ← Prog.read id
  if (s.dinode inum).type ≠ 0 ∧ (s.dinode inum).nlink = 0 then
    let ip ← iget dev inum
    beginOp
    ilock ip
    iunlock ip
    iput ip
    endOp

def ireclaim (dev : Nat) : FsM Unit := do
  let sb ← Prog.read FsState.sb
  Prog.eachM (reclaimAt dev) ((List.range (sb.ninodes - 1)).map (· + 1))

/-- The loop of `readi`. `copy k l` tells whether the copy of the bytes `l` to the
destination plus `k` succeeds; the second result is what has been delivered. -/
def readiLoop (ip : Ip) (copy : Nat → Text → Bool) (n : Nat) :
    (fuel tot off : Nat) → Text → FsM (Int × Text)
  | 0, tot, _, acc => return (tot, acc)
  | fuel + 1, tot, off, acc =>
    if tot < n then do
      let addr ← bmap ip (off / bsize)
      if addr = 0 then
        return (tot, acc)
      else
        let bp ← bread addr
        let m := min (n - tot) (bsize - off % bsize)
        if copy tot (bp.read (off % bsize) m) then
          readiLoop ip copy n fuel (tot + m) (off + m) (acc ++ bp.read (off % bsize) m)
        else
          return (-1, acc)
    else
      return (tot, acc)

def readi (ip : Ip) (copy : Nat → Text → Bool) (off n : Nat) : FsM (Int × Text) := do
  let i ← getInode ip
  let size := i.di.size.toNat
  if off > size ∨ (off + n) % 2 ^ 32 < off then
    return (0, [])
  else
    let n := if off + n > size then size - off else n
    readiLoop ip copy n n 0 off []

/-- `readi` to a kernel address, which cannot fail halfway. -/
def readiKernel (ip : Ip) (off n : Nat) : FsM (Int × Text) := readi ip (fun _ _ => true) off n

/-- The loop of `writei`. `src k m` is the outcome of `either_copyin` of `m` bytes from
the source plus `k`: what it stored into the buffer, and whether it stored everything. -/
def writeiLoop (ip : Ip) (src : CopyIn) (n : Nat) :
    (fuel tot off : Nat) → FsM (Nat × Nat)
  | 0, tot, off => return (tot, off)
  | fuel + 1, tot, off =>
    if tot < n then do
      let addr ← bmap ip (off / bsize)
      if addr = 0 then
        return (tot, off)
      else
        let m := min (n - tot) (bsize - off % bsize)
        let (bytes, ok) := src tot m
        -- the cached block changes even when the copy stops halfway
        Prog.update fun s => s.setBlock addr ((s.disk addr).write (off % bsize) (bytes.take m))
        if ok then
          logWrite addr
          writeiLoop ip src n fuel (tot + m) (off + m)
        else
          return (tot, off)
    else
      return (tot, off)

def writei (ip : Ip) (src : CopyIn) (off n : Nat) : FsM Int := do
  let i ← getInode ip
  if off > i.di.size.toNat ∨ (off + n) % 2 ^ 32 < off then
    return -1
  else if off + n > maxfile * bsize then
    return -1
  else
    let (tot, off') ← writeiLoop ip src n n 0 off
    modDi ip fun d => if off' > d.size.toNat then { d with size := UInt32.ofNat off' } else d
    iupdate ip
    return tot

/-- `writei` from a kernel buffer holding `l`. -/
def writeiKernel (ip : Ip) (l : Text) (off : Nat) : FsM Int :=
  writei ip (fun k m => ((l.drop k).take m, true)) off l.length

end Xv6K230.Fs
