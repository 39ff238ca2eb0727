import Xv6K230.Lib.Program
import Xv6K230.Machine.Stop
import Xv6K230.Fs.Layout

/-! # File system state, transactions and the block allocator

The disk is the map from block numbers to contents that processes see through the buffer cache.
-/

namespace Xv6K230.Fs

def ninode : Nat := 50
def maxopblocks : Nat := 10
def logblocks : Nat := maxopblocks * 3

/-- An entry of the in-memory inode table; `di` is its copy of the disk inode. -/
structure Inode where
  dev : Nat
  inum : Nat
  ref : Int
  locked : Bool
  valid : Bool
  di : Dinode

abbrev Ip : Type := Fin ninode

lemma ninode_pos : 0 < ninode := by decide

def ip0 : Ip := ⟨0, ninode_pos⟩

lemma addr0_lt : 0 < 13 := by decide

/-- The addresses of a file of one block. -/
def oneBlock (b : UInt32) : Fin 13 → UInt32 := fun i => if i = ⟨0, addr0_lt⟩ then b else 0

/-- What the copy of `l` bytes from byte `k` of a source delivers: the bytes, and whether it succeeds. -/
abbrev CopyIn : Type := Nat → Nat → Text × Bool

structure FsState where
  sb : Superblock
  disk : Nat → Block
  outstanding : Int
  lh : List Nat
  itable : Ip → Inode

abbrev FsM : Type → Type := Prog Stop FsState

def FsState.setBlock (s : FsState) (b : Nat) (blk : Block) : FsState :=
  { s with disk := fun c => if c = b then blk else s.disk c }

def FsState.setInode (s : FsState) (ip : Ip) (i : Inode) : FsState :=
  { s with itable := fun jp => if jp = ip then i else s.itable jp }

/-- `*((struct dinode*)bp->data + inum%IPB)` for the block of inode `inum` -/
def FsState.dinode (s : FsState) (inum : Nat) : Dinode :=
  Dinode.load (s.disk (s.sb.iblock inum)) (inum % ipb * 64)

def FsState.setDinode (s : FsState) (inum : Nat) (d : Dinode) : FsState :=
  s.setBlock (s.sb.iblock inum) (d.store (s.disk (s.sb.iblock inum)) (inum % ipb * 64))

/-- The bitmap bit of block `b`. -/
def FsState.bit (s : FsState) (b : Nat) : Bool := (s.disk (s.sb.bblock b)).getBit (b % bpb)

/-! ## Transactions -/

def beginOp : FsM Unit := do
  let s ← Prog.read id
  if (s.lh.length : Int) + (s.outstanding + 1) * maxopblocks > logblocks then
    Prog.stop .asleep
  else
    Prog.update fun s => { s with outstanding := s.outstanding + 1 }

def endOp : FsM Unit :=
  Prog.update fun s =>
    if s.outstanding - 1 = 0 then { s with outstanding := 0, lh := [] }
    else { s with outstanding := s.outstanding - 1 }

def logWrite (b : Nat) : FsM Unit := do
  let s ← Prog.read id
  if s.lh.length ≥ logblocks then Prog.stop .logTooBig
  else if s.outstanding < 1 then Prog.stop .logOutside
  else if b ∈ s.lh then return ()
  else Prog.update fun s => { s with lh := s.lh ++ [b] }

def bread (b : Nat) : FsM Block := Prog.read fun s => s.disk b

/-! ## Blocks -/

def bzero (b : Nat) : FsM Unit := do
  Prog.update fun s => s.setBlock b (Bytes.fill 0)
  logWrite b

/-- The first of the low `n` bits of a bitmap block that is clear. -/
def firstFree (bp : Block) (n : Nat) : Option Nat := (List.range n).find? fun bi => !bp.getBit bi

/-- One pass of the outer loop of `balloc`, over the bitmap block of block `b`. -/
def ballocIn (sb : Superblock) (b : Nat) : FsM (Option Nat) := do
  let bp ← bread (sb.bblock b)
  match firstFree bp (min bpb (sb.size - b)) with
  | none => return none
  | some bi =>
    Prog.update fun s => s.setBlock (sb.bblock b) (bp.setBit bi)
    logWrite (sb.bblock b)
    bzero (b + bi)
    return some (b + bi)

def balloc : FsM Nat := do
  let sb ← Prog.read FsState.sb
  let r ← Prog.firstM (ballocIn sb) ((List.range ((sb.size + (bpb - 1)) / bpb)).map (· * bpb))
  return r.getD 0

def bfree (b : Nat) : FsM Unit := do
  let s ← Prog.read id
  let bp ← bread (s.sb.bblock b)
  if !bp.getBit (b % bpb) then
    Prog.stop .freeingFreeBlock
  else
    Prog.update fun s => s.setBlock (s.sb.bblock b) (bp.clearBit (b % bpb))
    logWrite (s.sb.bblock b)

end Xv6K230.Fs
