import Xv6K230.Lib.Links
import Xv6K230.Block.Log
import Xv6K230.Fs.Layout

/-! # The buffer cache

`bio.c` over the ramdisk, and the part of `log.c` that reads and writes blocks.
-/

namespace Xv6K230.Blk

open Fs (Block rootdev)

def nbuf : Nat := maxopblocks * 3

abbrev Bi : Type := Fin nbuf

/-- `struct buf` without the list pointers; `lock` is the process that holds the sleep lock. -/
structure Buf where
  valid : Bool
  dev : Nat
  blockno : Nat
  lock : Option Nat
  refcnt : Nat
  data : Block

/-- Buffers and their list, the ramdisk with its size in blocks, and the log. -/
structure Blocks where
  buf : Bi → Buf
  links : Links Bi
  disk : Nat → Block
  size : Nat
  start : Nat -- log.start
  log : Log

abbrev BM : Type → Type := Prog Stop Blocks

def Blocks.setBuf (s : Blocks) (b : Bi) (v : Buf) : Blocks :=
  { s with buf := fun c => if c = b then v else s.buf c }

def getBuf (b : Bi) : BM Buf := Prog.read fun s => s.buf b

def modBuf (b : Bi) (f : Buf → Buf) : BM Unit := Prog.update fun s => s.setBuf b (f (s.buf b))

def onLog {α : Type} (m : Prog Stop Log α) : BM α := Prog.zoom Blocks.log (fun l s => { s with log := l }) m

/-- `binit` puts the buffers one after another behind the head. -/
def binit : Links Bi := (List.finRange nbuf).foldl Links.insertFront ⟨fun _ => none, fun _ => none⟩

/-- The part of `bget` under `bcache.lock`. -/
def bget (dev blockno : Nat) : BM Bi := do
  let s ← Prog.read id
  match Links.walk s.links.next (fun b => (s.buf b).dev == dev && (s.buf b).blockno == blockno) (nbuf + 1)
      (s.links.next none) with
  | none => Prog.stop .fuel
  | some (some b) =>
    modBuf b fun v => { v with refcnt := v.refcnt + 1 }
    return b
  | some none =>
    -- not cached: recycle the least recently used buffer that nobody refers to
    match Links.walk s.links.prev (fun b => (s.buf b).refcnt == 0) (nbuf + 1) (s.links.prev none) with
    | none => Prog.stop .fuel
    | some none => Prog.stop .bget
    | some (some b) =>
      modBuf b fun v => { v with dev := dev, blockno := blockno, valid := false, refcnt := 1 }
      return b

def acquiresleep (me : Nat) (b : Bi) : BM Unit := do
  let v ← getBuf b
  if v.lock.isSome then Prog.stop .asleep else modBuf b fun v => { v with lock := some me }

def releasesleep (b : Bi) : BM Unit := modBuf b fun v => { v with lock := none }

/-- The block of the image that `ramdisk_rw` works on: `blockno * BSIZE` is a 32-bit product. -/
def ramdiskIndex (blockno : Nat) : Nat := blockno * 1024 % 2 ^ 32 / 1024

def ramdiskRw (me : Nat) (b : Bi) (write : Bool) : BM Unit := do
  let v ← getBuf b
  let s ← Prog.read id
  if v.lock ≠ some me then Prog.stop .ramdiskLock
  else if ramdiskIndex v.blockno + 1 > s.size then Prog.stop .ramdiskBounds
  else if write then
    Prog.update fun s =>
      { s with disk := fun n => if n = ramdiskIndex v.blockno then v.data else s.disk n }
  else modBuf b fun v => { v with data := s.disk (ramdiskIndex v.blockno), valid := true }

/-- `bread` after `bget`. -/
def fill (me : Nat) (b : Bi) : BM Unit := do
  let v ← getBuf b
  if !v.valid then ramdiskRw me b false

def bread (me dev blockno : Nat) : BM Bi := do
  let b ← bget dev blockno
  acquiresleep me b
  fill me b
  return b

def bwrite (me : Nat) (b : Bi) : BM Unit := do
  let v ← getBuf b
  if v.lock ≠ some me then Prog.stop .bwrite else ramdiskRw me b true

/-- The part of `brelse` under `bcache.lock`. -/
def bput (b : Bi) : BM Unit := do
  modBuf b fun v => { v with refcnt := v.refcnt - 1 }
  let v ← getBuf b
  if v.refcnt = 0 then
    Prog.update fun s => { s with links := (s.links.unlink b).insertFront b }

/-- The part of `brelse` before that. -/
def brelseLock (me : Nat) (b : Bi) : BM Unit := do
  let v ← getBuf b
  if v.lock ≠ some me then Prog.stop .brelse else releasesleep b

def brelse (me : Nat) (b : Bi) : BM Unit := do
  brelseLock me b
  bput b

def bpin (b : Bi) : BM Unit := modBuf b fun v => { v with refcnt := v.refcnt + 1 }

def bunpin (b : Bi) : BM Unit := modBuf b fun v => { v with refcnt := v.refcnt - 1 }

/-- `log_write` -/
def logWriteBuf (b : Bi) : BM Unit := do
  let v ← getBuf b
  let new ← onLog (logWrite v.blockno)
  if new then bpin b

def copyData (dst src : Bi) : BM Unit := do
  let v ← getBuf src
  modBuf dst fun d => { d with data := v.data }

/-! ## Commit -/

/-- One pass of the loop of `write_log`. -/
def writeLogAt (me : Nat) (x : Nat × Nat) : BM Unit := do
  let s ← Prog.read id
  let «to» ← bread me rootdev (s.start + x.2 + 1)
  let «from» ← bread me rootdev x.1
  copyData «to» «from»
  bwrite me «to»
  brelse me «from»
  brelse me «to»

def writeLog (me : Nat) : BM Unit := do
  let s ← Prog.read id
  Prog.eachM (writeLogAt me) s.log.lh.zipIdx

/-- The header block with `n` and the block numbers filled in. -/
def putHead (b : Block) (lh : List Nat) : Block :=
  (b.putLE 0 4 lh.length).putWords 4 (fun i => lh.getD i 0) lh.length

def writeHead (me : Nat) : BM Unit := do
  let s ← Prog.read id
  let b ← bread me rootdev s.start
  modBuf b fun v => { v with data := putHead v.data s.log.lh }
  bwrite me b
  brelse me b

/-- One pass of the loop of `install_trans`. -/
def installAt (me : Nat) (recovering : Bool) (x : Nat × Nat) : BM Unit := do
  let s ← Prog.read id
  let lbuf ← bread me rootdev (s.start + x.2 + 1)
  let dbuf ← bread me rootdev x.1
  copyData dbuf lbuf
  bwrite me dbuf
  if !recovering then bunpin dbuf
  brelse me lbuf
  brelse me dbuf

def installTrans (me : Nat) (recovering : Bool) : BM Unit := do
  let s ← Prog.read id
  Prog.eachM (installAt me recovering) s.log.lh.zipIdx

def commit (me : Nat) : BM Unit := do
  let s ← Prog.read id
  if s.log.lh.length > 0 then
    writeLog me
    writeHead me
    installTrans me false
    Prog.update fun s => { s with log := { s.log with lh := [] } }
    writeHead me

end Xv6K230.Blk
