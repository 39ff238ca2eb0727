import Mathlib.Logic.Basic

/-! # The ways a kernel computation stops without returning

One constructor for each call of `panic` in the modelled functions, with its message beside it.
-/

namespace Xv6K230

inductive Stop where
  | kfree -- "kfree"
  | walk -- "walk"
  | mappagesVa -- "mappages: va not aligned"
  | mappagesSizeAlign -- "mappages: size not aligned"
  | mappagesSize -- "mappages: size"
  | mappagesRemap -- "mappages: remap"
  | kvmmap -- "kvmmap"
  | mapstacksKalloc -- "kalloc", in proc_mapstacks
  | uvmunmapAlign -- "uvmunmap: not aligned"
  | freewalkLeaf -- "freewalk: leaf"
  | uvmclear -- "uvmclear"
  | uvmcopyPte -- "uvmcopy: pte should exist"
  | uvmcopyPresent -- "uvmcopy: page not present"
  | loadseg -- "loadseg: address should exist"
  | exec -- "exec"
  | initExiting -- "init exiting"
  | freeingFreeBlock -- "freeing free block"
  | logTooBig -- "too big a transaction"
  | logOutside -- "log_write outside of trans"
  | igetNoInodes -- "iget: no inodes"
  | ilock -- "ilock"
  | ilockNoType -- "ilock: no type"
  | iunlock -- "iunlock"
  | bmapRange -- "bmap: out of range"
  | dirlookupNotDir -- "dirlookup not DIR"
  | dirlookupRead -- "dirlookup read"
  | dirlinkRead -- "dirlink read"
  | isdiremptyReadi -- "isdirempty: readi"
  | unlinkNlink -- "unlink: nlink < 1"
  | unlinkWritei -- "unlink: writei"
  | filedup -- "filedup"
  | fileclose -- "fileclose"
  | fileread -- "fileread"
  | filewrite -- "filewrite"
  | logCommitting -- "log.committing"
  | bget -- "bget: no buffers"
  | bwrite -- "bwrite"
  | brelse -- "brelse"
  | ramdiskLock -- "ramdisk_rw: buf not locked"
  | ramdiskBounds -- "ramdisk: read/write out of bounds"
  | nullPointer -- not a panic: a null pointer is followed
  | asleep
  | fuel
  deriving DecidableEq, Repr

def Stop.OfVm : Stop → Prop
  | .kfree | .walk | .mappagesVa | .mappagesSizeAlign | .mappagesSize | .mappagesRemap | .kvmmap
  | .mapstacksKalloc | .uvmunmapAlign | .freewalkLeaf | .uvmclear | .uvmcopyPte | .uvmcopyPresent
  | .loadseg => True
  | _ => False

end Xv6K230
