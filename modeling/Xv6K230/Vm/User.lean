import Xv6K230.Vm.PageTable

/-! # User memory

Growing, shrinking, copying and faulting of user address spaces, and the copies between kernel and user memory.
-/

namespace Xv6K230.Vm

open Riscv

def uvmdealloc (pagetable oldsz newsz : Nat) : MemM Nat :=
  if newsz ≥ oldsz then return oldsz
  else do
    if pgroundup newsz < pgroundup oldsz then
      uvmunmap pagetable (pgroundup newsz) ((pgroundup oldsz - pgroundup newsz) / pgsize) true
    return newsz

/-- The loop of `uvmalloc` over `n` pages from `a`; `oldsz` is already rounded up. -/
def uvmallocLoop (pagetable oldsz newsz : Nat) (xperm : Pte) : (n a : Nat) → MemM Nat
  | 0, _ => return newsz
  | n + 1, a => do
    let mem ← kalloc
    if mem = 0 then
      let _ ← uvmdealloc pagetable a oldsz
      return 0
    else
      memset mem 0
      let ok ← mappages pagetable a pgsize mem (pteR ||| pteU ||| xperm ||| pteA ||| pteD ||| pteTheadMaee)
      if ok then
        uvmallocLoop pagetable oldsz newsz xperm n (a + pgsize)
      else
        kfree mem
        let _ ← uvmdealloc pagetable a oldsz
        return 0

def uvmalloc (pagetable oldsz newsz : Nat) (xperm : Pte) : MemM Nat :=
  if newsz < oldsz then return oldsz
  else
    let a := pgroundup oldsz
    uvmallocLoop pagetable a newsz xperm ((newsz - a + (pgsize - 1)) / pgsize) a

def uvmclear (pagetable va : Nat) : MemM Unit := do
  match ← walk pagetable va false with
  | none => Prog.stop .uvmclear
  | some (pt, i) => Prog.update fun m => m.setPte pt i (m.pte pt i &&& ~~~pteU)

/-- The loop of `uvmcopy` over `n` pages from `i`; false is the result -1. -/
def uvmcopyLoop (old new : Nat) : (n i : Nat) → MemM Bool
  | 0, _ => return true
  | n + 1, i => do
    match ← walk old i false with
    | none => Prog.stop .uvmcopyPte
    | some (pt, j) =>
      let pte ← Prog.read fun m => m.pte pt j
      if !pte.has pteV then
        Prog.stop .uvmcopyPresent
      else
        let flags := pte &&& ~~~ppnMask
        let mem ← kalloc
        if mem = 0 then
          uvmunmap new 0 (i / pgsize) true
          return false
        else
          Prog.update fun m => m.setPage mem (m.page (pte2pa pte))
          let ok ← mappages new i pgsize mem flags
          if ok then
            uvmcopyLoop old new n (i + pgsize)
          else
            kfree mem
            uvmunmap new 0 (i / pgsize) true
            return false

def uvmcopy (old new sz : Nat) : MemM Bool := uvmcopyLoop old new ((sz + (pgsize - 1)) / pgsize) 0

def walkaddr (pagetable va : Nat) : MemM Nat :=
  if va ≥ maxva then return 0
  else do
    match ← walk pagetable va false with
    | none => return 0
    | some (pt, i) =>
      let pte ← Prog.read fun m => m.pte pt i
      if !pte.has pteV then return 0
      else if !pte.has pteU then return 0
      else return pte2pa pte

def ismapped (pagetable va : Nat) : MemM Bool := do
  match ← walk pagetable va false with
  | none => return false
  | some (pt, i) =>
    let pte ← Prog.read fun m => m.pte pt i
    return pte.has pteV

/-- `vmfault` for a current process with table `ptable` and size `psz`. -/
def vmfault (ptable psz pagetable va : Nat) : MemM Nat :=
  if va ≥ psz then return 0
  else do
    let va := pgrounddown va
    if ← ismapped pagetable va then
      return 0
    else
      let mem ← kalloc
      if mem = 0 then
        return 0
      else
        memset mem 0
        let ok ← mappages ptable va pgsize mem (pteW ||| pteU ||| pteR ||| pteA ||| pteD ||| pteTheadMaee)
        if ok then
          return mem
        else
          kfree mem
          return 0

/-- `memmove` of `l` to the physical address `pa + off` inside one page. -/
def storeBytes (pa off : Nat) (l : Text) : MemM Unit :=
  Prog.update fun m => m.setPage pa ((m.page pa).write off l)

/-- `walkaddr`, and `vmfault` if it finds nothing: how `copyout` and `copyin` find a page. -/
def faultIn (ptable psz pagetable va0 : Nat) : MemM Nat := do
  let pa0 ← walkaddr pagetable va0
  if pa0 = 0 then vmfault ptable psz pagetable va0 else return pa0

/-- The loop of `copyout`; every pass moves at least one byte, so `fuel` passes are
enough for `fuel` bytes. -/
def copyoutLoop (ptable psz pagetable : Nat) : (fuel dstva : Nat) → Text → MemM Bool
  | 0, _, _ => return true
  | fuel + 1, dstva, src =>
    if src = [] then return true
    else
      let va0 := pgrounddown dstva
      if va0 ≥ maxva then return false
      else do
        let pa0 ← faultIn ptable psz pagetable va0
        if pa0 = 0 then
          return false
        else
          match ← walk pagetable va0 false with
          | none => return false
          | some (pt, i) =>
            let pte ← Prog.read fun m => m.pte pt i
            if !pte.has pteW then
              return false
            else
              let n := min (pgsize - (dstva - va0)) src.length
              storeBytes pa0 (dstva - va0) (src.take n)
              copyoutLoop ptable psz pagetable fuel (va0 + pgsize) (src.drop n)

def copyout (ptable psz pagetable dstva : Nat) (src : Text) : MemM Bool :=
  copyoutLoop ptable psz pagetable src.length dstva src

/-- The loop of `copyin`: the bytes copied before it ended, and whether it copied all. -/
def copyinLoop (ptable psz pagetable : Nat) : (fuel srcva len : Nat) → Text →
    MemM (Text × Bool)
  | 0, _, _, acc => return (acc, true)
  | fuel + 1, srcva, len, acc =>
    if len = 0 then return (acc, true)
    else do
      let va0 := pgrounddown srcva
      let pa0 ← faultIn ptable psz pagetable va0
      if pa0 = 0 then
        return (acc, false)
      else
        let n := min (pgsize - (srcva - va0)) len
        let bytes ← Prog.read fun m => (m.page pa0).read (srcva - va0) n
        copyinLoop ptable psz pagetable fuel (va0 + pgsize) (len - n) (acc ++ bytes)

def copyin (ptable psz pagetable srcva len : Nat) : MemM (Text × Bool) :=
  copyinLoop ptable psz pagetable len srcva len []

/-- The loop of `copyinstr`: the bytes stored in `dst`, and whether a NUL was among them. -/
def copyinstrLoop (pagetable : Nat) : (fuel srcva max : Nat) → Text → MemM (Text × Bool)
  | 0, _, _, acc => return (acc, false)
  | fuel + 1, srcva, max, acc =>
    if max = 0 then return (acc, false)
    else
      let va0 := pgrounddown srcva
      if va0 ≥ maxva then return (acc, false)
      else do
        match ← walk pagetable va0 false with
        | none => return (acc, false)
        | some (pt, i) =>
          let pte ← Prog.read fun m => m.pte pt i
          if !pte.has pteV || !pte.has pteU then
            return (acc, false)
          else
            let n := min (pgsize - (srcva - va0)) max
            let bytes ← Prog.read fun m => (m.page (pte2pa pte)).read (srcva - va0) n
            let str := bytes.takeWhile (· ≠ 0)
            if str.length < bytes.length then
              return (acc ++ str ++ [0], true)
            else
              copyinstrLoop pagetable fuel (va0 + pgsize) (max - n) (acc ++ str)

def copyinstr (pagetable srcva max : Nat) : MemM (Text × Bool) :=
  copyinstrLoop pagetable max srcva max []

end Xv6K230.Vm
