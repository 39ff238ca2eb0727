import Xv6K230.Kernel.Proc

/-! # Exec

`kexec` and `loadseg` of `exec.c`, and `sys_exec` with the argument pages it allocates.
-/

namespace Xv6K230

open Vm Fs Riscv

-- a field of a header read into a local structure
def field (l : Text) (off k : Nat) : Nat := Bytes.numLE ((l.drop off).take k)

def elfhdrSize : Nat := 64
def proghdrSize : Nat := 56
def elfMagic : Nat := 0x464C457F
def userstack : Nat := 1

def flags2perm (flags : Nat) : Pte :=
  (if flags &&& 1 ≠ 0 then pteX else 0#64) ||| (if flags &&& 2 ≠ 0 then pteW else 0#64)

/-- The loop of `loadseg`; every pass reads at least one byte. -/
def loadsegLoop (pagetable va : Nat) (ip : Ip) (offset sz : Nat) : (fuel i : Nat) → KM Bool
  | 0, _ => return true
  | fuel + 1, i =>
    if i < sz then do
      let a := uint64 (va + i)
      let pa ← onMem (walkaddr pagetable a)
      if pa = 0 then
        Prog.stop .loadseg
      else
        let n := min (sz - i) (pgsize - a % pgsize)
        let (r, l) ← onFs (readiKernel ip ((offset + i) % 2 ^ 32) n)
        onMem (storeBytes pa (a % pgsize) l)
        if r ≠ n then return false
        else loadsegLoop pagetable va ip offset sz fuel (i + n)
    else
      return true

def loadseg (pagetable va : Nat) (ip : Ip) (offset sz : Nat) : KM Bool :=
  loadsegLoop pagetable va ip offset sz sz 0

/-- The segment loop of `kexec`: whether it reached its end, and the size it reached. -/
def loadSegments (pagetable : Nat) (ip : Ip) : (n off sz : Nat) → KM (Bool × Nat)
  | 0, _, sz => return (true, sz)
  | n + 1, off, sz => do
    let (r, ph) ← onFs (readiKernel ip off proghdrSize)
    let vaddr := field ph 16 8
    let filesz := field ph 32 8
    let memsz := field ph 40 8
    if r ≠ proghdrSize then return (false, sz)
    else if field ph 0 4 ≠ 1 then loadSegments pagetable ip n ((off + proghdrSize) % 2 ^ 32) sz
    else if memsz < filesz then return (false, sz)
    else if uint64 (vaddr + memsz) < vaddr then return (false, sz)
    else
      let sz1 ← onMem (uvmalloc pagetable sz (uint64 (vaddr + memsz)) (flags2perm (field ph 4 4)))
      if sz1 = 0 then return (false, sz)
      else if ← loadseg pagetable vaddr ip (field ph 8 8 % 2 ^ 32) (filesz % 2 ^ 32) then
        loadSegments pagetable ip n ((off + proghdrSize) % 2 ^ 32) sz1
      else return (false, sz1)

def sub64 (a b : Nat) : Nat := (a + (2 ^ 64 - b % 2 ^ 64)) % 2 ^ 64

/-- Copy the argument strings to the stack; the addresses, last one first, and the new sp. -/
def pushArgs (p : Proc) (pagetable stackbase : Nat) : List Text → (argc sp : Nat) → List Nat →
    MemM (Option (List Nat × Nat))
  | [], _, sp, acc => return some (acc, sp)
  | s :: rest, argc, sp, acc => do
    if argc ≥ maxarg then
      return none
    else
      let sp := sub64 sp (s.length + 1)
      let sp := sp - sp % 16
      if sp < stackbase then
        return none
      else if ← copyout p.pagetable p.sz pagetable sp (s ++ [0]) then
        pushArgs p pagetable stackbase rest (argc + 1) sp (sp :: acc)
      else
        return none

/-- The user stack of the new image: guard page, strings and the array of their
addresses. The size of the image, and the final stack pointer if all of it fitted. -/
def buildStack (p : Proc) (pagetable sz : Nat) (argv : List Text) : MemM (Nat × Option Nat) := do
  let sz := pgroundup sz
  let sz1 ← uvmalloc pagetable sz (uint64 (sz + (userstack + 1) * pgsize)) pteW
  if sz1 = 0 then
    return (sz, none)
  else
    uvmclear pagetable (sub64 sz1 ((userstack + 1) * pgsize))
    let stackbase := sub64 sz1 (userstack * pgsize)
    match ← pushArgs p pagetable stackbase argv 0 sz1 [] with
    | none => return (sz1, none)
    | some (acc, sp) =>
      let sp := sub64 sp ((argv.length + 1) * 8)
      let sp := sp - sp % 16
      if sp < stackbase then
        return (sz1, none)
      else
        let ustack := (acc.reverse ++ [0]).flatMap (Bytes.bytesLE 8)
        if ← copyout p.pagetable p.sz pagetable sp ustack then
          return (sz1, some sp)
        else
          return (sz1, none)

/-- The registers that `kexec` sets in the trapframe: a1, epc and sp. -/
def setEntry (tf entry sp : Nat) : MemM Unit :=
  Prog.update fun m =>
    m.setPage tf ((((m.page tf).putLE 120 8 sp).putLE 24 8 entry).putLE 48 8 sp)

/-- The exit `bad` of `kexec` after the inode has been released. -/
def execBad (pagetable sz : Nat) : KM Int := do
  onMem (procFreepagetable pagetable sz)
  return -1

/-- The exit `bad` with the inode still locked; the table is 0 if there is none yet. -/
def execBadLocked (pagetable sz : Nat) (ip : Ip) : KM Int := do
  if pagetable ≠ 0 then onMem (procFreepagetable pagetable sz)
  onFs (iunlockput ip)
  onFs endOp
  return -1

def lastElem (path : Text) : Text := ((path.reverse.takeWhile (· ≠ slash)).reverse).take 15

/-- `kexec` from the point where the segments are loaded and the inode is released. -/
def execCommit (me : Pid) (path : Text) (argv : List Text) (pagetable sz entry : Nat) :
    KM Int := do
  let p ← getProc me
  match ← onMem (buildStack p pagetable sz argv) with
  | (sz, none) => execBad pagetable sz
  | (sz, some sp) =>
    onMem (setEntry p.trapframe entry sp)
    modProc me fun p => { p with name := lastElem path, pagetable := pagetable, sz := sz }
    onMem (procFreepagetable p.pagetable p.sz)
    return argv.length

def kexec (me : Pid) (path : Text) (argv : List Text) : KM Int := do
  let p ← getProc me
  match p.cwd with
  | none => return -1
  | some cwd =>
    onFs beginOp
    match ← onFs (namei cwd path) with
    | none =>
      onFs endOp
      return -1
    | some ip =>
      onFs (ilock ip)
      let (r, elf) ← onFs (readiKernel ip 0 elfhdrSize)
      if r ≠ elfhdrSize ∨ field elf 0 4 ≠ elfMagic then
        execBadLocked 0 0 ip
      else
        let tramp ← Prog.read Kernel.trampoline
        let pagetable ← onMem (procPagetable tramp p.trapframe)
        if pagetable = 0 then
          execBadLocked 0 0 ip
        else
          let (ok, sz) ← loadSegments pagetable ip (field elf 56 2) (field elf 32 8 % 2 ^ 32) 0
          if ok then
            onFs (iunlockput ip)
            onFs endOp
            execCommit me path argv pagetable sz (field elf 24 8)
          else
            execBadLocked pagetable sz ip

/-! ## Argument pages -/

def fetchaddr (p : Proc) (addr : Nat) : MemM (Option Nat) :=
  if addr ≥ p.sz ∨ uint64 (addr + 8) > p.sz then return none
  else do
    let (l, ok) ← copyin p.pagetable p.sz p.pagetable addr 8
    return if ok then some (Bytes.numLE l) else none

def fetchstr (p : Proc) (addr max : Nat) : MemM (Option Text) := do
  let (buf, ok) ← copyinstr p.pagetable addr max
  return if ok then some (buf.takeWhile (· ≠ 0)) else none

/-- The argument loop of `sys_exec`: the pages allocated so far, and the strings if the
terminating null pointer was reached. -/
def fetchArgs (p : Proc) (uargv : Nat) : (n i : Nat) → List Nat → List Text →
    MemM (List Nat × Option (List Text))
  | 0, _, pages, _ => return (pages, none)
  | n + 1, i, pages, strs => do
    match ← fetchaddr p (uint64 (uargv + 8 * i)) with
    | none => return (pages, none)
    | some uarg =>
      if uarg = 0 then
        return (pages, some strs)
      else
        let pg ← kalloc
        if pg = 0 then
          return (pages, none)
        else
          match ← fetchstr p uarg pgsize with
          | none => return (pages ++ [pg], none)
          | some s =>
            storeBytes pg 0 (s ++ [0])
            fetchArgs p uargv n (i + 1) (pages ++ [pg]) (strs ++ [s])

/-- The call of `kexec` in `sys_exec`, left out on the way to `bad`. -/
def execStrings (me : Pid) (path : Text) : Option (List Text) → KM Int
  | none => return -1
  | some argv => kexec me path argv

def sysExec (me : Pid) (path : Option Text) (uargv : Nat) : KM Int := do
  match path with
  | none => return -1
  | some path =>
    let p ← getProc me
    let (pages, strs) ← onMem (fetchArgs p uargv maxarg 0 [] [])
    let ret ← execStrings me path strs
    onMem (Prog.eachM kfree pages)
    return ret

end Xv6K230
