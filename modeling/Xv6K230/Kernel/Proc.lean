import Xv6K230.Kernel.File

/-! # Processes

The life of a process from `proc.c`: allocation and release of table slots, `kfork`, `kexit`, `kwait` and `kkill`.
-/

namespace Xv6K230

open Vm Fs Riscv

def procPagetable (trampoline trapframe : Nat) : MemM Nat := do
  let pagetable ← uvmcreate
  if pagetable = 0 then
    return 0
  else if !(← mappages pagetable trampolineVa pgsize trampoline (pteR ||| pteX ||| pteA ||| pteTheadMaee)) then
    uvmfree pagetable 0
    return 0
  else if !(← mappages pagetable trapframeVa pgsize trapframe
      (pteR ||| pteW ||| pteA ||| pteD ||| pteTheadMaee)) then
    uvmunmap pagetable trampolineVa 1 false
    uvmfree pagetable 0
    return 0
  else
    return pagetable

def procFreepagetable (pagetable sz : Nat) : MemM Unit := do
  uvmunmap pagetable trampolineVa 1 false
  uvmunmap pagetable trapframeVa 1 false
  uvmfree pagetable sz

def freePages (p : Proc) : MemM Unit := do
  if p.trapframe ≠ 0 then kfree p.trapframe
  if p.pagetable ≠ 0 then procFreepagetable p.pagetable p.sz

/-- The fields that `freeproc` clears; `ofile` and `cwd` are not among them. -/
def Proc.clear (p : Proc) : Proc :=
  { p with
    trapframe := 0
    pagetable := 0
    sz := 0
    pid := 0
    parent := none
    name := []
    chan := none
    killed := false
    xstate := 0
    state := .unused }

def freeproc (i : Pid) : KM Unit := do
  let p ← getProc i
  onMem (freePages p)
  modProc i Proc.clear

@[simps]
def Kernel.bumpPid (k : Kernel) : Kernel := { k with nextpid := k.nextpid + 1 }

def allocpid : KM Int32 := do
  let pid ← Prog.read Kernel.nextpid
  Prog.update Kernel.bumpPid
  return pid

def findUnused (t : Pid → Proc) : Option Pid :=
  (List.finRange nproc).find? fun i => (t i).state == .unused

/-- `allocproc` from the label `found` on. `susp` of the new process is cleared: its
context starts it at `forkret`. -/
def allocSlot (i : Pid) : KM (Option Pid) := do
  let pid ← allocpid
  modProc i fun p => { p with pid := pid, state := .used }
  let tf ← onMem kalloc
  modProc i fun p => { p with trapframe := tf }
  if tf = 0 then
    freeproc i
    return none
  else
    let tramp ← Prog.read Kernel.trampoline
    let pagetable ← onMem (procPagetable tramp tf)
    modProc i fun p => { p with pagetable := pagetable }
    if pagetable = 0 then
      freeproc i
      return none
    else
      modProc i fun p => { p with susp := none }
      return some i

def allocproc : KM (Option Pid) := do
  let t ← Prog.read Kernel.proc
  match findUnused t with
  | none => return none
  | some i => allocSlot i

def initName : Text := [105, 110, 105, 116] -- "init"

@[simps]
def Kernel.setInit (k : Kernel) (i : Pid) : Kernel := { k with initproc := some i }

def userinit : KM Unit := do
  match ← allocproc with
  | none => Prog.stop .nullPointer
  | some i =>
    Prog.update fun k => k.setInit i
    -- namei("/") names the root without reading it
    let cwd ← onFs (iget rootdev rootino)
    modProc i fun p =>
      { p with name := initName, cwd := some cwd, sz := 0, state := .runnable, susp := some .first }

def growproc (me : Pid) (n : Int32) : KM Bool := do
  let p ← getProc me
  if n > 0 then
    if uint64 (p.sz + n.toInt.toNat) > trapframeVa then
      return false
    else
      let sz ← onMem (uvmalloc p.pagetable p.sz (uint64 (p.sz + n.toInt.toNat)) pteW)
      if sz = 0 then
        return false
      else
        modProc me fun p => { p with sz := sz }
        return true
  else if n < 0 then
    let sz ← onMem (uvmdealloc p.pagetable p.sz ((p.sz + n.toInt) % 2 ^ 64).toNat)
    modProc me fun p => { p with sz := sz }
    return true
  else
    return true

/-- One pass of the descriptor loop of `kfork`. -/
def dupOfile (me np : Pid) (fd : Fd) : KM Unit := do
  let p ← getProc me
  match p.ofile fd with
  | none => return ()
  | some f =>
    filedup f
    setOfile np fd (some f)

/-- `*(np->trapframe) = *(p->trapframe); np->trapframe->a0 = 0;` -/
def copyTrapframe (src dst : Nat) : MemM Unit :=
  Prog.update fun m => m.setPage dst (((m.page dst).write 0 ((m.page src).read 0 288)).putLE 112 8 0)

def kfork (me : Pid) : KM Int32 := do
  match ← allocproc with
  | none => return -1
  | some np =>
    let p ← getProc me
    let q ← getProc np
    if !(← onMem (uvmcopy p.pagetable q.pagetable p.sz)) then
      freeproc np
      return -1
    else
      modProc np fun q => { q with sz := p.sz }
      onMem (copyTrapframe p.trapframe q.trapframe)
      Prog.eachM (dupOfile me np) (List.finRange nofile)
      match p.cwd with
      | none => Prog.stop .nullPointer
      | some cwd =>
        let cwd ← onFs (idup cwd)
        modProc np fun q => { q with cwd := some cwd, name := p.name }
        modProc np fun q => { q with parent := some me, state := .runnable }
        return q.pid

def reparent (me : Pid) : KM Unit := do
  let init ← Prog.read Kernel.initproc
  Prog.eachM (fun pp => do
    let q ← getProc pp
    if q.parent = some me then
      modProc pp fun q => { q with parent := init }
      match init with
      | some i => wakeup me (.proc i)
      | none => return ()) (List.finRange nproc)

def kexit (me : Pid) (status : Int32) : KM Unit := do
  let k ← Prog.read id
  if k.initproc = some me then
    Prog.stop .initExiting
  else
    -- the source has the calls that close the files and drop the directory commented out
    reparent me
    let p ← getProc me
    match p.parent with
    | some q => wakeup me (.proc q)
    | none => pure ()
    modProc me fun p => { p with xstate := status, state := .zombie }

/-- What one pass of `kwait` over the table does with the child `pp`. -/
def waitOn (me : Pid) (addr : Nat) (pp : Pid) : KM (Option Int32) := do
  let q ← getProc pp
  if q.parent = some me ∧ q.state = .zombie then
    let p ← getProc me
    let ok ← if addr = 0 then pure true
      else onMem (copyout p.pagetable p.sz p.pagetable addr (Bytes.bytesLE 4 q.xstate.toUInt32.toNat))
    if ok then
      freeproc pp
      return some q.pid
    else
      return some (-1)
  else
    return none

/-- One pass of the loop of `kwait`; none if the caller went to sleep. -/
def kwait (me : Pid) (addr : Nat) : KM (Option Int32) := do
  match ← Prog.firstM (waitOn me addr) (List.finRange nproc) with
  | some r => return some r
  | none =>
    let k ← Prog.read id
    if (∀ pp ∈ List.finRange nproc, (k.proc pp).parent ≠ some me) ∨ (k.proc me).killed then
      return some (-1)
    else
      modProc me fun p =>
        { p with chan := some (.proc me), state := .sleeping, susp := some (.wait addr) }
      return none

def findPid (t : Pid → Proc) (pid : Int32) : Option Pid :=
  (List.finRange nproc).find? fun i => (t i).pid == pid

def kkill (pid : Int32) : KM Int32 := do
  let t ← Prog.read Kernel.proc
  match findPid t pid with
  | none => return -1
  | some i =>
    modProc i fun p =>
      { p with killed := true, state := if p.state = .sleeping then .runnable else p.state }
    return 0

def setkilled (i : Pid) : KM Unit := modProc i fun p => { p with killed := true }

end Xv6K230
