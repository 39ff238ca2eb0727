import Xv6K230.Kernel.State

/-! # Open files and pipes

`file.c`, the part of `pipe.c` that allocates and closes pipes, and the system calls of `sysfile.c` that work on
descriptors.
-/

namespace Xv6K230

open Vm Fs

def filealloc : KM (Option Fp) := do
  let t ← Prog.read Kernel.ftable
  match (List.finRange nfile).find? fun f => (t f).ref == 0 with
  | none => return none
  | some f =>
    modFile f fun v => { v with ref := 1 }
    return some f

def filedup (f : Fp) : KM Unit := do
  let v ← getFile f
  if v.ref < 1 then Prog.stop .filedup else modFile f fun v => { v with ref := v.ref + 1 }

def wakeOne (me : Pid) (chan : Chan) (j : Pid) (p : Proc) : Proc :=
  if j ≠ me ∧ p.state = .sleeping ∧ p.chan = some chan then { p with state := .runnable } else p

def wakeup (me : Pid) (chan : Chan) : KM Unit :=
  Prog.update fun k => { k with proc := fun j => wakeOne me chan j (k.proc j) }

def pipeclose (me : Pid) (pi : Nat) (writable : Bool) : KM Unit := do
  if writable then
    Prog.update fun k => k.setPipe pi { k.pipes pi with writeopen := false }
    wakeup me (.nread pi)
  else
    Prog.update fun k => k.setPipe pi { k.pipes pi with readopen := false }
    wakeup me (.nwrite pi)
  let v ← Prog.read fun k => k.pipes pi
  if !v.readopen && !v.writeopen then onMem (kfree pi)

def fileclose (me : Pid) (f : Fp) : KM Unit := do
  let ff ← getFile f
  if ff.ref < 1 then
    Prog.stop .fileclose
  else if ff.ref - 1 > 0 then
    modFile f fun v => { v with ref := v.ref - 1 }
  else
    modFile f fun v => { v with ref := 0, type := .none }
    match ff.type with
    | .pipe => pipeclose me ff.pipe ff.writable
    | .inode | .device =>
      onFs beginOp
      onFs (iput ff.ip)
      onFs endOp
    | .none => return ()

/-- The exit `bad` of `pipealloc`, with the files allocated so far. -/
def pipeallocBad (me : Pid) (f0 f1 : Option Fp) : KM (Option (Fp × Fp)) := do
  match f0 with
  | some f => fileclose me f
  | none => pure ()
  match f1 with
  | some f => fileclose me f
  | none => pure ()
  return none

def pipealloc (me : Pid) : KM (Option (Fp × Fp)) := do
  match ← filealloc with
  | none => pipeallocBad me none none
  | some f0 =>
    match ← filealloc with
    | none => pipeallocBad me (some f0) none
    | some f1 =>
      let pi ← onMem kalloc
      if pi = 0 then
        pipeallocBad me (some f0) (some f1)
      else
        Prog.update fun k => k.setPipe pi
          { k.pipes pi with readopen := true, writeopen := true, nwrite := 0, nread := 0 }
        modFile f0 fun v => { v with type := .pipe, readable := true, writable := false, pipe := pi }
        modFile f1 fun v => { v with type := .pipe, readable := false, writable := true, pipe := pi }
        return some (f0, f1)

/-- `fileread` on an inode. `copy` tells which copies to the caller succeed; the second result is
what has been delivered. -/
def filereadInode (f : Fp) (copy : Nat → Text → Bool) (n : Nat) : KM (Int × Text) := do
  let v ← getFile f
  onFs (ilock v.ip)
  let v ← getFile f
  let (r, bytes) ← onFs (readi v.ip copy v.off n)
  if r > 0 then modFile f fun v => { v with off := (v.off + r.toNat) % 2 ^ 32 }
  onFs (iunlock v.ip)
  return (r, bytes)

/-- `other` is the result of `piperead` or of the device. -/
def fileread (f : Fp) (copy : Nat → Text → Bool) (n : Int32) (other : Int) : KM Int := do
  let v ← getFile f
  if !v.readable then
    return -1
  else
    match v.type with
    | .pipe | .device => return other
    | .inode => return (← filereadInode f copy n.toUInt32.toNat).1
    | .none => Prog.stop .fileread

/-- `filewrite` on an inode, one chunk after another; `i` bytes have been written. -/
def filewriteLoop (f : Fp) (src : CopyIn) (n : Nat) : (fuel i : Nat) → KM Int
  | 0, i => return if i = n then n else -1
  | fuel + 1, i =>
    if i < n then do
      let n1 := min (n - i) ((maxopblocks - 1 - 1 - 2) / 2 * bsize)
      let v ← getFile f
      onFs beginOp
      onFs (ilock v.ip)
      let r ← onFs (writei v.ip (fun k => src (i + k)) v.off n1)
      if r > 0 then modFile f fun v => { v with off := (v.off + r.toNat) % 2 ^ 32 }
      onFs (iunlock v.ip)
      onFs endOp
      if r ≠ n1 then return -1 else filewriteLoop f src n fuel (i + n1)
    else
      return if i = n then n else -1

/-- `other` is the result of `pipewrite` or of the device, whose buffers are not part of
this state. -/
def filewrite (f : Fp) (src : CopyIn) (n : Int32) (other : Int) : KM Int := do
  let v ← getFile f
  if !v.writable then
    return -1
  else
    match v.type with
    | .pipe | .device => return other
    | .inode =>
      if n < 0 then return -1 else filewriteLoop f src n.toInt.toNat n.toInt.toNat 0
    | .none => Prog.stop .filewrite

/-! ## Descriptors -/

def argfd (me : Pid) (fd : Int32) : KM (Option (Fd × Fp)) := do
  let p ← getProc me
  if h : 0 ≤ fd.toInt ∧ fd.toInt.toNat < nofile then
    return (p.ofile ⟨fd.toInt.toNat, h.2⟩).map fun f => (⟨fd.toInt.toNat, h.2⟩, f)
  else
    return none

def setOfile (me : Pid) (fd : Fd) (v : Option Fp) : KM Unit :=
  modProc me fun p => { p with ofile := fun d => if d = fd then v else p.ofile d }

def fdalloc (me : Pid) (f : Fp) : KM (Option Fd) := do
  let p ← getProc me
  match (List.finRange nofile).find? fun d => (p.ofile d).isNone with
  | none => return none
  | some fd =>
    setOfile me fd (some f)
    return some fd

def sysDup (me : Pid) (fd : Int32) : KM Int := do
  match ← argfd me fd with
  | none => return -1
  | some (_, f) =>
    match ← fdalloc me f with
    | none => return -1
    | some fd =>
      filedup f
      return fd.val

def sysClose (me : Pid) (fd : Int32) : KM Int := do
  match ← argfd me fd with
  | none => return -1
  | some (fd, f) =>
    setOfile me fd none
    fileclose me f
    return 0

def sysWrite (me : Pid) (fd : Int32) (src : CopyIn) (n : Int32) (other : Int) :
    KM Int := do
  match ← argfd me fd with
  | none => return -1
  | some (_, f) => filewrite f src n other

-- O_WRONLY, O_RDWR, O_CREATE and O_TRUNC of fcntl.h
def oWronly : Nat := 0x001
def oRdwr : Nat := 0x002
def oCreate : Nat := 0x200
def oTrunc : Nat := 0x400

/-- `sys_open` after the inode has been found and locked. -/
def openInode (me : Pid) (ip : Ip) (omode : Nat) : KM Int := do
  let i ← Prog.read fun k => k.fs.itable ip
  if i.di.type = tDevice ∧ (i.di.major < 0 ∨ i.di.major.toInt ≥ ndev) then
    onFs (iunlockput ip)
    onFs endOp
    return -1
  else
    match ← filealloc with
    | none =>
      onFs (iunlockput ip)
      onFs endOp
      return -1
    | some f =>
      match ← fdalloc me f with
      | none =>
        fileclose me f
        onFs (iunlockput ip)
        onFs endOp
        return -1
      | some fd =>
        if i.di.type = tDevice then
          modFile f fun v => { v with type := .device, major := i.di.major }
        else
          modFile f fun v => { v with type := .inode, off := 0 }
        modFile f fun v => { v with
          ip := ip
          readable := omode &&& oWronly = 0
          writable := omode &&& oWronly ≠ 0 ∨ omode &&& oRdwr ≠ 0 }
        if omode &&& oTrunc ≠ 0 ∧ i.di.type = tFile then onFs (itrunc ip)
        onFs (iunlock ip)
        onFs endOp
        return fd.val

/-- `omode` is the `int` flag argument as a bit pattern. -/
def sysOpen (me : Pid) (path : Option Text) (omode : Nat) : KM Int := do
  let p ← getProc me
  match path, p.cwd with
  | none, _ => return -1
  | _, none => Prog.stop .nullPointer
  | some path, some cwd =>
    onFs beginOp
    if omode &&& oCreate ≠ 0 then
      match ← onFs (create cwd path tFile 0 0) with
      | none =>
        onFs endOp
        return -1
      | some ip => openInode me ip omode
    else
      match ← onFs (namei cwd path) with
      | none =>
        onFs endOp
        return -1
      | some ip =>
        onFs (ilock ip)
        let i ← Prog.read fun k => k.fs.itable ip
        if i.di.type = tDir ∧ omode ≠ 0 then
          onFs (iunlockput ip)
          onFs endOp
          return -1
        else
          openInode me ip omode

def sysChdir (me : Pid) (path : Option Text) : KM Int := do
  onFs beginOp
  let p ← getProc me
  match path, p.cwd with
  | none, _ =>
    onFs endOp
    return -1
  | _, none => Prog.stop .nullPointer
  | some path, some cwd =>
    match ← onFs (namei cwd path) with
    | none =>
      onFs endOp
      return -1
    | some ip =>
      onFs (ilock ip)
      let i ← Prog.read fun k => k.fs.itable ip
      if i.di.type ≠ tDir then
        onFs (iunlockput ip)
        onFs endOp
        return -1
      else
        onFs (iunlock ip)
        onFs (iput cwd)
        onFs endOp
        modProc me fun p => { p with cwd := some ip }
        return 0

/-- A call of `sysfile.c` that needs only the caller's current directory. -/
def withCwd (me : Pid) (call : Ip → FsM Int) : KM Int := do
  let p ← getProc me
  match p.cwd with
  | none => Prog.stop .nullPointer
  | some cwd => onFs (call cwd)

/-- The exits of `sys_pipe` that give both ends back. -/
def pipeUndo (me : Pid) (fds : List Fd) (rf wf : Fp) : KM Int := do
  Prog.eachM (fun fd => setOfile me fd none) fds
  fileclose me rf
  fileclose me wf
  return -1

def sysPipe (me : Pid) (fdarray : Nat) : KM Int := do
  match ← pipealloc me with
  | none => return -1
  | some (rf, wf) =>
    match ← fdalloc me rf with
    | none => pipeUndo me [] rf wf
    | some fd0 =>
      match ← fdalloc me wf with
      | none => pipeUndo me [fd0] rf wf
      | some fd1 =>
        let p ← getProc me
        let ok ← onMem (copyout p.pagetable p.sz p.pagetable fdarray (Bytes.bytesLE 4 fd0.val))
        let ok ← if ok then
            onMem (copyout p.pagetable p.sz p.pagetable (fdarray + 4) (Bytes.bytesLE 4 fd1.val))
          else pure false
        if ok then return 0 else pipeUndo me [fd0, fd1] rf wf

end Xv6K230
