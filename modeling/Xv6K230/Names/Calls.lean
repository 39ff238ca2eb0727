import Xv6K230.Kernel.Offset
import Xv6K230.Kernel.Proc

/-! # Calls on the name space in sections

The calls of `sysfile.c` on paths and descriptors, cut where they hold no inode lock.
-/

namespace Xv6K230.Names

open Fs

/-- What `create` has found or made when it gives up the lock of the directory. -/
inductive Made where
  | failed
  | found (ip : Ip)
  | made (ip : Ip)

/-- What `sys_open` with `O_CREATE` has done by the end of the section that makes the inode. -/
inductive New where
  | failed
  | found (ip : Ip)
  | refused (ip : Ip)
  | opened (fd : Fd)

inductive Section : Type → Type where
  | beginOp : Section Unit
  | endOp : Section Unit
  | start (me : Pid) (absolute : Bool) : Section Ip
  | step (ip : Ip) (name : Text) (last : Bool) : Section (Option (Option Ip))
  | iput (ip : Ip) : Section Unit
  | look (ip : Ip) : Section Unit
  | make (dp : Ip) (name : Text) (type : UInt16) (major minor : Int16) : Section Made
  | openAt (me : Pid) (ip : Ip) (omode : Nat) : Section (Option Fd)
  | openNew (me : Pid) (dp : Ip) (name : Text) (omode : Nat) : Section New
  | enter (ip : Ip) : Section Bool
  | chdir (me : Pid) (ip : Ip) : Section Unit
  | linkUp (ip : Ip) : Section Bool
  | linkIn (dp ip : Ip) (name : Text) : Section Bool
  | linkDown (ip : Ip) : Section Unit
  | unlinkIn (dp : Ip) (name : Text) : Section (Option Ip)
  | close (me : Pid) (fd : Int32) : Section (Option (Option Ip))
  | dup (me : Pid) (fd : Int32) : Section Int
  | dupFd (me np : Pid) (fd : Fd) : Section Unit
  | dupCwd (me np : Pid) : Section Unit
  | file (me : Pid) (fd : Int32) : Section (Option File)
  | write (me : Pid) (fd : Int32) (src : Offset.Source) (n : Nat) : Section Int
  | panic (e : Stop) : Section Int

/-! ## What the sections do -/

/-- The start of `namex`. -/
def walkStart (cwd : Ip) (absolute : Bool) : FsM Ip := if absolute then iget rootdev rootino else idup cwd

/-- One pass of the loop of `namex`: none if the walk fails here, and else the next inode
or, at the last element of the path to a parent, nothing. -/
def walkStep (ip : Ip) (name : Text) (last : Bool) : FsM (Option (Option Ip)) := do
  ilock ip
  let i ← getInode ip
  if i.di.type ≠ tDir then
    iunlock ip
    return none
  else if last then
    iunlock ip
    return some none
  else
    match ← dirlookup ip name with
    | none =>
      iunlock ip
      return none
    | some (next, _) =>
      iunlock ip
      return some (some next)

def look (ip : Ip) : FsM Unit := do
  ilock ip
  iunlock ip

def dotsIn (ip : Ip) (isDir : Bool) (self parent : Nat) : FsM Bool :=
  if isDir then do
    if ← dirlink ip [46] self then dirlink ip [46, 46] parent else pure false
  else pure true

def entryIn (dp : Ip) (name : Text) (inum : Nat) (ok : Bool) : FsM Bool :=
  if ok then dirlink dp name inum else pure false

/-- The link from ".." of a new directory in `dp`. -/
def parentUp (dp : Ip) (isDir : Bool) : FsM Unit := do
  if isDir then
    modDi dp fun x => { x with nlink := x.nlink + 1 }
    iupdate dp

/-- The end of `create`, after the entries have or have not been made. -/
def createEnd (dp ip : Ip) (isDir ok : Bool) : FsM (Option Ip) := do
  if ok then
    parentUp dp isDir
    iunlockput dp
    return some ip
  else
    modDi ip fun x => { x with nlink := 0 }
    iupdate ip
    iunlockput ip
    iunlockput dp
    return none

/-- `create` from the lock of the directory on; a new inode is left locked. -/
def createAt (dp : Ip) (name : Text) (type : UInt16) (major minor : Int16) : FsM Made := do
  ilock dp
  match ← dirlookup dp name with
  | some (ip, _) =>
    iunlock dp
    return .found ip
  | none =>
    match ← createIn dp name type major minor with
    | none => return .failed
    | some ip => return .made ip

/-- `create` by a caller that drops a new inode. -/
def makeAt (dp : Ip) (name : Text) (type : UInt16) (major minor : Int16) : FsM Made := do
  match ← createAt dp name type major minor with
  | .made ip =>
    iunlock ip
    return .made ip
  | r => return r

/-- `sys_chdir` on the inode it has found. -/
def enter (ip : Ip) : FsM Bool := do
  ilock ip
  let i ← getInode ip
  iunlock ip
  return i.di.type = tDir

def linkUp (ip : Ip) : FsM Bool := do
  ilock ip
  let i ← getInode ip
  if i.di.type = tDir then
    iunlock ip
    return false
  else
    modDi ip fun x => { x with nlink := x.nlink + 1 }
    iupdate ip
    iunlock ip
    return true

def linkIn (dp ip : Ip) (name : Text) : FsM Bool := do
  ilock dp
  let d ← getInode dp
  let i ← getInode ip
  let ok ← if d.dev ≠ i.dev then pure false else dirlink dp name i.inum
  iunlock dp
  return ok

def linkDown (ip : Ip) : FsM Unit := do
  ilock ip
  modDi ip fun x => { x with nlink := x.nlink - 1 }
  iupdate ip
  iunlock ip

/-- Whether `sys_unlink` refuses because `ip` is a directory with entries. -/
def unlinkBusy (ip : Ip) (isDir : Bool) : FsM Bool := if isDir then (fun b => !b) <$> isdirempty ip else pure false

/-- The link from ".." of a directory that has been unlinked from `dp` goes. -/
def parentDown (dp : Ip) (isDir : Bool) : FsM Unit := do
  if isDir then
    modDi dp fun x => { x with nlink := x.nlink - 1 }
    iupdate dp

def unlinkClear (dp ip : Ip) (off : Nat) (isDir : Bool) : FsM (Option Ip) := do
  let n ← writeiKernel dp (List.replicate direntSize 0) off
  if n ≠ direntSize then
    Prog.stop .unlinkWritei
  else
    parentDown dp isDir
    iunlockput dp
    modDi ip fun x => { x with nlink := x.nlink - 1 }
    iupdate ip
    iunlock ip
    return some ip

/-- `sys_unlink` on the entry that has been found; both inodes are locked. -/
def unlinkFound (dp ip : Ip) (off : Nat) : FsM (Option Ip) := do
  let i ← getInode ip
  if i.di.nlink < 1 then
    Prog.stop .unlinkNlink
  else if ← unlinkBusy ip (i.di.type = tDir) then
    iunlockput ip
    iunlock dp
    return none
  else
    unlinkClear dp ip off (i.di.type = tDir)

/-- `sys_unlink` from the lock of the directory on: the unlinked inode. -/
def unlinkIn (dp : Ip) (name : Text) : FsM (Option Ip) := do
  ilock dp
  if namecmp name [46] = 0 ∨ namecmp name [46, 46] = 0 then
    iunlock dp
    return none
  else
    match ← dirlookup dp name with
    | none =>
      iunlock dp
      return none
    | some (ip, off) =>
      ilock ip
      unlinkFound dp ip off

/-- The start of `namex` for process `me`. -/
def startAt (me : Pid) (absolute : Bool) : KM Ip := do
  let p ← getProc me
  match p.cwd with
  | none => Prog.stop .nullPointer
  | some cwd => onFs (walkStart cwd absolute)

/-- `openInode` up to `iput` and `end_op`: the new descriptor. -/
def openLocked (me : Pid) (ip : Ip) (omode : Nat) : KM (Option Fd) := do
  let i ← Prog.read fun k => k.fs.itable ip
  if i.di.type = tDevice ∧ (i.di.major < 0 ∨ i.di.major.toInt ≥ ndev) then
    onFs (iunlock ip)
    return none
  else
    match ← filealloc with
    | none =>
      onFs (iunlock ip)
      return none
    | some f =>
      match ← fdalloc me f with
      | none =>
        fileclose me f
        onFs (iunlock ip)
        return none
      | some fd =>
        if i.di.type = tDevice then
          modFile f fun v => { v with type := .device, major := i.di.major }
        else
          modFile f fun v => { v with type := .inode, off := 0 }
        modFile f fun v => { v with
          ip := ip
          readable := omode &&& oWronly = 0
          writable := omode &&& oWronly ≠ 0 ∨ omode &&& oRdwr ≠ 0 }
        if omode &&& oTrunc ≠ 0 ∧ i.di.type = tFile then onFs (itrunc ip)
        onFs (iunlock ip)
        return some fd

def Admits (omode : Nat) (type : UInt16) : Prop :=
  if omode &&& oCreate ≠ 0 then type = tFile ∨ type = tDevice else ¬ (type = tDir ∧ omode ≠ 0)

instance (omode : Nat) (type : UInt16) : Decidable (Admits omode type) := by
  unfold Admits
  infer_instance

def openAt (me : Pid) (ip : Ip) (omode : Nat) : KM (Option Fd) := do
  onFs (ilock ip)
  let i ← Prog.read fun k => k.fs.itable ip
  if Admits omode i.di.type then
    openLocked me ip omode
  else
    onFs (iunlock ip)
    return none

def openNew (me : Pid) (dp : Ip) (name : Text) (omode : Nat) : KM New := do
  match ← onFs (createAt dp name tFile 0 0) with
  | .failed => return .failed
  | .found ip => return .found ip
  | .made ip =>
    match ← openLocked me ip omode with
    | none => return .refused ip
    | some fd => return .opened fd

/-- The end of `sys_chdir`; nobody else looks at `cwd` before it returns. -/
def chdirTo (me : Pid) (ip : Ip) : KM Unit := do
  let p ← getProc me
  match p.cwd with
  | none => Prog.stop .nullPointer
  | some cwd =>
    onFs (iput cwd)
    modProc me fun p => { p with cwd := some ip }

/-- `fileclose` up to `begin_op`: the inode that has to be dropped. -/
def dropFile (me : Pid) (f : Fp) : KM (Option Ip) := do
  let ff ← getFile f
  if ff.ref < 1 then
    Prog.stop .fileclose
  else if ff.ref - 1 > 0 then
    modFile f fun v => { v with ref := v.ref - 1 }
    return none
  else
    modFile f fun v => { v with ref := 0, type := .none }
    match ff.type with
    | .pipe =>
      pipeclose me ff.pipe ff.writable
      return none
    | .inode | .device => return some ff.ip
    | .none => return none

def closeFd (me : Pid) (fd : Int32) : KM (Option (Option Ip)) := do
  match ← argfd me fd with
  | none => return none
  | some (fd, f) =>
    setOfile me fd none
    return some (← dropFile me f)

/-- The part of `kfork` that concerns the current directory. -/
def dupCwd (me np : Pid) : KM Unit := do
  let p ← getProc me
  match p.cwd with
  | none => Prog.stop .nullPointer
  | some cwd =>
    let cwd ← onFs (idup cwd)
    modProc np fun q => { q with cwd := some cwd }

/-- What `filewrite` looks at first. -/
def fileAt (me : Pid) (fd : Int32) : KM (Option File) := do
  match ← argfd me fd with
  | none => return none
  | some (_, f) => return some (← getFile f)

/-- One chunk of `sys_write`. Only the process itself changes its descriptors, and an open
file keeps its mode, so a second look finds what `filewrite` has found. -/
def writeAt (me : Pid) (fd : Int32) (src : Offset.Source) (n : Nat) : KM Int := do
  match ← argfd me fd with
  | none => return -1
  | some (_, f) =>
    let v ← getFile f
    if v.writable ∧ v.type = .inode then Offset.filewriteChunk f src.copyin n else return -1

def Section.run : (β : Type) → Section β → KM β
  | _, .beginOp => onFs Fs.beginOp
  | _, .endOp => onFs Fs.endOp
  | _, .start me absolute => startAt me absolute
  | _, .step ip name last => onFs (walkStep ip name last)
  | _, .iput ip => onFs (Fs.iput ip)
  | _, .look ip => onFs (Names.look ip)
  | _, .make dp name type major minor => onFs (makeAt dp name type major minor)
  | _, .openAt me ip omode => Names.openAt me ip omode
  | _, .openNew me dp name omode => Names.openNew me dp name omode
  | _, .enter ip => onFs (Names.enter ip)
  | _, .chdir me ip => chdirTo me ip
  | _, .linkUp ip => onFs (Names.linkUp ip)
  | _, .linkIn dp ip name => onFs (Names.linkIn dp ip name)
  | _, .linkDown ip => onFs (Names.linkDown ip)
  | _, .unlinkIn dp name => onFs (Names.unlinkIn dp name)
  | _, .close me fd => closeFd me fd
  | _, .dup me fd => sysDup me fd
  | _, .dupFd me np fd => dupOfile me np fd
  | _, .dupCwd me np => Names.dupCwd me np
  | _, .file me fd => fileAt me fd
  | _, .write me fd src n => writeAt me fd src n
  | _, .panic e => Prog.stop e

/-! ## The calls -/

abbrev Coded : Type → Type 1 := Code Section

def sect {α : Type} (l : Section α) : Coded α := Code.section_ l

/-- The loop of `namex`; the fuel suffices if it is more than the length of the path. -/
def walkCode (parent : Bool) : (fuel : Nat) → Ip → Text → Coded (Option (Ip × Text))
  | 0, _, _ => return none
  | fuel + 1, ip, path =>
    match skipelem path with
    | none =>
      if parent then do
        sect (.iput ip)
        return none
      else
        return some (ip, [])
    | some (name, rest) => do
      match ← sect (.step ip name (parent && rest = [])) with
      | none =>
        sect (.iput ip)
        return none
      | some none => return some (ip, name)
      | some (some next) =>
        sect (.iput ip)
        walkCode parent fuel next rest

def pathCode (me : Pid) (parent : Bool) (path : Text) : Coded (Option (Ip × Text)) := do
  let ip ← sect (.start me (path.head? = some slash))
  walkCode parent (path.length + 1) ip path

/-- `sys_mkdir` and `sys_mknod`. -/
def makeCode (me : Pid) (path : Text) (type : UInt16) (major minor : Int16) : Coded Int := do
  match ← pathCode me true path with
  | none => return -1
  | some (dp, name) =>
    match ← sect (.make dp name type major minor) with
    | .failed => return -1
    | .found ip =>
      sect (.iput dp)
      sect (.look ip)
      sect (.iput ip)
      return -1
    | .made ip =>
      sect (.iput ip)
      return 0

def openExisting (me : Pid) (ip : Ip) (omode : Nat) : Coded Int := do
  match ← sect (.openAt me ip omode) with
  | some fd => return fd.val
  | none =>
    sect (.iput ip)
    return -1

def openCode (me : Pid) (path : Text) (omode : Nat) : Coded Int := do
  if omode &&& oCreate ≠ 0 then
    match ← pathCode me true path with
    | none => return -1
    | some (dp, name) =>
      match ← sect (.openNew me dp name omode) with
      | .failed => return -1
      | .found ip =>
        sect (.iput dp)
        openExisting me ip omode
      | .refused ip =>
        sect (.iput ip)
        return -1
      | .opened fd => return fd.val
  else
    match ← pathCode me false path with
    | none => return -1
    | some (ip, _) => openExisting me ip omode

def chdirCode (me : Pid) (path : Text) : Coded Int := do
  match ← pathCode me false path with
  | none => return -1
  | some (ip, _) =>
    if ← sect (.enter ip) then
      sect (.chdir me ip)
      return 0
    else
      sect (.iput ip)
      return -1

/-- The exit `bad` of `sys_link`. -/
def linkBadCode (ip : Ip) : Coded Int := do
  sect (.linkDown ip)
  sect (.iput ip)
  return -1

def linkCode (me : Pid) (old new : Text) : Coded Int := do
  match ← pathCode me false old with
  | none => return -1
  | some (ip, _) =>
    if ← sect (.linkUp ip) then
      match ← pathCode me true new with
      | none => linkBadCode ip
      | some (dp, name) =>
        let ok ← sect (.linkIn dp ip name)
        sect (.iput dp)
        if ok then
          sect (.iput ip)
          return 0
        else
          linkBadCode ip
    else
      sect (.iput ip)
      return -1

def unlinkCode (me : Pid) (path : Text) : Coded Int := do
  match ← pathCode me true path with
  | none => return -1
  | some (dp, name) =>
    match ← sect (.unlinkIn dp name) with
    | none =>
      sect (.iput dp)
      return -1
    | some ip =>
      sect (.iput ip)
      return 0

/-- A call between `begin_op` and `end_op`. -/
def inOp {α : Type} (c : Coded α) : Coded α := do
  sect .beginOp
  let a ← c
  sect .endOp
  return a

def closeCode (me : Pid) (fd : Int32) : Coded Int := do
  match ← sect (.close me fd) with
  | none => return -1
  | some none => return 0
  | some (some ip) =>
    inOp (sect (.iput ip))
    return 0

def forkCode (me np : Pid) : List Fd → Coded Unit
  | [] => sect (.dupCwd me np)
  | fd :: fds => do
    sect (.dupFd me np fd)
    forkCode me np fds

def writeLoop (me : Pid) (fd : Int32) (src : Offset.Source) (n : Nat) : (fuel i : Nat) → Coded Int
  | 0, i => return if i = n then n else -1
  | fuel + 1, i =>
    if i < n then do
      let r ← inOp (sect (.write me fd (src.shift i) (min (n - i) ((maxopblocks - 1 - 1 - 2) / 2 * bsize))))
      if r ≠ (min (n - i) ((maxopblocks - 1 - 1 - 2) / 2 * bsize) : Nat) then return -1
      else writeLoop me fd src n fuel (i + min (n - i) ((maxopblocks - 1 - 1 - 2) / 2 * bsize))
    else
      return if i = n then n else -1

/-- `other` is the result for a pipe or a device. -/
def writeCode (me : Pid) (fd : Int32) (src : Offset.Source) (n : Int32) (other : Int) : Coded Int := do
  match ← sect (.file me fd) with
  | none => return -1
  | some v =>
    if !v.writable then
      return -1
    else
      match v.type with
      | .pipe | .device => return other
      | .inode => if n < 0 then return -1 else writeLoop me fd src n.toInt.toNat n.toInt.toNat 0
      | .none => sect (.panic .filewrite)

end Xv6K230.Names
