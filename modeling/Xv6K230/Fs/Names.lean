import Xv6K230.Fs.Path

/-! # Calls on the name space

The system calls of `sysfile.c` that touch nothing but the file system, for a caller with current directory `cwd`.
-/

namespace Xv6K230.Fs

/-- `create` up to the point where `dp` is locked and has no entry `name`. -/
def createIn (dp : Ip) (name : Text) (type : UInt16) (major minor : Int16) : FsM (Option Ip) := do
  let d ← getInode dp
  match ← ialloc d.dev type with
  | none =>
    iunlockput dp
    return none
  | some ip =>
    ilock ip
    modDi ip fun x => { x with major := major, minor := minor, nlink := 1 }
    iupdate ip
    let i ← getInode ip
    -- "." and "..", then the entry in the parent
    let ok ← if type = tDir then do
        if ← dirlink ip [46] i.inum then dirlink ip [46, 46] d.inum else pure false
      else pure true
    let ok ← if ok then dirlink dp name i.inum else pure false
    if ok then
      if type = tDir then
        modDi dp fun x => { x with nlink := x.nlink + 1 }
        iupdate dp
      iunlockput dp
      return some ip
    else
      modDi ip fun x => { x with nlink := 0 }
      iupdate ip
      iunlockput ip
      iunlockput dp
      return none

def create (cwd : Ip) (path : Text) (type : UInt16) (major minor : Int16) : FsM (Option Ip) := do
  match ← nameiparent cwd path with
  | none => return none
  | some (dp, name) =>
    ilock dp
    match ← dirlookup dp name with
    | some (ip, _) =>
      iunlockput dp
      ilock ip
      let i ← getInode ip
      if type = tFile ∧ (i.di.type = tFile ∨ i.di.type = tDevice) then
        return some ip
      else
        iunlockput ip
        return none
    | none => createIn dp name type major minor

/-- The exit `bad` of `sys_link`. -/
def linkBad (ip : Ip) : FsM Int := do
  ilock ip
  modDi ip fun x => { x with nlink := x.nlink - 1 }
  iupdate ip
  iunlockput ip
  endOp
  return -1

def linkTo (cwd ip : Ip) (new : Text) : FsM Int := do
  match ← nameiparent cwd new with
  | none => linkBad ip
  | some (dp, name) =>
    ilock dp
    let d ← getInode dp
    let i ← getInode ip
    let ok ← if d.dev ≠ i.dev then pure false else dirlink dp name i.inum
    iunlockput dp
    if ok then
      iput ip
      endOp
      return 0
    else
      linkBad ip

def sysLink (cwd : Ip) (old new : Option Text) : FsM Int := do
  match old, new with
  | some old, some new =>
    beginOp
    match ← namei cwd old with
    | none =>
      endOp
      return -1
    | some ip =>
      ilock ip
      let i ← getInode ip
      if i.di.type = tDir then
        iunlockput ip
        endOp
        return -1
      else
        modDi ip fun x => { x with nlink := x.nlink + 1 }
        iupdate ip
        iunlock ip
        linkTo cwd ip new
  | _, _ => return -1

def isdirempty (dp : Ip) : FsM Bool := do
  let d ← getInode dp
  let r ← Prog.firstM (fun off => do
    let de ← readDirent dp off .isdiremptyReadi
    if de.inum ≠ 0 then return some () else return none)
    ((direntOffsets d.di.size.toNat).drop 2)
  return r.isNone

/-- The exit `bad` of `sys_unlink`. -/
def unlinkBad (dp : Ip) : FsM Int := do
  iunlockput dp
  endOp
  return -1

/-- `sys_unlink` from the point where the entry at `off` of `dp` has been found to name `ip`. -/
def unlinkEntry (dp ip : Ip) (off : Nat) : FsM Int := do
  ilock ip
  let i ← getInode ip
  if i.di.nlink < 1 then
    Prog.stop .unlinkNlink
  else
    let busy ← if i.di.type = tDir then (fun b => !b) <$> isdirempty ip else pure false
    if busy then
      iunlockput ip
      unlinkBad dp
    else
      let n ← writeiKernel dp (List.replicate direntSize 0) off
      if n ≠ direntSize then
        Prog.stop .unlinkWritei
      else
        if i.di.type = tDir then
          modDi dp fun x => { x with nlink := x.nlink - 1 }
          iupdate dp
        iunlockput dp
        modDi ip fun x => { x with nlink := x.nlink - 1 }
        iupdate ip
        iunlockput ip
        endOp
        return 0

def sysUnlink (cwd : Ip) (path : Option Text) : FsM Int := do
  match path with
  | none => return -1
  | some path =>
    beginOp
    match ← nameiparent cwd path with
    | none =>
      endOp
      return -1
    | some (dp, name) =>
      ilock dp
      if namecmp name [46] = 0 ∨ namecmp name [46, 46] = 0 then
        unlinkBad dp
      else
        match ← dirlookup dp name with
        | none => unlinkBad dp
        | some (ip, off) => unlinkEntry dp ip off

/-- `sys_mkdir` and `sys_mknod`: make an inode of the given type and drop it. -/
def makeNode (cwd : Ip) (path : Option Text) (type : UInt16) (major minor : Int16) : FsM Int := do
  beginOp
  let r ← match path with
    | none => pure none
    | some path => create cwd path type major minor
  match r with
  | none =>
    endOp
    return -1
  | some ip =>
    iunlockput ip
    endOp
    return 0

def sysMkdir (cwd : Ip) (path : Option Text) : FsM Int := makeNode cwd path tDir 0 0

def sysMknod (cwd : Ip) (path : Option Text) (major minor : Int16) : FsM Int :=
  makeNode cwd path tDevice major minor

end Xv6K230.Fs
