import Xv6K230.Fs.Inode

/-! # Directories and path names

Directory lookup and insertion, and path resolution, from `fs.c` and `string.c`.
-/

namespace Xv6K230.Fs

def strncmp : Text → Text → Nat → Int
  | _, _, 0 => 0
  | p, q, n + 1 =>
    let c := p.headD 0
    let d := q.headD 0
    if c ≠ 0 ∧ c = d then strncmp p.tail q.tail n else (c.toNat : Int) - d.toNat

def namecmp (s t : Text) : Int := strncmp s t dirsiz

/-- The entry at byte `off` of directory `dp`; `e` is the panic of the caller. -/
def readDirent (dp : Ip) (off : Nat) (e : Stop) : FsM Dirent := do
  let (r, l) ← readiKernel dp off direntSize
  if r ≠ direntSize then Prog.stop e else return Dirent.ofBytes l

/-- The offsets that the directory loops visit in a directory of `size` bytes. -/
def direntOffsets (size : Nat) : List Nat :=
  (List.range ((size + (direntSize - 1)) / direntSize)).map (· * direntSize)

def dirlookup (dp : Ip) (name : Text) : FsM (Option (Ip × Nat)) := do
  let d ← getInode dp
  if d.di.type ≠ tDir then
    Prog.stop .dirlookupNotDir
  else
    Prog.firstM (fun off => do
      let de ← readDirent dp off .dirlookupRead
      if de.inum = 0 then
        return none
      else if namecmp name de.name = 0 then
        let ip ← iget d.dev de.inum.toNat
        return some (ip, off)
      else
        return none) (direntOffsets d.di.size.toNat)

def dirlink (dp : Ip) (name : Text) (inum : Nat) : FsM Bool := do
  match ← dirlookup dp name with
  | some (ip, _) =>
    iput ip
    return false
  | none =>
    let d ← getInode dp
    let size := d.di.size.toNat
    let slot ← Prog.firstM (fun off => do
      let de ← readDirent dp off .dirlinkRead
      if de.inum = 0 then return some off else return none) (direntOffsets size)
    -- without an empty entry the loop leaves off at the end
    let off := slot.getD ((size + (direntSize - 1)) / direntSize * direntSize)
    let de : Dirent := ⟨UInt16.ofNat inum, name⟩
    return (← writeiKernel dp de.toBytes off) = direntSize

/-! ## Paths -/

def slash : UInt8 := 47

/-- `skipelem`: the cut first element and the rest of the path, or none if no name is left. -/
def skipelem (path : Text) : Option (Text × Text) :=
  let path := path.dropWhile (· = slash)
  if path = [] then none
  else
    let elem := path.takeWhile (· ≠ slash)
    let rest := (path.dropWhile (· ≠ slash)).dropWhile (· = slash)
    some (elem.take dirsiz, rest)

/-- The loop of `namex`; a path of `n` bytes has at most `n` elements. -/
def namexLoop (nameiparent : Bool) : (fuel : Nat) → Ip → Text → FsM (Option (Ip × Text))
  | 0, _, _ => Prog.stop .fuel
  | fuel + 1, ip, path =>
    match skipelem path with
    | none =>
      if nameiparent then do
        iput ip
        return none
      else
        return some (ip, [])
    | some (name, rest) => do
      ilock ip
      let i ← getInode ip
      if i.di.type ≠ tDir then
        iunlockput ip
        return none
      else if nameiparent ∧ rest = [] then
        iunlock ip
        return some (ip, name)
      else
        match ← dirlookup ip name with
        | none =>
          iunlockput ip
          return none
        | some (next, _) =>
          iunlockput ip
          namexLoop nameiparent fuel next rest

def namex (cwd : Ip) (path : Text) (nameiparent : Bool) : FsM (Option (Ip × Text)) := do
  let ip ← if path.head? = some slash then iget rootdev rootino else idup cwd
  namexLoop nameiparent (path.length + 1) ip path

def namei (cwd : Ip) (path : Text) : FsM (Option Ip) := do
  let r ← namex cwd path false
  return r.map Prod.fst

def nameiparent (cwd : Ip) (path : Text) : FsM (Option (Ip × Text)) := namex cwd path true

end Xv6K230.Fs
