import Xv6K230.Lib.Bytes

/-! # The on-disk format

`fs.h`: blocks, the superblock, inodes packed sixteen to a block, the free bitmap, and directory entries.
-/

namespace Xv6K230.Fs

abbrev Block : Type := Bytes 1024

def bsize : Nat := 1024
def ndirect : Nat := 12
def nindirect : Nat := 256 -- BSIZE / sizeof(uint)
def maxfile : Nat := ndirect + nindirect
def ipb : Nat := 16 -- BSIZE / sizeof(struct dinode)
def bpb : Nat := bsize * 8
def dirsiz : Nat := 14
def direntSize : Nat := 16 -- sizeof(struct dirent)
def rootino : Nat := 1
def rootdev : Nat := 1

def tDir : UInt16 := 1
def tFile : UInt16 := 2
def tDevice : UInt16 := 3

structure Superblock where
  size : Nat
  ninodes : Nat
  nlog : Nat
  logstart : Nat
  inodestart : Nat
  bmapstart : Nat
  deriving DecidableEq, Repr

def Superblock.iblock (sb : Superblock) (inum : Nat) : Nat := inum / ipb + sb.inodestart

def Superblock.bblock (sb : Superblock) (b : Nat) : Nat := b / bpb + sb.bmapstart

structure Dinode where
  type : UInt16
  major : Int16
  minor : Int16
  nlink : Int16
  size : UInt32
  addrs : Fin 13 → UInt32

/-- The inode after `memset(dip, 0, sizeof(*dip))`. -/
def Dinode.zero : Dinode := ⟨0, 0, 0, 0, 0, fun _ => 0⟩

/-- `addrs[k]` -/
def Dinode.addr (d : Dinode) (k : Nat) : Nat := if h : k < 13 then (d.addrs ⟨k, h⟩).toNat else 0

def Dinode.setAddr (d : Dinode) (k v : Nat) : Dinode :=
  { d with addrs := fun j => if j.val = k then UInt32.ofNat v else d.addrs j }

/-- The `struct dinode` at byte `off` of a block. -/
def Dinode.load (b : Block) (off : Nat) : Dinode where
  type := UInt16.ofNat (b.getLE off 2)
  major := (UInt16.ofNat (b.getLE (off + 2) 2)).toInt16
  minor := (UInt16.ofNat (b.getLE (off + 4) 2)).toInt16
  nlink := (UInt16.ofNat (b.getLE (off + 6) 2)).toInt16
  size := UInt32.ofNat (b.getLE (off + 8) 4)
  addrs := fun k => UInt32.ofNat (b.getLE (off + 12 + 4 * k.val) 4)

def Dinode.store (d : Dinode) (b : Block) (off : Nat) : Block :=
  (((((b.putLE off 2 d.type.toNat).putLE (off + 2) 2 d.major.toUInt16.toNat).putLE (off + 4) 2
    d.minor.toUInt16.toNat).putLE (off + 6) 2 d.nlink.toUInt16.toNat).putLE (off + 8) 4
      d.size.toNat).putWords (off + 12) d.addr 13

structure Dirent where
  inum : UInt16
  name : Text
  deriving DecidableEq, Repr

def Dirent.ofBytes (l : Text) : Dirent where
  inum := UInt16.ofNat (Bytes.numLE (l.take 2))
  name := l.drop 2

/-- The sixteen bytes of an entry; the name field is filled with NUL bytes. -/
def Dirent.toBytes (de : Dirent) : Text :=
  Bytes.bytesLE 2 de.inum.toNat ++ (de.name ++ List.replicate dirsiz 0).take dirsiz

lemma Dirent.length_toBytes (de : Dirent) : de.toBytes.length = 16 := by
  unfold Dirent.toBytes dirsiz
  simp

lemma Dirent.ofBytes_toBytes (de : Dirent) : Dirent.ofBytes de.toBytes = ⟨de.inum, (de.name ++ List.replicate dirsiz 0).take dirsiz⟩ := by
  have hInum : de.inum.toNat < 256 ^ 2 := de.inum.toNat_lt
  have hTwo := Bytes.length_bytesLE 2 de.inum.toNat
  unfold Dirent.ofBytes Dirent.toBytes
  rw [List.take_left' hTwo, List.drop_left' hTwo, Bytes.numLE_bytesLE, Nat.mod_eq_of_lt hInum, UInt16.ofNat_toNat]

lemma Dinode.load_store_same (d : Dinode) (b : Block) {off : Nat} (h : off + 64 ≤ 1024) :
    Dinode.load (d.store b off) off = d := by
  have hAddr : ∀ k : Fin 13, d.addr k.val = (d.addrs k).toNat := fun k => dif_pos k.isLt
  obtain ⟨type, major, minor, nlink, size, addrs⟩ := d
  unfold Dinode.load Dinode.store
  congr 1
  · rw [Bytes.getLE_putWords_of_disjoint _ _ _ _ _ _ (by omega)]
    iterate 4 rw [Bytes.getLE_putLE_of_disjoint _ _ _ _ _ _ (by omega)]
    rw [Bytes.getLE_putLE_same _ _ (by omega), Nat.mod_eq_of_lt (by simpa using type.toNat_lt)]
    simp
  · rw [Bytes.getLE_putWords_of_disjoint _ _ _ _ _ _ (by omega)]
    iterate 3 rw [Bytes.getLE_putLE_of_disjoint _ _ _ _ _ _ (by omega)]
    rw [Bytes.getLE_putLE_same _ _ (by omega),
      Nat.mod_eq_of_lt (by simpa using major.toUInt16.toNat_lt)]
    simp
  · rw [Bytes.getLE_putWords_of_disjoint _ _ _ _ _ _ (by omega)]
    iterate 2 rw [Bytes.getLE_putLE_of_disjoint _ _ _ _ _ _ (by omega)]
    rw [Bytes.getLE_putLE_same _ _ (by omega),
      Nat.mod_eq_of_lt (by simpa using minor.toUInt16.toNat_lt)]
    simp
  · rw [Bytes.getLE_putWords_of_disjoint _ _ _ _ _ _ (by omega),
      Bytes.getLE_putLE_of_disjoint _ _ _ _ _ _ (by omega), Bytes.getLE_putLE_same _ _ (by omega),
      Nat.mod_eq_of_lt (by simpa using nlink.toUInt16.toNat_lt)]
    simp
  · rw [Bytes.getLE_putWords_of_disjoint _ _ _ _ _ _ (by omega), Bytes.getLE_putLE_same _ _ (by omega),
      Nat.mod_eq_of_lt (by simpa using size.toNat_lt)]
    simp
  · funext k
    rw [Bytes.getLE_putWords_same _ _ _ k.isLt (by omega), hAddr k,
      Nat.mod_eq_of_lt (by simpa using (addrs k).toNat_lt)]
    simp

lemma Dinode.load_congr {b b' : Block} {off : Nat}
    (h : ∀ o k, off ≤ o → o + k ≤ off + 64 → b'.getLE o k = b.getLE o k) :
    Dinode.load b' off = Dinode.load b off := by
  unfold Dinode.load
  rw [h off 2 (by omega) (by omega), h (off + 2) 2 (by omega) (by omega),
    h (off + 4) 2 (by omega) (by omega), h (off + 6) 2 (by omega) (by omega),
    h (off + 8) 4 (by omega) (by omega)]
  congr 1
  funext k
  rw [h (off + 12 + 4 * k.val) 4 (by omega) (by omega)]

lemma Dinode.load_store_of_disjoint (d : Dinode) (b : Block) (off off' : Nat)
    (h : off' + 64 ≤ off ∨ off + 64 ≤ off') : Dinode.load (d.store b off) off' = Dinode.load b off' := by
  apply Dinode.load_congr
  intro o k hLow hHigh
  unfold Dinode.store
  rw [Bytes.getLE_putWords_of_disjoint _ _ _ _ _ _ (by omega)]
  iterate 5 rw [Bytes.getLE_putLE_of_disjoint _ _ _ _ _ _ (by omega)]

end Xv6K230.Fs
