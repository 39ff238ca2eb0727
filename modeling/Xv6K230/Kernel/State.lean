import Xv6K230.Vm.User
import Xv6K230.Fs.Names

/-! # Kernel state

The process table, the file table and the pipes over physical memory and the file system.
-/

namespace Xv6K230

open Vm Fs

def nproc : Nat := 64
def nofile : Nat := 16
def nfile : Nat := 100
def ndev : Nat := 10
def maxarg : Nat := 32

abbrev Pid : Type := Fin nproc -- an index into proc[]
abbrev Fp : Type := Fin nfile -- an index into ftable.file[]
abbrev Fd : Type := Fin nofile

lemma nproc_pos : 0 < nproc := by decide

lemma nfile_pos : 0 < nfile := by decide

inductive FdType where
  | none | pipe | inode | device
  deriving DecidableEq, Repr

structure File where
  type : FdType
  ref : Int
  readable : Bool
  writable : Bool
  pipe : Nat
  ip : Ip
  off : Nat
  major : Int16

/-- The fields of `struct pipe` other than its lock; the pipe itself is the page it lives in. -/
structure Pipe where
  nread : UInt32
  nwrite : UInt32
  readopen : Bool
  writeopen : Bool
  data : Bytes 512

inductive ProcState where
  | unused | used | sleeping | runnable | running | zombie
  deriving DecidableEq, Repr

inductive Chan where
  | proc (i : Pid)
  | nread (pi : Nat)
  | nwrite (pi : Nat)
  deriving DecidableEq, Repr

/-- Where the kernel thread of a process that has given up its CPU continues. -/
inductive Susp where
  | first -- forkret of the first process
  | yielded
  | wait (addr : Nat)
  deriving DecidableEq, Repr

structure Proc where
  state : ProcState
  chan : Option Chan
  killed : Bool
  xstate : Int32
  pid : Int32
  parent : Option Pid
  sz : Nat
  pagetable : Nat
  trapframe : Nat
  ofile : Fd → Option Fp
  cwd : Option Ip
  name : Text
  susp : Option Susp

structure Kernel where
  mem : Mem
  fs : FsState
  trampoline : Nat
  kpgtbl : Nat -- kernel_pagetable
  ftable : Fp → File
  pipes : Nat → Pipe
  proc : Pid → Proc
  nextpid : Int32
  initproc : Option Pid

abbrev KM : Type → Type := Prog Stop Kernel

@[simps]
def Kernel.setMem (k : Kernel) (m : Mem) : Kernel := { k with mem := m }

@[simps]
def Kernel.setFs (k : Kernel) (fs : FsState) : Kernel := { k with fs := fs }

def onMem {α : Type} (m : MemM α) : KM α := Prog.zoom Kernel.mem (fun t k => k.setMem t) m

def onFs {α : Type} (m : FsM α) : KM α := Prog.zoom Kernel.fs (fun t k => k.setFs t) m

@[simps mem fs trampoline kpgtbl ftable pipes nextpid initproc]
def Kernel.setProc (k : Kernel) (i : Pid) (p : Proc) : Kernel :=
  { k with proc := fun j => if j = i then p else k.proc j }

@[simps mem fs trampoline kpgtbl pipes proc nextpid initproc]
def Kernel.setFile (k : Kernel) (f : Fp) (v : File) : Kernel :=
  { k with ftable := fun g => if g = f then v else k.ftable g }

@[simps mem fs trampoline kpgtbl ftable proc nextpid initproc]
def Kernel.setPipe (k : Kernel) (pi : Nat) (v : Pipe) : Kernel :=
  { k with pipes := fun q => if q = pi then v else k.pipes q }

def getProc (i : Pid) : KM Proc := Prog.read fun k => k.proc i

def modProc (i : Pid) (f : Proc → Proc) : KM Unit := Prog.update fun k => k.setProc i (f (k.proc i))

def getFile (f : Fp) : KM File := Prog.read fun k => k.ftable f

def modFile (f : Fp) (g : File → File) : KM Unit := Prog.update fun k => k.setFile f (g (k.ftable f))

section

variable {E : Stop → Prop} {k : Kernel}

@[simp] lemma wp_onMem {α : Type} (m : MemM α) {Q : α → Kernel → Prop} :
    Prog.wp (onMem m) E Q k ↔ Prog.wp m E (fun a t => Q a (k.setMem t)) k.mem := Prog.wp_zoom m

@[simp] lemma wp_onFs {α : Type} (m : FsM α) {Q : α → Kernel → Prop} :
    Prog.wp (onFs m) E Q k ↔ Prog.wp m E (fun a t => Q a (k.setFs t)) k.fs := Prog.wp_zoom m

@[simp] lemma wp_getProc (i : Pid) {Q : Proc → Kernel → Prop} :
    Prog.wp (getProc i) E Q k ↔ Q (k.proc i) k := Prog.wp_read _

@[simp] lemma wp_modProc (i : Pid) (f : Proc → Proc) {Q : Unit → Kernel → Prop} :
    Prog.wp (modProc i f) E Q k ↔ Q () (k.setProc i (f (k.proc i))) := Prog.wp_update _

@[simp] lemma wp_getFile (f : Fp) {Q : File → Kernel → Prop} :
    Prog.wp (getFile f) E Q k ↔ Q (k.ftable f) k := Prog.wp_read _

@[simp] lemma wp_modFile (f : Fp) (g : File → File) {Q : Unit → Kernel → Prop} :
    Prog.wp (modFile f g) E Q k ↔ Q () (k.setFile f (g (k.ftable f))) := Prog.wp_update _

@[simp] lemma setProc_proc_same (i : Pid) (p : Proc) : (k.setProc i p).proc i = p := if_pos rfl

lemma setProc_proc_of_ne {i j : Pid} (p : Proc) (h : j ≠ i) : (k.setProc i p).proc j = k.proc j := if_neg h

@[simp] lemma setProc_setProc (i : Pid) (p q : Proc) : (k.setProc i p).setProc i q = k.setProc i q := by
  unfold Kernel.setProc
  congr 1
  funext j
  by_cases hj : j = i <;> simp [hj]

@[simp] lemma setMem_setProc (i : Pid) (p : Proc) (m : Mem) :
    (k.setProc i p).setMem m = (k.setMem m).setProc i p := rfl

@[simp] lemma setMem_setMem (m m' : Mem) : (k.setMem m).setMem m' = k.setMem m' := rfl

@[simp] lemma setFs_setFs (s s' : FsState) : (k.setFs s).setFs s' = k.setFs s' := rfl

@[simp] lemma setFile_ftable_same (f : Fp) (v : File) : (k.setFile f v).ftable f = v := if_pos rfl

lemma setFile_ftable_of_ne {f g : Fp} (v : File) (h : g ≠ f) : (k.setFile f v).ftable g = k.ftable g :=
  if_neg h

end

/-! ## Who holds a reference -/

def Proc.Dead (p : Proc) : Prop := p.state = .unused ∨ p.state = .zombie

instance (p : Proc) : Decidable p.Dead := inferInstanceAs (Decidable (_ ∨ _))

def File.Names (v : File) (ip : Ip) : Prop :=
  0 < v.ref ∧ (v.type = .inode ∨ v.type = .device) ∧ v.ip = ip

instance (v : File) (ip : Ip) : Decidable (v.Names ip) := inferInstanceAs (Decidable (_ ∧ _ ∧ _))

end Xv6K230
