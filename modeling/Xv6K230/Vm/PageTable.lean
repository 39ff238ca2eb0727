import Xv6K230.Lib.Program
import Xv6K230.Lib.Bytes
import Xv6K230.Machine.Riscv
import Xv6K230.Machine.Stop

/-! # Physical memory and page tables

`kalloc.c` on a memory of whole pages, and `walk`, `mappages`, `uvmunmap` and `freewalk` of `vm.c` on it.
-/

namespace Xv6K230.Vm

open Riscv

abbrev Page : Type := Bytes 4096

/-- Physical memory: the allocator's range `[kend, phystop)`, its free list, and the
contents of every page. -/
structure Mem where
  kend : Nat
  phystop : Nat
  freelist : List Nat
  page : Nat → Page

abbrev MemM : Type → Type := Prog Stop Mem

def Mem.setPage (m : Mem) (pa : Nat) (pg : Page) : Mem :=
  { m with page := fun q => if q = pa then pg else m.page q }

def memset (pa : Nat) (c : UInt8) : MemM Unit := Prog.update fun m => m.setPage pa (Bytes.fill c)

def kfree (pa : Nat) : MemM Unit := do
  let m ← Prog.read id
  if pa % pgsize ≠ 0 ∨ pa < m.kend ∨ m.phystop ≤ pa then
    Prog.stop .kfree
  else
    -- junk, to catch dangling references
    memset pa 1
    Prog.update fun m => { m with freelist := pa :: m.freelist }

def kalloc : MemM Nat := do
  match ← Prog.read Mem.freelist with
  | [] => return 0
  | r :: rest =>
    Prog.update fun m => { m with freelist := rest }
    memset r 5
    return r

-- the pages that freerange frees, in its order
def rangePages (paStart paEnd : Nat) : List Nat :=
  (List.range ((paEnd - pgroundup paStart) / pgsize)).map fun i => pgroundup paStart + i * pgsize

def freerange (paStart paEnd : Nat) : MemM Unit := Prog.eachM kfree (rangePages paStart paEnd)

def kinit : MemM Unit := do
  let m ← Prog.read id
  freerange m.kend m.phystop

/-! ## Page table entries in memory -/

def Mem.pte (m : Mem) (pt i : Nat) : Pte := BitVec.ofNat 64 ((m.page pt).getLE (8 * i) 8)

def Mem.setPte (m : Mem) (pt i : Nat) (v : Pte) : Mem :=
  m.setPage pt ((m.page pt).putLE (8 * i) 8 v.toNat)

section

variable (m : Mem)

@[simp] lemma setPage_freelist (pa : Nat) (pg : Page) : (m.setPage pa pg).freelist = m.freelist := rfl
@[simp] lemma setPage_kend (pa : Nat) (pg : Page) : (m.setPage pa pg).kend = m.kend := rfl
@[simp] lemma setPage_phystop (pa : Nat) (pg : Page) : (m.setPage pa pg).phystop = m.phystop := rfl
@[simp] lemma setPage_page_same (pa : Nat) (pg : Page) : (m.setPage pa pg).page pa = pg := if_pos rfl

lemma setPage_page_of_ne {pa q : Nat} (pg : Page) (h : q ≠ pa) : (m.setPage pa pg).page q = m.page q :=
  if_neg h

@[simp] lemma setPte_freelist (pt i : Nat) (v : Pte) : (m.setPte pt i v).freelist = m.freelist := rfl
@[simp] lemma setPte_kend (pt i : Nat) (v : Pte) : (m.setPte pt i v).kend = m.kend := rfl
@[simp] lemma setPte_phystop (pt i : Nat) (v : Pte) : (m.setPte pt i v).phystop = m.phystop := rfl

lemma setPte_page_of_ne {pt q : Nat} (i : Nat) (v : Pte) (h : q ≠ pt) :
    (m.setPte pt i v).page q = m.page q := setPage_page_of_ne m _ h

lemma pte_congr {m m' : Mem} {pt : Nat} (h : m'.page pt = m.page pt) (i : Nat) :
    m'.pte pt i = m.pte pt i := by
  rw [Mem.pte, Mem.pte, h]

lemma pte_setPte_same {pt i : Nat} (v : Pte) (hi : i < 512) : (m.setPte pt i v).pte pt i = v := by
  rw [Mem.pte, Mem.setPte, setPage_page_same, Bytes.getLE_putLE_same _ _ (by omega),
    Nat.mod_eq_of_lt (by simpa using v.isLt), BitVec.ofNat_toNat, BitVec.setWidth_eq]

lemma pte_setPte_of_index_ne {pt i j : Nat} (v : Pte) (h : j ≠ i) :
    (m.setPte pt i v).pte pt j = m.pte pt j := by
  rw [Mem.pte, Mem.setPte, setPage_page_same, Bytes.getLE_putLE_of_disjoint _ _ _ _ _ _ (by omega)]
  rfl

lemma pte_setPte_of_page_ne {pt q : Nat} (i j : Nat) (v : Pte) (h : q ≠ pt) :
    (m.setPte pt i v).pte q j = m.pte q j := pte_congr (setPte_page_of_ne m i v h) j

lemma pte_of_zero {pt : Nat} (h : m.page pt = Bytes.fill 0) (i : Nat) : m.pte pt i = 0#64 := by
  rw [Mem.pte, h, Bytes.getLE_fill_zero]

end

/-! ## Three-level page tables -/

/-- The rest of `walk` from a page-table page `pt` of the given level. -/
def walkFrom (va : Nat) (alloc : Bool) : Nat → Nat → MemM (Option (Nat × Nat))
  | 0, pt => return some (pt, px 0 va)
  | level + 1, pt => do
    let i := px (level + 1) va
    let pte ← Prog.read fun m => m.pte pt i
    if pte.has pteV then
      walkFrom va alloc level (pte2pa pte)
    else if !alloc then
      return none
    else
      let next ← kalloc
      if next = 0 then
        return none
      else
        memset next 0
        Prog.update fun m => m.setPte pt i (pa2pte next ||| pteV)
        walkFrom va alloc level next

def walk (pagetable va : Nat) (alloc : Bool) : MemM (Option (Nat × Nat)) :=
  if va ≥ maxva then Prog.stop .walk else walkFrom va alloc 2 pagetable

/-- The loop of `mappages` over `n` pages; true stands for the result 0. -/
def mappagesLoop (pagetable : Nat) (perm : Pte) : (n a pa : Nat) → MemM Bool
  | 0, _, _ => return true
  | n + 1, a, pa => do
    match ← walk pagetable a true with
    | none => return false
    | some (pt, i) =>
      let pte ← Prog.read fun m => m.pte pt i
      if pte.has pteV then
        Prog.stop .mappagesRemap
      else
        Prog.update fun m => m.setPte pt i (pa2pte pa ||| perm ||| pteV)
        mappagesLoop pagetable perm n (a + pgsize) (pa + pgsize)

def mappages (pagetable va size pa : Nat) (perm : Pte) : MemM Bool :=
  if va % pgsize ≠ 0 then Prog.stop .mappagesVa
  else if size % pgsize ≠ 0 then Prog.stop .mappagesSizeAlign
  else if size = 0 then Prog.stop .mappagesSize
  else mappagesLoop pagetable perm (size / pgsize) va pa

/-- One pass of the loop of `uvmunmap`. -/
def unmapOne (pagetable : Nat) (doFree : Bool) (a : Nat) : MemM Unit := do
  match ← walk pagetable a false with
  | none => return ()
  | some (pt, i) =>
    let pte ← Prog.read fun m => m.pte pt i
    if pte.has pteV then
      if doFree then kfree (pte2pa pte)
      Prog.update fun m => m.setPte pt i 0#64

def uvmunmap (pagetable va npages : Nat) (doFree : Bool) : MemM Unit :=
  if va % pgsize ≠ 0 then Prog.stop .uvmunmapAlign
  else Prog.eachM (unmapOne pagetable doFree) ((List.range npages).map fun i => va + i * pgsize)

/-- `freewalk`, with a bound on the depth of the recursion. -/
def freewalk : Nat → Nat → MemM Unit
  | 0, _ => Prog.stop .fuel
  | depth + 1, pagetable => do
    Prog.eachM (fun i => do
      let pte ← Prog.read fun m => m.pte pagetable i
      if pte.has pteV && !pte.has (pteR ||| pteW ||| pteX) then
        freewalk depth (pte2pa pte)
        Prog.update fun m => m.setPte pagetable i 0#64
      else if pte.has pteV then
        Prog.stop .freewalkLeaf) (List.range 512)
    kfree pagetable

def uvmfree (pagetable sz : Nat) : MemM Unit := do
  if sz > 0 then uvmunmap pagetable 0 (pgroundup sz / pgsize) true
  freewalk 3 pagetable

def uvmcreate : MemM Nat := do
  let pagetable ← kalloc
  if pagetable = 0 then
    return 0
  else
    memset pagetable 0
    return pagetable

/-! ## The kernel's own table -/

def kvmmap (kpgtbl va pa sz : Nat) (perm : Pte) : MemM Unit := do
  if !(← mappages kpgtbl va sz pa perm) then Prog.stop .kvmmap

def uart0 : Nat := 0x91400000
def plic : Nat := 0x0f00000000
def kernbase : Nat := 0x00200000

/-- `KSTACK(p)` -/
def kstackVa (i : Nat) : Nat := trampolineVa - (i + 1) * 2 * pgsize

def procMapstacks (kpgtbl nproc : Nat) : MemM Unit :=
  Prog.eachM (fun i => do
    let pa ← kalloc
    if pa = 0 then Prog.stop .mapstacksKalloc
    else kvmmap kpgtbl (kstackVa i) pa pgsize (pteR ||| pteW ||| pteTheadMaee ||| pteA ||| pteD))
    (List.range nproc)

/-- `etext` and `trampoline` are symbols of the linker script. -/
def kvmmake (etext trampoline nproc : Nat) : MemM Nat := do
  let m ← Prog.read id
  let kpgtbl ← kalloc
  memset kpgtbl 0
  kvmmap kpgtbl uart0 uart0 pgsize (pteR ||| pteW ||| pteA ||| pteD ||| pteIo)
  kvmmap kpgtbl plic plic 0x400000 (pteR ||| pteW ||| pteA ||| pteD ||| pteIo)
  kvmmap kpgtbl kernbase kernbase (etext - kernbase) (pteR ||| pteX ||| pteA ||| pteTheadMaee)
  kvmmap kpgtbl etext etext (m.phystop - etext) (pteR ||| pteW ||| pteA ||| pteD ||| pteTheadMaee)
  kvmmap kpgtbl trampolineVa trampoline pgsize (pteR ||| pteX ||| pteA)
  procMapstacks kpgtbl nproc
  return kpgtbl

end Xv6K230.Vm
