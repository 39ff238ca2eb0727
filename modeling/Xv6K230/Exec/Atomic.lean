import Xv6K230.Exec.Files

/-! # Exec is atomic

In a file system whose names lead to files, `kexec` returns whatever the file contains and wherever memory runs out.
-/

namespace Xv6K230

open Vm Fs Riscv Prog Elf Names

structure Spare (s : FsState) : Prop where
  log : (s.lh.length : Int) + (s.outstanding + 1) * maxopblocks ≤ logblocks
  inodes : ∃ ip jp, ip ≠ jp ∧ (s.itable ip).ref = 0 ∧ (s.itable jp).ref = 0

structure Balanced (s t : FsState) : Prop where
  ops : SameOps s t
  locks : ∀ ip, (t.itable ip).locked = (s.itable ip).locked
  refs : Gained s t none
  files : t.files = s.files

/-- What the caller of an `exec` that failed finds: its own process and every page that was in use are as
before, and the same pages are free. -/
structure Undone (k : Kernel) (me : Pid) (k' : Kernel) : Prop where
  proc : k'.proc = k.proc
  view : ∀ v, k'.mem.view (k.proc me).pagetable v = k.mem.view (k.proc me).pagetable v
  frame : k'.mem.page (k.proc me).trapframe = k.mem.page (k.proc me).trapframe
  restored : Restored k.mem k'.mem

/-! ## The operation around the file -/

section

variable {E : Stop → Prop} {s t : FsState} {cwd ip : Ip} {path : Text} {i : Nat}

/-- The executable is locked by an operation that has just begun, and it stays when it is let go of. -/
def Opened (s : FsState) (ip : Ip) (i : Nat) (t : FsState) : Prop :=
  ∃ r : Ref, r.ip = ip ∧ r.inum = i ∧ Turn t s.sb (r ::ₘ refsOf s) {ip} s.files .free ∧ Names.Kept s.files (refsOf s) i ∧
    t.outstanding = s.outstanding + 1

lemma Opened.openFile (h : Opened s ip i t) : OpenFile s ip i t := by
  obtain ⟨r, hip, hInum, ht, -⟩ := h
  exact ⟨r, s.files, hip, hInum, ht, rfl⟩

lemma balanced_of_turn (hOk : Consistent s) (hIdle : ∀ ip, (s.itable ip).locked = false)
    (h : Turn t s.sb (refsOf s) ∅ s.files .free) (hOps : SameOps s t) : Balanced s t := by
  refine ⟨hOps, fun ip => ?_, gained_none hOk h, h.files⟩
  obtain ⟨e, hJob, hCounted, -⟩ := h
  rw [hIdle, hJob.view.locked, ← Bool.not_eq_true, hCounted.locked]
  exact Finset.notMem_empty ip

lemma endOp_balanced (hOk : Consistent s) (hIdle : ∀ ip, (s.itable ip).locked = false)
    (h : Turn t s.sb (refsOf s) ∅ s.files .free) (hOps : t.outstanding = s.outstanding + 1) :
    wp endOp E (fun _ u => Balanced s u) t := by
  have hCount : wp endOp E (fun _ u => SameOps s u) t := by
    unfold endOp SameOps
    rw [wp_update]
    split
    · simp only
      omega
    · simp only
      omega
  refine wp_mono (wp_both (h.endOp (E := E)) hCount) (fun _ he => he.2) ?_
  exact fun _ u hu => balanced_of_turn hOk hIdle hu.1 hu.2

abbrev Reached (s u : FsState) : Option Ip → Prop
  | none => Turn u s.sb (refsOf s) ∅ s.files .free
  | some ip => ∃ r : Ref, r.ip = ip ∧ Turn u s.sb (r ::ₘ refsOf s) ∅ s.files .free ∧ Names.Kept s.files (refsOf s) r.inum ∧
      (s.files r.inum).type ≠ 0

lemma access_tree (hOk : Consistent s) (hIdle : ∀ ip, (s.itable ip).locked = false) (hDirs : DirsOk s.files)
    (hRange : DirsInRange s.sb.ninodes s.files) (hCwd : 0 < (s.itable cwd).ref) (hTree : Tree s cwd) (hSpare : Spare s)
    (path : Text) : Access (fun _ => False) cwd path s (Opened s) (Balanced s) where
  find := by
    obtain ⟨t, ht⟩ : ∃ t : FsState, t = { s with outstanding := s.outstanding + 1 } := ⟨_, rfl⟩
    have hBegin : wp beginOp (fun _ => False) (fun _ u => u = t) s := by
      unfold beginOp
      simp only [wp_bind, wp_read, id]
      rw [if_neg (not_lt.mpr hSpare.log)]
      exact (wp_update _).mpr ht.symm
    have hOk' : Consistent t := by
      rw [ht]
      obtain ⟨e, hJob, -⟩ := turn_of_unlocked hOk hIdle
      exact (hJob.view.log _ s.lh).consistent
    have hWalk : wp (namei cwd path) (fun _ => False) (fun res u => u.outstanding = s.outstanding + 1 ∧ Reached s u res) t := by
      have hNamei := wp_both (m := namei cwd path) (namei_tree (s := t) hOk' (by rw [ht]; exact hIdle) (by rw [ht]; exact hDirs)
        (by rw [ht]; exact hRange) (by rw [ht]; exact hCwd) (by rw [ht]; exact ⟨hTree.grounded, hTree.linked, hTree.root, hTree.cwd⟩))
        ((inner_namei cwd path).ops t)
      refine wp_mono hNamei ?_ ?_
      · rintro e ⟨⟨-, ip, hUsed⟩, -⟩
        obtain ⟨jp, jp', hne, hFree, hFree'⟩ := hSpare.inodes
        rw [ht] at hUsed
        by_cases hjp : jp = ip
        · exact hUsed jp' (fun h => hne (hjp.trans h.symm)) hFree'
        · exact hUsed jp hjp hFree
      · rintro res u ⟨hRes, hOps⟩
        rw [ht] at hRes hOps
        exact ⟨hOps, hRes⟩
    unfold execOpen
    apply wp_call hBegin
    rintro _ _ rfl
    apply wp_call hWalk
    rintro (_ | ip) u ⟨hOps, hu⟩
    · apply wp_call (endOp_balanced hOk hIdle hu hOps)
      exact fun _ w hw => wp_val hw
    · obtain ⟨r, rfl, hu, hKept, hType⟩ := hu
      have hMem : r ∈ r ::ₘ refsOf s := Multiset.mem_cons_self _ _
      have hLock := wp_both (wp_both (hu.ilock quiet_tame hMem fun _ => by decide)
        (hu.ilock_still (E := fun _ => False) hMem (Finset.notMem_empty _) hType)) ((inner_ilock r.ip).ops u)
      apply wp_call (wp_weaken_stop hLock fun _ he => he.1.2)
      rintro _ w ⟨⟨⟨-, -, hw⟩, -⟩, hOps'⟩
      exact wp_val ⟨r.inum, r, rfl, rfl, hw, hKept, Eq.trans hOps' hOps⟩
  file := fun _ _ _ h => h.openFile.file
  close := by
    rintro ip i t ⟨r, rfl, rfl, ht, hKept, hOps⟩
    have hMem : r ∈ r ::ₘ refsOf s := Multiset.mem_cons_self _ _
    have hPut : wp (iunlockput r.ip) (fun _ => False) (fun _ u => Turn u s.sb (refsOf s) ∅ s.files .free) t := by
      unfold iunlockput
      apply wp_call (wp_weaken_stop (wp_both (ht.iunlock quiet_tame hMem)
        (ht.iunlock_still (E := fun _ => False) hMem (Finset.mem_singleton_self _))) fun _ he => he.2)
      rintro _ u ⟨hu, -⟩
      rw [Finset.erase_singleton] at hu
      exact hu.drop_kept hKept
    unfold execClose
    apply wp_call (wp_weaken_stop (wp_both hPut ((inner_iunlockput r.ip).ops t)) fun _ he => he.1)
    rintro _ u ⟨hu, hOps'⟩
    exact endOp_balanced hOk hIdle hu (Eq.trans hOps' hOps)

end

/-! ## Either the old image or the new one -/

section

variable {k : Kernel} {A : List Nat} {me : Pid}

lemma Restored.undone (hk : Owned k A) (hMe : (k.proc me).state ≠ .unused) {m : Mem} (h : Restored k.mem m) (s : FsState) :
    Undone k me ((k.setMem m).setFs s) := by
  obtain ⟨ρ, hρ⟩ := hk.spaces
  have hUsed : ∀ {p}, ρ p ≠ .free → m.page p = k.mem.page p := fun hp => h.page _ fun hFree => hp ((hρ.typed.free _).mpr hFree)
  refine ⟨rfl, fun v => ?_, ?_, h⟩
  · apply hρ.typed.toTrees.view_congr (hk.table hρ hMe).root
    intro q l a hq
    apply hUsed
    rw [hq]
    exact Role.noConfusion
  · have hFrame : ρ (k.proc me).trapframe = .frame me := hρ.frame me (hk.live me hMe).2
    apply hUsed
    rw [hFrame]
    exact Role.noConfusion

/-- `kexec` returns for every file, every path and every amount of free memory, with operations, locks and references
balanced. If it fails nothing has changed. If it succeeds, the pages and the page table of the old image are free. -/
theorem exec_atomic (h : ExecReady k A me) (hTree : ∀ cwd, (k.proc me).cwd = some cwd → Tree k.fs cwd) (hSpare : Spare k.fs)
    (path : Text) {argv : List Text} (hArgc : argv.length < maxarg) (hLen : ∀ s ∈ argv, s.length < pgsize) :
    ∃ r k', kexec me path argv k = .ok (r, k') ∧ Owned k' A ∧ Balanced k.fs k'.fs ∧
      (r = -1 ∧ Undone k me k' ∨
      r = argv.length ∧ ∀ p, k.mem.TablePage (k.proc me).pagetable p ∨
        (∃ v < trapframeVpn, (k.mem.view (k.proc me).pagetable v).has pteV ∧ p = pte2pa (k.mem.view (k.proc me).pagetable v)) →
          p ∈ k'.mem.freelist) := by
  have hStrings : ∀ s ∈ argv, s.length + 1 < 2 ^ 31 := by
    intro s hs
    have hs' := hLen s hs
    rw [pgsize] at hs'
    omega
  have hNone : (k.proc me).cwd = none → Balanced k.fs k.fs := fun _ =>
    balanced_of_turn h.consistent h.unlocked (turn_of_unlocked h.consistent h.unlocked) rfl
  have hOutcome := kexec_outcome (E := fun _ => False) h.owned h.live
    (fun cwd hCwd => access_tree h.consistent h.unlocked h.dirs h.range (h.cwd cwd hCwd) (hTree cwd hCwd) hSpare path)
    hNone hStrings hArgc
  have hOwned := kexec_owned (E := fun _ => True) (fun _ _ => trivial) me path hLen h.owned h.live
  obtain ⟨r, k', hRun, ⟨hBalanced, hRes⟩, hOwned', -⟩ := wp_total (wp_weaken_stop (wp_both hOutcome hOwned) fun _ he => he.1)
  refine ⟨r, k', hRun, hOwned', hBalanced, ?_⟩
  rcases hRes with ⟨hr, m, fs, rfl, hRestored⟩ | ⟨hr, i, -, sp, -, hDone⟩
  · exact .inl ⟨hr, hRestored.undone h.owned h.live fs⟩
  · exact .inr ⟨hr, hDone.freed⟩

end

open ExecSample in
/-- One of the two executables, and a path that leads nowhere. -/
theorem exec_atomic_sample : (∃ k', kexec init pathA [[120], [121, 122]] kernel = .ok (2, k') ∧ Balanced kernel.fs k'.fs ∧
      ∀ p, kernel.mem.TablePage (kernel.proc init).pagetable p → p ∈ k'.mem.freelist) ∧
    ∃ k', kexec init [47, 99] [] kernel = .ok (-1, k') ∧ Balanced kernel.fs k'.fs ∧ Undone kernel init k' := by
  have hTree : ∀ cwd, (kernel.proc init).cwd = some cwd → Tree kernel.fs cwd := by
    intro cwd hCwd
    have hRoot : (kernel.proc init).cwd = some Sample.root := by decide +kernel
    obtain rfl := Option.some.inj (hRoot.symm.trans hCwd)
    exact tree_of_check (by decide +kernel) (by decide +kernel) (by decide +kernel)
  have hSpare : Spare kernel.fs := ⟨by decide +kernel, by decide +kernel⟩
  constructor
  · obtain ⟨k', hRun⟩ := kexec_returns.1
    have hFew : ([[120], [121, 122]] : List Text).length < maxarg := by decide
    obtain ⟨r', k'', hRun', -, hBalanced, ⟨hr, -⟩ | ⟨-, hFreed⟩⟩ :=
      exec_atomic kernel_ready hTree hSpare pathA hFew (by decide)
    · obtain ⟨rfl, -⟩ := Prod.mk.inj (Except.ok.inj (hRun.symm.trans hRun'))
      cases hr
    · obtain ⟨-, rfl⟩ := Prod.mk.inj (Except.ok.inj (hRun.symm.trans hRun'))
      exact ⟨k', hRun, hBalanced, fun p hp => hFreed p (.inl hp)⟩
  · have hNone : ([] : List Text).length < maxarg := by decide
    obtain ⟨r, k', hRun, -, hBalanced, ⟨rfl, hUndone⟩ | ⟨rfl, -⟩⟩ :=
      exec_atomic kernel_ready hTree hSpare [47, 99] hNone (by decide)
    · exact ⟨k', hRun, hBalanced, hUndone⟩
    · have hFails : Sample.returns (kexec init [47, 99] []) (fun r _ => r = -1) kernel = true := by decide +kernel
      obtain ⟨r, k'', hRun', hTest⟩ := Sample.exists_of_returns hFails
      obtain rfl := of_decide_eq_true hTest
      cases (Prod.mk.inj (Except.ok.inj (hRun.symm.trans hRun'))).1

end Xv6K230
