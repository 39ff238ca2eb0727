import Xv6K230.Exec.Outcome
import Xv6K230.Names.Resolution
import Xv6K230.Kernel.Execute

/-! # Exec and its file

In a consistent file system without locked inodes `kexec` finds its file, reads it unchanged,
and lets go of it again.
-/

namespace Xv6K230

open Vm Fs Riscv Prog Elf Names

/-- A process that can call `exec`: memory and process table agree, and the file system is at rest. -/
structure ExecReady (k : Kernel) (A : List Nat) (me : Pid) : Prop where
  owned : Owned k A
  live : (k.proc me).state ≠ .unused
  consistent : Consistent k.fs
  unlocked : ∀ ip, (k.fs.itable ip).locked = false
  dirs : DirsOk k.fs.files
  range : DirsInRange k.fs.sb.ninodes k.fs.files
  cwd : ∀ ip, (k.proc me).cwd = some ip → 0 < (k.fs.itable ip).ref

section

variable {s t : FsState} {cwd ip : Ip} {path : Text} {i : Nat}

def OpenFile (s : FsState) (ip : Ip) (i : Nat) (t : FsState) : Prop :=
  ∃ (r : Ref) (f : Nat → Node), r.ip = ip ∧ r.inum = i ∧ Turn t s.sb (r ::ₘ refsOf s) {ip} f .free ∧ f i = s.files i

lemma OpenFile.file (h : OpenFile s ip i t) : Consistent t ∧ Loaded t ip i ∧ t.files i = s.files i := by
  obtain ⟨r, f, rfl, rfl, ht, hf⟩ := h
  have hMem : r ∈ r ::ₘ refsOf s := Multiset.mem_cons_self _ _
  refine ⟨?_, ?_, by rw [ht.files, hf]⟩
  · obtain ⟨e, hJob, -⟩ := ht
    exact hJob.view.consistent
  · obtain ⟨e, hJob, hCounted, -⟩ := ht
    refine ⟨?_, ?_, ?_⟩
    · rw [hJob.view.ref]
      exact hCounted.pos hMem
    · rw [hJob.view.valid]
      exact hCounted.valid r.ip (Finset.mem_singleton_self _)
    · rw [hJob.view.inum]
      exact hCounted.inum r hMem

lemma namei_walked (hOk : Consistent s) (hDirs : DirsOk s.files) (hRange : DirsInRange s.sb.ninodes s.files)
    (hCwd : 0 < (s.itable cwd).ref) (h : Turn t s.sb (refsOf s) ∅ s.files .free) :
    wp (namei cwd path) Quiet (fun res u => ∃ f, Freed s.files f ∧
      match res with
      | none => Turn u s.sb (refsOf s) ∅ f .free
      | some ip => ∃ r : Ref, r.ip = ip ∧ Turn u s.sb (r ::ₘ refsOf s) ∅ f .free) t := by
  have hMem : (⟨cwd, (s.itable cwd).inum, false⟩ : Ref) ∈ refsOf s := mem_refsOf.mpr ⟨hCwd, rfl⟩
  unfold namei
  rw [namex_eq, wp_bind]
  apply wp_call (h.walkStart quiet_tame hMem hOk.ok.root _)
  intro ip u hu
  apply wp_post (Turn.walk false _ ⟨ip, _, false⟩ path (Nat.lt_succ_self _) hu hDirs hRange)
  rintro (_ | ⟨jp, name⟩) w ⟨f, hWalked⟩
  · exact wp_val ⟨f, hWalked.freed, hWalked.ends.1⟩
  · obtain ⟨r, hip, hw, -⟩ := hWalked.ends
    exact wp_val ⟨f, hWalked.freed, r, hip, hw⟩

/-- Opening and closing the executable, whatever panics of the file system there may be on the way. -/
lemma access_file (hOk : Consistent s) (hIdle : ∀ ip, (s.itable ip).locked = false) (hDirs : DirsOk s.files)
    (hRange : DirsInRange s.sb.ninodes s.files) (hCwd : 0 < (s.itable cwd).ref) (path : Text) :
    Access (fun _ => True) cwd path s (OpenFile s) (fun _ => True) where
  find := by
    unfold execOpen
    apply wp_call (wp_weaken_stop ((turn_of_unlocked hOk hIdle).beginOp quiet_tame) fun _ _ => trivial)
    intro _ t ht
    apply wp_call (wp_weaken_stop (namei_walked hOk hDirs hRange hCwd ht) fun _ _ => trivial)
    rintro (_ | ip) u ⟨f, hFreed, hu⟩
    · exact wp_call (wp_true _ _) fun _ _ _ => wp_val trivial
    · obtain ⟨r, rfl, hu⟩ := hu
      have hMem : r ∈ r ::ₘ refsOf s := Multiset.mem_cons_self _ _
      apply wp_call (wp_weaken_stop (hu.ilock quiet_tame hMem fun _ => by decide) fun _ _ => trivial)
      rintro _ w ⟨-, hType, hw⟩
      refine wp_val ⟨r.inum, r, f, rfl, rfl, hw, ?_⟩
      rcases hFreed r.inum with hSame | hFree
      · exact hSame
      · rw [hFree] at hType
        exact absurd rfl hType
  file := fun _ _ _ h => h.file
  close := fun _ _ _ _ => wp_weaken_stop (wp_true _ _) fun _ _ => trivial

end

section

variable {k k' : Kernel} {A : List Nat} {me : Pid} {path : Text} {argv : List Text} {i : Nat} {r : Int}

lemma Finds.unique {j : Nat} (h : Finds k me path i) (h' : Finds k me path j) : i = j := by
  obtain ⟨cwd, ip, t, hCwd, hRun, rfl⟩ := h
  obtain ⟨cwd', ip', t', hCwd', hRun', rfl⟩ := h'
  obtain rfl := Option.some.inj (hCwd.symm.trans hCwd')
  obtain ⟨hip, rfl⟩ := Prod.mk.inj (Except.ok.inj (hRun.symm.trans hRun'))
  rw [Option.some.inj hip]

lemma ExecReady.access (h : ExecReady k A me) (cwd : Ip) (hCwd : (k.proc me).cwd = some cwd) :
    Access (fun _ => True) cwd path k.fs (OpenFile k.fs) (fun _ => True) :=
  access_file h.consistent h.unlocked h.dirs h.range (h.cwd cwd hCwd) path

lemma ExecReady.executed (h : ExecReady k A me) (hLen : ∀ s ∈ argv, s.length + 1 < 2 ^ 31) (hArgc : argv.length < maxarg)
    (hRun : kexec me path argv k = .ok (r, k')) (hr : r ≠ -1) (hi : Finds k me path i) :
    r = argv.length ∧ ∃ sp < 2 ^ 64, Executed k me path argv (k.fs.files i) sp k' := by
  obtain ⟨-, ⟨hFailed, -⟩ | ⟨hRet, j, hj, hDone⟩⟩ :=
    wp_ok (kexec_outcome h.owned h.live (fun cwd hCwd => h.access cwd hCwd) (fun _ => trivial) hLen hArgc) hRun
  · exact absurd hFailed hr
  · obtain rfl := hi.unique hj
    exact ⟨hRet, hDone⟩

end

/-! ## Two small executables -/

namespace ExecSample

def phdr (flags off vaddr filesz memsz : Nat) : Text :=
  Bytes.bytesLE 4 1 ++ Bytes.bytesLE 4 flags ++ Bytes.bytesLE 8 off ++ Bytes.bytesLE 8 vaddr ++ Bytes.bytesLE 8 0 ++
    Bytes.bytesLE 8 filesz ++ Bytes.bytesLE 8 memsz ++ Bytes.bytesLE 8 0

def ehdr (phoff phnum : Nat) : Text :=
  Bytes.bytesLE 4 elfMagic ++ List.replicate 20 0 ++ Bytes.bytesLE 8 0 ++ Bytes.bytesLE 8 phoff ++ List.replicate 16 0 ++
    Bytes.bytesLE 2 phnum ++ List.replicate 6 0

def shared : Text := ehdr 64 2 ++ phdr 5 176 0 4 8 ++ phdr 6 180 16 4 12 ++ [1, 2, 3, 4, 5, 6, 7, 8]

def wide : Text := ehdr (2 ^ 32 + 64) 2 ++ phdr 5 0 0 0 8 ++ phdr 4 0 16 0 8

/-- Block 6 is the root directory with the files `a` and `b`. -/
def disk : Nat → Block
  | 4 => Dinode.store ⟨tFile, 0, 0, 1, 176, oneBlock 8⟩
      (Dinode.store ⟨tFile, 0, 0, 1, 184, oneBlock 7⟩
        (Dinode.store ⟨tDir, 0, 0, 1, 64, oneBlock 6⟩ (Bytes.fill 0) 64) 128) 192
  | 5 => (Bytes.fill 0 : Block).write 0 [255, 1]
  | 6 => (Bytes.fill 0 : Block).write 0 (Sample.dirent 1 [46] ++ Sample.dirent 1 [46, 46] ++ Sample.dirent 2 [97] ++ Sample.dirent 3 [98])
  | 7 => (Bytes.fill 0 : Block).write 0 shared
  | 8 => (Bytes.fill 0 : Block).write 0 wide
  | _ => Bytes.fill 0

def unused : FsState := { Sample.fs with sb := { Sample.fs.sb with ninodes := 4 }, disk := disk }

def fs : FsState := unused.setInode Sample.root ⟨rootdev, 1, 1, false, false, Dinode.zero⟩

lemma fs_consistent : Consistent fs :=
  (FsState.consistent_of_check (by decide +kernel) fun _ => rfl : Consistent unused).enter (fun _ => rfl) _ (by decide) _

def init : Pid := Sample.init

def kernel : Kernel := ((Transition.run next [.userinit] Sample.kernel).getD Sample.kernel).setFs fs

lemma kernel_ready : ExecReady kernel [] init := by
  have hInit : (kernel.proc init).cwd = some Sample.root ∧ (kernel.proc init).state ≠ .unused ∧
      (Transition.run next [.userinit] Sample.kernel).isSome = true := by decide +kernel
  obtain ⟨hCwd, hLive, hSome⟩ := hInit
  obtain ⟨k, hk⟩ := Option.isSome_iff_exists.mp hSome
  have hReaches : Reaches (fun _ l => l.Process) k := by
    refine Reaches.of_run (.start Sample.booted) ?_ hk
    intro l hl _
    rw [List.mem_singleton.mp hl]
    trivial
  refine ⟨?_, hLive, fs_consistent, by decide +kernel, dirsOk_of_check (by decide +kernel), dirsInRange_of_check (by decide +kernel), ?_⟩
  · unfold kernel
    rw [hk]
    exact hReaches.owned.setFs fs
  · intro ip hip
    obtain rfl := Option.some.inj (hCwd.symm.trans hip)
    exact Int.one_pos

def pathA : Text := [47, 97]

def pathB : Text := [47, 98]

lemma kexec_returns : (∃ k', kexec init pathA [[120], [121, 122]] kernel = .ok (2, k')) ∧
    ∃ k', kexec init pathB [] kernel = .ok (0, k') := by
  have hTests : Sample.returns (kexec init pathA [[120], [121, 122]]) (fun r _ => r = 2) kernel = true ∧
      Sample.returns (kexec init pathB []) (fun r _ => r = 0) kernel = true := by
    decide +kernel
  obtain ⟨rA, kA, hA, hTwo⟩ := Sample.exists_of_returns hTests.1
  obtain ⟨rB, kB, hB, hZero⟩ := Sample.exists_of_returns hTests.2
  rw [of_decide_eq_true hTwo] at hA
  rw [of_decide_eq_true hZero] at hB
  exact ⟨⟨kA, hA⟩, kB, hB⟩

lemma exists_of_opens {path : Text} {i : Nat} (hCwd : (kernel.proc init).cwd = some Sample.root)
    (h : (match execOpen Sample.root path fs with
      | .ok (some ip, t) => decide ((t.itable ip).inum = i)
      | _ => false) = true) : Finds kernel init path i := by
  split at h
  · rename_i ip t hRun
    exact ⟨Sample.root, ip, t, hCwd, hRun, of_decide_eq_true h⟩
  · cases h

lemma kernel_finds : Finds kernel init pathA 2 ∧ Finds kernel init pathB 3 := by
  have hCwd : (kernel.proc init).cwd = some Sample.root := by decide +kernel
  exact ⟨exists_of_opens hCwd (by decide +kernel), exists_of_opens hCwd (by decide +kernel)⟩

end ExecSample

end Xv6K230
