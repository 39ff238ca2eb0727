import Xv6K230.Exec.Files

/-! # The arguments of an executed program

Once an image is loaded, `kexec` succeeds exactly if the arguments fit in the stack page, and then
the program finds them where register a1 points.
-/

namespace Xv6K230

open Vm Fs Riscv Prog Elf Names

def Vm.Mem.WordAt (m : Mem) (r sz a w : Nat) : Prop := m.bytesAt r sz a 8 = (Bytes.bytesLE 8 w).map some

section

variable {m : Mem} {r sz : Nat}

lemma length_bytesAt (a k : Nat) : (m.bytesAt r sz a k).length = k := by
  rw [Mem.bytesAt, List.length_map, List.length_range]

lemma wordAt_of_array : ∀ {ws : List Nat} {a : Nat}, m.bytesAt r sz a (8 * ws.length) = (ws.flatMap (Bytes.bytesLE 8)).map some →
    ∀ i w, ws[i]? = some w → m.WordAt r sz (a + 8 * i) w := by
  intro ws
  induction ws with
  | nil =>
    intro a _ i w hw
    cases hw
  | cons x ws ih =>
    intro a h i w hw
    rw [List.length_cons, Nat.mul_succ, Nat.add_comm, bytesAt_add, List.flatMap_cons, List.map_append] at h
    obtain ⟨hHead, hTail⟩ := List.append_inj h (by rw [length_bytesAt, List.length_map, Bytes.length_bytesLE])
    cases i with
    | zero =>
      obtain rfl := Option.some.inj hw
      exact hHead
    | succ i =>
      rw [Nat.mul_succ, Nat.add_comm (8 * i), ← Nat.add_assoc]
      exact ih hTail i w hw

end

/-- Where the new program finds its arguments: the array of addresses at `sp`, strings that are apart from it and from
each other, all of them above `base`. -/
structure Arguments (m : Mem) (r sz base : Nat) (argv : List Text) (sp : Nat) (as : List Nat) : Prop where
  length : as.length = argv.length
  aligned : sp % 16 = 0
  word : ∀ (i a : Nat), as[i]? = some a → m.WordAt r sz (sp + 8 * i) a
  last : m.WordAt r sz (sp + 8 * argv.length) 0
  string : ∀ (i a : Nat) (s : Text), as[i]? = some a → argv[i]? = some s → m.bytesAt r sz a (s.length + 1) = (s ++ [0]).map some ∧
    sp + 8 * (argv.length + 1) ≤ a ∧ a + (s.length + 1) ≤ sz
  apart : ∀ (i j a b : Nat) (s t : Text), i < j → as[i]? = some a → argv[i]? = some s → as[j]? = some b → argv[j]? = some t → b + (t.length + 1) ≤ a
  above : base ≤ sp

lemma ArgumentsAt.arguments {m : Mem} {r sz base sp : Nat} {argv : List Text} {as : List Nat}
    (h : ArgumentsAt m r sz base argv sp as) : Arguments m r sz base argv sp as := by
  have hWords : ∀ i w, (as ++ [0])[i]? = some w → m.WordAt r sz (sp + 8 * i) w := by
    apply wordAt_of_array
    rw [List.length_append, h.length]
    exact h.array
  have hZip : ∀ {i a : Nat} {s : Text}, as[i]? = some a → argv[i]? = some s → (as.zip argv)[i]? = some (a, s) := by
    intro i a s ha hs
    rw [List.getElem?_zip_eq_some]
    exact ⟨ha, hs⟩
  refine ⟨h.length, h.aligned, fun i a ha => ?_, ?_, fun i a s ha hs => ?_, fun i j a b s t hij ha hs hb ht => ?_, h.above⟩
  · grind
  · have hLast := hWords as.length 0 (List.getElem?_concat_length ..)
    rwa [h.length] at hLast
  · have hMem := List.mem_of_getElem? (hZip ha hs)
    have hString := h.strings (a, s) hMem
    have hBounds := h.bounds (a, s) hMem
    dsimp only at hString hBounds
    exact ⟨hString, hBounds⟩
  · grind [h.apart, List.pairwise_iff_getElem]

section

variable {k : Kernel} {A : List Nat} {me : Pid} {argv : List Text}

lemma kexec_of_load {me : Pid} {path : Text} {argv : List Text} {k k1 : Kernel} {res : Option (Nat × Nat × Nat)} :
    execLoad me path k = .ok (res, k1) → kexec me path argv k =
      (match res with
      | none => return -1
      | some (x, sz, start) => execFinish me path argv x sz start : KM Int) k1 := by
  intro hLoad
  rw [kexec_eq]
  change Prog.seq (execLoad me path) _ k = _
  rewrite [Prog.seq, hLoad]
  cases res <;> rfl

/-- If loading fails, so does `kexec`. If an image is loaded, `kexec` fails exactly if the arguments with their padding do not
fit in the stack page. Otherwise it returns the number of arguments; a1 and sp point to the array of their addresses. -/
theorem exec_arguments (h : ExecReady k A me) (hLen : ∀ s ∈ argv, s.length + 1 < 2 ^ 31) (hArgc : argv.length ≤ maxarg - 1)
    (path : Text) :
    (∀ k1, execLoad me path k = .ok (none, k1) → kexec me path argv k = .ok (-1, k1)) ∧
    ∀ x sz entry k1, execLoad me path k = .ok (some (x, sz, entry), k1) → ∃ r k', kexec me path argv k = .ok (r, k') ∧
      (r = -1 ↔ userstack * pgsize < stackRoom argv) ∧
      (r ≠ -1 → r = argv.length ∧ (k'.proc me).pagetable = x ∧ (k'.proc me).sz = sz ∧ ∃ sp as,
        (k'.mem.page (k'.proc me).trapframe).getLE 120 8 = sp ∧ (k'.mem.page (k'.proc me).trapframe).getLE 48 8 = sp ∧
        Arguments k'.mem x sz (sz - userstack * pgsize) argv sp as ∧ ¬ k'.mem.MappedUser x ((sz - userstack * pgsize) / 4096 - 1)) := by
  have hFew : argv.length < maxarg := by
    simp only [maxarg] at hArgc ⊢
    omega
  refine ⟨fun k1 hLoad => kexec_of_load hLoad, fun x sz entry k1 hLoad => ?_⟩
  have hLoaded := wp_ok (execLoad_spec h.owned h.live (fun cwd hCwd => h.access cwd hCwd) (fun _ => trivial)) hLoad
  dsimp only at hLoaded
  obtain ⟨m, fs, rfl, -, i, ρ, ρ', -, hsz, hEntry, hReady⟩ := hLoaded
  have hFinish := execFinish_spec (E := fun _ => False) h.owned h.live hReady fs path hLen hFew
  rw [← hsz, ← hEntry] at hFinish
  obtain ⟨r, k', hRun, hRes⟩ := wp_total hFinish
  refine ⟨r, k', (kexec_of_load hLoad).trans hRun, ?_, fun hr => ?_⟩
  · rw [userstack, pgsize, Nat.one_mul]
    rcases hRes with ⟨rfl, hRoom, -⟩ | ⟨rfl, hRoom, -⟩ <;> omega
  · obtain ⟨rfl, -⟩ | ⟨rfl, -, -, hRoot, sp, hsp, hDone⟩ := hRes
    · exact absurd rfl hr
    obtain ⟨y, hProc⟩ := hDone.proc
    obtain ⟨as, hArgs⟩ := hDone.args
    have hSize : (k'.proc me).sz = sz := by rw [hProc, hsz]
    have hFrame : (k'.proc me).trapframe = (k.proc me).trapframe := by rw [hProc]
    have hBase : sz - userstack * pgsize = (npages (extent (taken (k.fs.files i))) + 1) * 4096 := by
      rw [hsz, imageTop, userstack, pgsize]
      omega
    refine ⟨rfl, hRoot, hSize, sp, as, ?_, ?_, ?_, ?_⟩
    · grind [hDone.frame, Bytes.getLE_putLE_of_disjoint, Bytes.getLE_putLE_same, Nat.mod_eq_of_lt]
    · rw [hFrame, hDone.frame, Bytes.getLE_putLE_same _ _ (by decide)]
      exact Nat.mod_eq_of_lt hsp
    · rw [hBase, ← hRoot, ← hSize]
      exact hArgs.arguments
    · rw [hBase, Nat.mul_div_cancel _ (by decide), Nat.add_sub_cancel, ← hRoot]
      exact hDone.guard

open ExecSample in
/-- Two arguments of one and two bytes: the program gets argc 2 and finds both. -/
theorem exec_arguments_two : ∃ k', kexec init pathA [[120], [121, 122]] kernel = .ok (2, k') ∧ ∃ sp as,
    (k'.mem.page (k'.proc init).trapframe).getLE 120 8 = sp ∧
    Arguments k'.mem (k'.proc init).pagetable (k'.proc init).sz ((k'.proc init).sz - userstack * pgsize) [[120], [121, 122]] sp as := by
  obtain ⟨k', hRun⟩ := kexec_returns.1
  have hLen : ∀ s ∈ ([[120], [121, 122]] : List Text), s.length + 1 < 2 ^ 31 := by decide
  obtain ⟨hNone, hSome⟩ := exec_arguments kernel_ready hLen (by decide) pathA
  refine ⟨k', hRun, ?_⟩
  cases hLoad : execLoad init pathA kernel with
  | error e =>
    have hError : kexec init pathA [[120], [121, 122]] kernel = .error e := by
      rw [kexec_eq]
      change Prog.seq (execLoad init pathA) _ kernel = _
      rw [Prog.seq, hLoad]
    rw [hError] at hRun
    cases hRun
  | ok a =>
    obtain ⟨_ | ⟨x, sz, start⟩, k1⟩ := a
    · rw [hNone k1 hLoad] at hRun
      cases hRun
    · grind

end

end Xv6K230
