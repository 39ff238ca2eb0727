import Xv6K230.Kernel.Execute

/-! # Who owns which page

What a page is used for, read off the memory and the process table without the roles,
and the shape of user address spaces as the hardware sees them.
-/

namespace Xv6K230

open Vm Fs Riscv Prog

/-! ## The partition of physical memory -/

inductive PageUse where
  | free
  | table (i : Pid)
  | user (i : Pid) (vpn : Nat) -- guard pages included
  | trapframe (i : Pid)
  | kstack (i : Pid)
  | kernelTable
  | execArg

def Kernel.Uses (k : Kernel) (args : List Nat) (p : Nat) : PageUse → Prop
  | .free => p ∈ k.mem.freelist
  | .table i => (k.proc i).pagetable ≠ 0 ∧ k.mem.TablePage (k.proc i).pagetable p
  | .user i vpn => (k.proc i).pagetable ≠ 0 ∧ vpn < trapframeVpn ∧
      (k.mem.view (k.proc i).pagetable vpn).has pteV ∧ pte2pa (k.mem.view (k.proc i).pagetable vpn) = p
  | .trapframe i => (k.proc i).trapframe ≠ 0 ∧ (k.proc i).trapframe = p
  | .kstack i => k.kpgtbl ≠ 0 ∧ pte2pa (k.mem.view k.kpgtbl (kstackVa i / 4096)) = p
  | .kernelTable => k.kpgtbl ≠ 0 ∧ k.mem.TablePage k.kpgtbl p
  | .execArg => p ∈ args

structure Partition (k : Kernel) (args : List Nat) : Prop where
  nodup : k.mem.freelist.Nodup
  managed : ∀ p u, k.Uses args p u → k.mem.Managed p
  one : ∀ p, k.mem.Managed p → ∃! u, k.Uses args p u

def PageUse.HasRole (k : Kernel) : PageUse → Role → Prop
  | .free, c => c = .free
  | .table i, c => ∃ l a, c = .table (k.proc i).pagetable l a
  | .user i vpn, c => c = .leaf (k.proc i).pagetable vpn
  | .trapframe i, c => c = .frame i
  | .kstack i, c => c = .kstack i
  | .kernelTable, c => ∃ l a, c = .table k.kpgtbl l a
  | .execArg, c => c = .arg

section

variable {k : Kernel} {ρ : Roles} {A : List Nat}

lemma Kernel.Uses.role (hρ : k.Spaced ρ 0 A) {p : Nat} {u : PageUse} (h : k.Uses A p u) : u.HasRole k (ρ p) := by
  cases u with
  | free => exact (hρ.typed.free p).mpr h
  | table i => exact (hρ.typed.toTrees.tablePage_iff (hρ.table i h.1).root).mp h.2
  | user i vpn =>
    obtain ⟨hne, hlt, hV, rfl⟩ := h
    exact ((hρ.table i hne).user vpn hlt hV).2
  | trapframe i =>
    obtain ⟨hne, rfl⟩ := h
    exact hρ.frame i hne
  | kstack i =>
    obtain ⟨hne, rfl⟩ := h
    exact (hρ.stackAt hne i i.isLt).2
  | kernelTable => exact (hρ.typed.toTrees.tablePage_iff (hρ.kernel h.1).1).mp h.2
  | execArg => exact (hρ.args p).mpr h

lemma PageUse.HasRole.ne_outside {u : PageUse} {c : Role} (h : u.HasRole k c) : c ≠ .outside := by
  cases u with
  | table i =>
    obtain ⟨l, a, rfl⟩ := h
    exact Role.noConfusion
  | kernelTable =>
    obtain ⟨l, a, rfl⟩ := h
    exact Role.noConfusion
  | free | user | trapframe | kstack | execArg =>
    cases h
    exact Role.noConfusion

lemma root_pos_of_table (hρ : k.Spaced ρ 0 A) {p r l a : Nat} (hp : ρ p = .table r l a) : r ≠ 0 := by
  rintro rfl
  have hRoot := hρ.typed.toTrees.root_of_table hp
  rw [hρ.zero_outside] at hRoot
  cases hRoot

lemma Kernel.Uses.unique (hρ : k.Spaced ρ 0 A) {p : Nat} {u u' : PageUse} (h : k.Uses A p u)
    (h' : k.Uses A p u') : u = u' := by
  have hRole := h.role hρ
  have hRole' := h'.role hρ
  have hTables : ∀ {i j : Pid} {l a l' a' : Nat}, ρ p = .table (k.proc i).pagetable l a →
      ρ p = .table (k.proc j).pagetable l' a' → i = j := by
    intro i j l a l' a' hi hj
    rw [hi] at hj
    injection hj with hEq
    exact hρ.inj i j (root_pos_of_table hρ hi) hEq
  have hKernel : ∀ {i : Pid} {l a l' a' : Nat}, ρ p = .table (k.proc i).pagetable l a →
      ρ p = .table k.kpgtbl l' a' → False := by
    intro i l a l' a' hi hk
    rw [hi] at hk
    injection hk with hEq
    exact hρ.root_ne (i := i) (root_pos_of_table hρ hi) hEq
  cases u <;> cases u' <;> simp only [PageUse.HasRole] at hRole hRole' <;>
    first
    | rfl
    | exact absurd (hRole.symm.trans hRole') Role.noConfusion
    | (obtain ⟨l', a', hRole'⟩ := hRole'; exact absurd (hRole.symm.trans hRole') Role.noConfusion)
    | (obtain ⟨l, a, hRole⟩ := hRole; exact absurd (hRole.symm.trans hRole') Role.noConfusion)
    | skip
  case table.table i j =>
    obtain ⟨l, a, hRole⟩ := hRole
    obtain ⟨l', a', hRole'⟩ := hRole'
    rw [hTables hRole hRole']
  case table.kernelTable i =>
    obtain ⟨l, a, hRole⟩ := hRole
    obtain ⟨l', a', hRole'⟩ := hRole'
    exact (hKernel hRole hRole').elim
  case kernelTable.table i =>
    obtain ⟨l, a, hRole⟩ := hRole
    obtain ⟨l', a', hRole'⟩ := hRole'
    exact (hKernel hRole' hRole).elim
  case user.user i v j w =>
    rw [hRole] at hRole'
    injection hRole' with hEq hvw
    rw [hvw, hρ.inj i j h.1 hEq]
  case trapframe.trapframe i j =>
    rw [hRole] at hRole'
    injection hRole' with hEq
    rw [Fin.ext hEq]
  case kstack.kstack i j =>
    rw [hRole] at hRole'
    injection hRole' with hEq
    rw [Fin.ext hEq]

lemma Kernel.Uses.exists_of_managed (hρ : k.Spaced ρ 0 A) {p : Nat} (hp : k.mem.Managed p) :
    ∃ u, k.Uses A p u := by
  have hne := (hρ.typed.managed p).mpr hp
  -- the owner of a table, the kernel or a process
  have hOwner : ∀ {q r l a : Nat}, ρ q = .table r l a → r = k.kpgtbl ∨ ∃ i : Pid, (k.proc i).pagetable = r := by
    intro q r l a hq
    obtain hr | hr | ⟨i, hi⟩ := hρ.owner q r l a hq
    · exact .inl hr
    · exact absurd hr (root_pos_of_table hρ hq)
    · exact .inr ⟨i, hi⟩
  cases hc : ρ p with
  | outside => exact absurd hc hne
  | free => exact ⟨.free, (hρ.typed.free p).mp hc⟩
  | held => exact absurd hc (hρ.held p)
  | arg => exact ⟨.execArg, (hρ.args p).mp hc⟩
  | table r l a =>
    have hPage := (hρ.typed.toTrees.tablePage_iff (hρ.typed.toTrees.root_of_table hc)).mpr ⟨l, a, hc⟩
    have hpos := root_pos_of_table hρ hc
    obtain rfl | ⟨i, rfl⟩ := hOwner hc
    · exact ⟨.kernelTable, hpos, hPage⟩
    · exact ⟨.table i, hpos, hPage⟩
  | leaf r v =>
    obtain ⟨hRoot, -⟩ := hρ.typed.leafRoot p r v hc
    obtain ⟨hV, hpa⟩ := hρ.typed.leafUp p r v hc
    obtain rfl | ⟨i, rfl⟩ := hOwner hRoot
    · exact absurd hc (hρ.plain p v)
    · have hpos := root_pos_of_table hρ hRoot
      have hTable := hρ.table i hpos
      exact ⟨.user i v, hpos, lt_of_lt_of_le (hTable.leaf p v hc) hTable.bound, hV, hpa⟩
  | frame n =>
    obtain ⟨i, -, hi⟩ := hρ.frameOwner p n hc
    have hpos : p ≠ 0 := by
      rintro rfl
      exact hne hρ.zero_outside
    exact ⟨.trapframe i, fun hz => hpos (hi.symm.trans hz), hi⟩
  | kstack n =>
    obtain ⟨hn, hk, hpa⟩ := hρ.stackOf p n hc
    exact ⟨.kstack ⟨n, hn⟩, hk, hpa⟩

lemma Owned.partition (hk : Owned k A) : Partition k A := by
  obtain ⟨ρ, hρ⟩ := hk.spaces
  refine ⟨hρ.typed.nodup, ?_, ?_⟩
  · intro p u hu
    exact (hρ.typed.managed p).mp (hu.role hρ).ne_outside
  · intro p hp
    obtain ⟨u, hu⟩ := Kernel.Uses.exists_of_managed hρ hp
    exact ⟨u, hu, fun u' hu' => hu'.unique hρ hu⟩

end

/-- In every state that boot, fork, exec, exit, wait, sbrk, kill and traps lead to, each
page of the allocator has exactly one use. The same holds inside `sys_exec`, where the
argument pages are one of the uses. -/
theorem page_partition {k : Kernel} (h : Reaches (fun _ l => l.Process) k) :
    Partition k [] ∧
    ∀ (me : Pid) (path : Text) (uargv : Nat) (pages : List Nat) (strs : Option (List Text)) (m : Mem),
      (k.proc me).state = .running →
      fetchArgs (k.proc me) uargv maxarg 0 [] [] k.mem = .ok ((pages, strs), m) →
      Partition (k.setMem m) pages ∧
      ∀ (r : Int) (k' : Kernel), execStrings me path strs (k.setMem m) = .ok (r, k') → Partition k' pages := by
  have hk := h.owned
  refine ⟨hk.partition, ?_⟩
  intro me path uargv pages strs m hMe hFetch
  have hLive : (k.proc me).state ≠ .unused := by
    rw [hMe]
    decide
  obtain ⟨ρ, hρ⟩ := hk.spaces
  have hArgs := wp_ok (fetchArgs_spec (E := fun _ => True) (p := k.proc me) rfl (hk.live me hLive).1 uargv _ _ _ _ hρ
    List.nodup_nil (fun s hs => absurd hs List.not_mem_nil)) hFetch
  obtain ⟨⟨ρ', hρ'⟩, -, hStrs⟩ := hArgs
  have hk' : Owned (k.setMem m) pages := hk.of_spaces hρ'
  refine ⟨hk'.partition, ?_⟩
  intro r k2 hExec
  have hRun := wp_ok (execStrings_owned (E := fun _ => True) (fun _ _ => trivial) me path hStrs hk' hLive) hExec
  exact hRun.1.partition

/-- On the machine on which `init` is at work. -/
theorem page_partition_init : Partition Sample.atWork [] :=
  (page_partition (Sample.reaches_atWork Sample.start_process)).1

/-! ## The shape of user address spaces -/

/-- The entry at which the hardware ends its walk for page `vpn`: a valid entry of the last
level, or one with permissions above it. -/
def Vm.Mem.leafPte (m : Mem) (root vpn : Nat) : Option Pte :=
  let e2 := m.pte root (vpn / 512 / 512 % 512)
  let e1 := m.pte (pte2pa e2) (vpn / 512 % 512)
  let e0 := m.pte (pte2pa e1) (vpn % 512)
  if !e2.has pteV then none
  else if e2.has (pteR ||| pteW ||| pteX) then some e2
  else if !e1.has pteV then none
  else if e1.has (pteR ||| pteW ||| pteX) then some e1
  else if !e0.has pteV then none
  else some e0

lemma Vm.Trees.leafPte_eq {m : Mem} {ρ : Roles} (h : Trees m ρ) {r v : Nat} (hr : ρ r = .table r 2 0) {e : Pte}
    (he : m.leafPte r v = some e) : (m.view r v).has pteV ∧ e = m.view r v := by
  unfold Mem.leafPte at he
  unfold Mem.view Mem.slot
  cases hV2 : (m.pte r (v / 512 / 512 % 512)).has pteV with
  | false => simp [hV2] at he
  | true =>
    obtain ⟨hd, hInner⟩ := h.down r r 1 0 hr _ (Nat.mod_lt _ (by decide)) hV2
    cases hV1 : (m.pte (pte2pa (m.pte r (v / 512 / 512 % 512))) (v / 512 % 512)).has pteV with
    | false => simp [hV2, hInner, hV1] at he
    | true =>
      obtain ⟨-, hInner'⟩ := h.down _ r 0 _ hd _ (Nat.mod_lt _ (by decide)) hV1
      simp only [hV2, hInner, hV1, hInner', Bool.not_true, Bool.false_eq_true, if_false] at he
      simp only [if_true]
      split at he
      · cases he
      · grind

/-- Sizes stay below the trapframe, mapped pages stay below the size, and the functions
that grow, shrink, fault in, replace and free a space run into none of the panics of the
memory system. -/
theorem user_space_shape {k : Kernel} (h : Reaches (fun _ l => l.Process) k) {i : Pid}
    (hi : (k.proc i).state ≠ .unused) :
    (k.proc i).sz ≤ trapframeVa ∧
    (∀ v < 512 ^ 3, ∀ e, k.mem.leafPte (k.proc i).pagetable v = some e →
      (v * 4096 < pgroundup (k.proc i).sz ∨ v * 4096 = trampolineVa ∨ v * 4096 = trapframeVa) ∧
      (e.has pteU → v * 4096 < pgroundup (k.proc i).sz)) ∧
    (∀ n e, growproc i n k ≠ .error e) ∧
    (∀ va e, vmfault (k.proc i).pagetable (k.proc i).sz (k.proc i).pagetable va k.mem ≠ .error e) ∧
    (∀ e, freeproc i k ≠ .error e) ∧
    ∀ path argv, (∀ s ∈ argv, s.length < pgsize) → ∀ e, kexec i path argv k = .error e → ¬ e.OfVm := by
  have hk := h.owned
  obtain ⟨ρ, hρ⟩ := hk.spaces
  have hTable := hk.table hρ hi
  have hSize : (k.proc i).sz ≤ trapframeVa := hρ.size i
  refine ⟨hSize, ?_, ?_, ?_, ?_, ?_⟩
  · intro v hv e he
    obtain ⟨hV, rfl⟩ := hρ.typed.toTrees.leafPte_eq hTable.root he
    rw [pgroundup_npages hSize, trampolineVa_eq, trapframeVa_eq]
    by_cases hlt : v < trapframeVpn
    · have hUser := (hTable.user v hlt hV).1
      exact ⟨.inl (by omega), fun _ => by omega⟩
    · grind [hTable.top, trapframeVpn, trampolineVpn]
  · intro n e hErr
    exact wp_error (growproc_owned (E := fun _ => False) i n hk hi) hErr
  · intro va e hErr
    exact wp_error (vmfault_spec (E := fun _ => False) hρ.typed hTable hSize) hErr
  · intro e hErr
    exact wp_error (freeproc_owned (E := fun _ => False) i hk) hErr
  · intro path argv hLen e hErr
    have hStop := wp_error (kexec_owned (E := fun e => ¬ e.OfVm) (fun _ h => h) i path hLen hk hi) hErr
    exact hStop

theorem user_space_shape_init : (Sample.atWork.proc Sample.init).state ≠ .unused ∧
    (Sample.atWork.proc Sample.init).sz ≤ trapframeVa ∧ ∀ e, freeproc Sample.init Sample.atWork ≠ .error e := by
  have hUsed : (Sample.atWork.proc Sample.init).state ≠ .unused := by
    rw [Sample.atWork_working.1]
    decide
  obtain ⟨hSize, -, -, -, hFree, -⟩ := user_space_shape (Sample.reaches_atWork Sample.start_process) hUsed
  exact ⟨hUsed, hSize, hFree⟩

end Xv6K230
