import Xv6K230.Kernel.ExecMemory
import Xv6K230.Vm.Map
import Xv6K230.Lib.Transition

/-! # Runs of the kernel

Memory at boot, the steps and the invariant of all states they lead to, and a small machine on
which runs are computed: 47 pages of memory, and a disk with a root directory and a program
`init` without segments.
-/

namespace Xv6K230

open Vm Riscv Prog

/-! ## The free list -/

section

variable {E : Stop → Prop} {m : Mem}

/-- Before `kinit` every page of the range is in the hands of the kernel. -/
def bootRoles (m : Mem) : Roles := fun p =>
  if p % 4096 = 0 ∧ m.kend ≤ p ∧ p + 4096 ≤ m.phystop then .held else .outside

lemma bootRoles_typed (hk : 0 < m.kend) (hs : m.phystop ≤ trapframeVa) (hf : m.freelist = []) :
    Typed m (bootRoles m) := by
  have hCases : ∀ p, bootRoles m p = .held ∨ bootRoles m p = .outside := by
    intro p
    unfold bootRoles
    split
    · exact .inl rfl
    · exact .inr rfl
  refine Alloc.typed ⟨⟨hk, hs⟩, ?_, ?_, ?_⟩ fun p => (hCases p).imp_right .inr
  · grind [bootRoles, Mem.Managed]
  · grind
  · rw [hf]
    exact List.nodup_nil

lemma mem_rangePages {a b p : Nat} (hb : b ≤ trapframeVa) (hab : a ≤ b) :
    p ∈ rangePages a b ↔ p % 4096 = 0 ∧ a ≤ p ∧ p + 4096 ≤ b := by
  rw [trapframeVa_eq] at hb
  simp only [rangePages, pgroundup_eq (show a + 4095 < 2 ^ 64 by omega), List.mem_map, List.mem_range, pgsize]
  constructor
  · rintro ⟨i, hi, rfl⟩
    omega
  · rintro ⟨hAlign, hLow, hHigh⟩
    exact ⟨(p - (a + 4095) / 4096 * 4096) / 4096, by omega, by omega⟩

lemma nodup_rangePages (a b : Nat) : (rangePages a b).Nodup := by
  refine List.nodup_range.map ?_
  intro i j hij
  simp only [pgsize] at hij
  omega

lemma kinit_spec (hk : 0 < m.kend) (hkp : m.kend ≤ m.phystop) (hs : m.phystop ≤ trapframeVa)
    (hf : m.freelist = []) :
    wp kinit E (fun _ m' => ∃ ρ, Typed m' ρ ∧ m'.kend = m.kend ∧ m'.phystop = m.phystop ∧
      ∀ p, ρ p = .free ∨ ρ p = .outside) m := by
  have hMem := fun p => mem_rangePages (p := p) hs hkp
  simp only [kinit, wp_bind, wp_read, freerange, id_eq]
  refine wp_post (wp_eachM (I := fun l m' => (∃ ρ, Typed m' ρ ∧ m'.kend = m.kend ∧ m'.phystop = m.phystop ∧
    ∀ p, (ρ p = .held ∧ p ∈ l) ∨ (ρ p = .free ∨ ρ p = .outside) ∧ p ∉ l) ∧ l.Nodup) ?_ _ _
    ⟨⟨bootRoles m, bootRoles_typed hk hs hf, rfl, rfl, ?_⟩, nodup_rangePages _ _⟩) ?_
  · rintro p l m1 ⟨⟨ρ1, ht1, hk1, hs1, hρ1⟩, hnd⟩
    obtain ⟨hNew, hnd'⟩ := List.nodup_cons.mp hnd
    have hp : ρ1 p = .held := by
      grind
    refine kfree_spec ht1 (by rw [hp]; trivial) ?_
    intro m2 hTook ht2
    refine ⟨⟨_, ht2, hTook.kend.symm.trans hk1, hTook.phystop.symm.trans hs1, ?_⟩, hnd'⟩
    intro q
    by_cases hqp : q = p
    · subst hqp
      rw [Function.update_self]
      exact .inr ⟨.inl rfl, hNew⟩
    · grind
  · intro p
    rw [hMem p]
    unfold bootRoles
    split
    · rename_i h
      exact .inl ⟨rfl, h⟩
    · rename_i h
      exact .inr ⟨.inr rfl, h⟩
  · grind

end

/-! ## The kernel table -/

section

variable {m : Mem} {ρ : Roles} {r : Nat}

lemma kvmmap_spec {va pa sz : Nat} {perm : Pte} (ht : Typed m ρ) (hr : ρ r = .table r 2 0) :
    wp (kvmmap r va pa sz perm) (fun _ => True) (fun _ m' => ∃ ρ', Typed m' ρ' ∧ Grown r m ρ m' ρ' ∧
      (∀ v < 512 ^ 3, (m.view r v).has pteV → m'.view r v = m.view r v) ∧
      m'.view r (va / 4096) = pa2pte pa ||| perm ||| pteV) m := by
  simp only [kvmmap, mappages, wp_bind, wp_ite, wp_stop, implies_true, true_and]
  intro _ hAlign hPos
  refine wp_mono (mappagesLoop_spec _ _ _ ht hr) (fun _ _ => trivial) ?_
  rintro ok m' ⟨ρ', ht', hGrown, hView, hSet⟩
  cases ok with
  | true =>
    simp only [Bool.not_true, Bool.false_eq_true, not_false_iff, true_implies, wp_pure]
    have hFirst := hSet rfl 0 (by simp only [pgsize] at *; omega)
    rw [zero_mul, add_zero, add_zero] at hFirst
    exact ⟨ρ', ht', hGrown, fun v hv hMapped => hView v hv (.inl hMapped), hFirst⟩
  | false => simp

structure KernelTable (r n : Nat) (m : Mem) (ρ : Roles) (m1 : Mem) (ρ1 : Roles) : Prop where
  typed : Typed m1 ρ1
  root : ρ1 r = .table r 2 0
  kend : m1.kend = m.kend
  phystop : m1.phystop = m.phystop
  keep : ∀ p, ρ p ≠ .free → ρ1 p = ρ p ∧ m1.page p = m.page p
  new : ∀ p, ρ p = .free → ρ1 p = .free ∨ (∃ l a, ρ1 p = .table r l a) ∨ ∃ i, ρ1 p = .kstack i
  stackOf : ∀ p i, ρ1 p = .kstack i → i < n ∧ pte2pa (m1.view r (kstackVa i / 4096)) = p
  stackAt : ∀ i < n, (m1.view r (kstackVa i / 4096)).has pteV ∧
    ρ1 (pte2pa (m1.view r (kstackVa i / 4096))) = .kstack i

lemma kstackVa_vpn (i : Nat) : kstackVa i / 4096 < 512 ^ 3 := by
  simp only [kstackVa, trampolineVa_eq, pgsize]
  omega

lemma KernelTable.grown {n : Nat} {m1 m2 : Mem} {ρ1 ρ2 : Roles} (h : KernelTable r n m ρ m1 ρ1)
    (hNoTable : ∀ p l a, ρ p ≠ .table r l a) (ht2 : Typed m2 ρ2) (hGrown : Grown r m1 ρ1 m2 ρ2)
    (hView : ∀ v < 512 ^ 3, (m1.view r v).has pteV → m2.view r v = m1.view r v) :
    KernelTable r n m ρ m2 ρ2 := by
  have hKeep := fun {p : Nat} {c : Role} => hGrown.role_of_ne_free (p := p) (c := c)
  have hStack : ∀ i < n, m2.view r (kstackVa i / 4096) = m1.view r (kstackVa i / 4096) :=
    fun i hi => hView _ (kstackVa_vpn i) (h.stackAt i hi).1
  refine ⟨ht2, hKeep h.root Role.noConfusion, hGrown.kend.trans h.kend, hGrown.phystop.trans h.phystop, ?_, ?_, ?_, ?_⟩
  · grind [h.keep, hGrown.page]
  · grind [h.new, hGrown.role]
  · grind [hGrown.role, h.stackOf]
  · grind [h.stackAt]

lemma mapstack_spec {n : Nat} {m1 : Mem} {ρ1 : Roles} (h : KernelTable r n m ρ m1 ρ1)
    (hNoTable : ∀ p l a, ρ p ≠ .table r l a) :
    wp (kalloc >>= fun pa => if pa = 0 then Prog.stop .mapstacksKalloc
      else kvmmap r (kstackVa n) pa pgsize (pteR ||| pteW ||| pteTheadMaee ||| pteA ||| pteD)) (fun _ => True)
      (fun _ m' => ∃ ρ', KernelTable r (n + 1) m ρ m' ρ') m1 := by
  rw [wp_bind]
  refine kalloc_spec h.typed (c := .kstack n) trivial ?_ ?_
  · intro _
    rw [if_pos rfl, wp_stop]
    trivial
  · intro pa m2 hpos hFree hTook ht2
    have hRoot2 : Function.update ρ1 pa (.kstack n) r = .table r 2 0 := by
      rw [Function.update_of_ne (ne_of_role h.root hFree Role.noConfusion), h.root]
    have hView2 : ∀ v, m2.view r v = m1.view r v := by
      refine fun v => h.typed.toTrees.view_congr h.root (fun q l a hq => hTook.page q ?_) v
      exact ne_of_role hq hFree Role.noConfusion
    obtain ⟨-, hAlign, hlt⟩ := h.typed.toAlloc.pos_of_role (p := pa) (by rw [hFree]; exact Role.noConfusion)
    rw [if_neg hpos]
    refine wp_post (kvmmap_spec ht2 hRoot2) ?_
    rintro - m3 ⟨ρ3, ht3, hGrown, hView, hSet⟩
    have hKeep := fun {p : Nat} {c : Role} => hGrown.role_of_ne_free (p := p) (c := c)
    have hpa : ρ3 pa = .kstack n := hKeep (Function.update_self ..) Role.noConfusion
    have hAddr : pte2pa (m3.view r (kstackVa n / 4096)) = pa := by
      rw [hSet, pte2pa_entry hAlign (by omega) (by decide)]
    have hValid : (m3.view r (kstackVa n / 4096)).has pteV := by
      rw [hSet, has_pteV, getLsbD_entry _ _ (by decide)]
      simp
    have hStack : ∀ i < n, m3.view r (kstackVa i / 4096) = m1.view r (kstackVa i / 4096) := by
      grind [h.stackAt, kstackVa_vpn]
    refine ⟨ρ3, ht3, hKeep hRoot2 Role.noConfusion, (hGrown.kend.trans hTook.kend).trans h.kend,
      (hGrown.phystop.trans hTook.phystop).trans h.phystop, ?_, ?_, ?_, ?_⟩
    · grind [h.keep, hGrown.page, hTook.page]
    · grind [hGrown.role, h.new]
    · grind [hGrown.role, h.stackOf]
    · grind [h.stackAt]

lemma procMapstacks_spec {m1 : Mem} {ρ1 : Roles} (h : KernelTable r 0 m ρ m1 ρ1)
    (hNoTable : ∀ p l a, ρ p ≠ .table r l a) (n : Nat) :
    wp (procMapstacks r n) (fun _ => True) (fun _ m' => ∃ ρ', KernelTable r n m ρ m' ρ') m1 := by
  refine wp_post (wp_eachM (I := fun l m' => ∃ j ρ', l = List.range' j (n - j) ∧ j ≤ n ∧ KernelTable r j m ρ m' ρ')
    ?_ _ _ ⟨0, ρ1, by rw [List.range_eq_range', Nat.sub_zero], Nat.zero_le n, h⟩) ?_
  · rintro i l m2 ⟨j, ρ2, hl, hj, h2⟩
    have hlt : j < n := by
      by_contra hge
      rw [show n - j = 0 by omega] at hl
      cases hl
    rw [show n - j = (n - (j + 1)) + 1 by omega, List.range'_succ] at hl
    injection hl with hi hl
    subst hi
    refine wp_post (mapstack_spec h2 hNoTable) ?_
    rintro - m3 ⟨ρ3, h3⟩
    exact ⟨i + 1, ρ3, hl, hlt, h3⟩
  · rintro - m' ⟨j, ρ', hl, hj, h'⟩
    have hEnd : n - j = 0 := by
      grind
    obtain rfl : j = n := by omega
    exact ⟨ρ', h'⟩

lemma kvmmap_empty {va pa : Nat} {perm : Pte} {Q : Unit → Mem → Prop} (hva : va % 4096 = 0)
    (hf : m.freelist = []) (hPage : m.page r = Bytes.fill 0) :
    wp (kvmmap r va pa pgsize perm) (fun _ => True) Q m := by
  simp only [kvmmap, mappages_page hva, mappagesLoop, wp_bind, walk]
  split
  · rw [wp_stop]
    trivial
  · simp only [walkFrom, wp_bind, wp_read, pte_of_zero m hPage]
    rw [if_neg (by decide), if_neg (by decide), wp_bind]
    simp only [kalloc, wp_bind, wp_read, hf, wp_pure, if_true, Bool.not_false, wp_stop]

lemma kvmmake_spec (etext tramp n : Nat) (ht : Typed m ρ) (hNoStack : ∀ p i, ρ p ≠ .kstack i) :
    wp (kvmmake etext tramp n) (fun _ => True) (fun r m' => ρ r = .free ∧ ∃ ρ', KernelTable r n m ρ m' ρ') m := by
  unfold kvmmake
  rw [wp_bind, wp_read, wp_bind]
  refine kalloc_spec ht (c := .held) trivial ?_ ?_
  · intro hNil
    rw [wp_bind, memset, wp_update, wp_bind]
    exact kvmmap_empty (by norm_num [uart0]) hNil (setPage_page_same ..)
  · intro r m1 hpos hFree hTook ht1
    have hNoTable : ∀ p l a, ρ p ≠ .table r l a := by
      intro p l a hp
      have hRoot := ht.toTrees.root_of_table hp
      rw [hFree] at hRoot
      cases hRoot
    have hHold : Holding r r (Bytes.fill 0) m ρ _ _ := holding_of_took (r := r) hFree hTook ht1 (Bytes.fill 0)
    have hNew := hHold.typed.newRoot (by rw [hHold.held]; trivial) (pte_of_zero _ (setPage_page_same ..))
    have hStart : KernelTable r 0 m ρ (m1.setPage r (Bytes.fill 0))
        (Function.update (Function.update ρ r .held) r (.table r 2 0)) := by
      refine ⟨hNew, Function.update_self .., hTook.kend, hTook.phystop, ?_, ?_, ?_, fun i hi => absurd hi (by omega)⟩
      · grind [hTook.page, Function.update_idem, Function.update_apply, setPage_page_of_ne]
      · grind
      · grind
    -- each mapping extends the table
    have hMap : ∀ {va pa sz : Nat} {perm : Pte} {m2 : Mem} {ρ2 : Roles}, KernelTable r 0 m ρ m2 ρ2 →
        wp (kvmmap r va pa sz perm) (fun _ => True) (fun _ m3 => ∃ ρ3, KernelTable r 0 m ρ m3 ρ3) m2 := by
      intro va pa sz perm m2 ρ2 h2
      refine wp_post (kvmmap_spec h2.typed h2.root) ?_
      rintro - m3 ⟨ρ3, ht3, hGrown, hView, -⟩
      exact ⟨ρ3, h2.grown hNoTable ht3 hGrown hView⟩
    rw [wp_bind, memset, wp_update, wp_bind]
    refine wp_post (hMap hStart) ?_
    rintro - m2 ⟨ρ2, h2⟩
    rw [wp_bind]
    refine wp_post (hMap h2) ?_
    rintro - m3 ⟨ρ3, h3⟩
    rw [wp_bind]
    refine wp_post (hMap h3) ?_
    rintro - m4 ⟨ρ4, h4⟩
    rw [wp_bind]
    refine wp_post (hMap h4) ?_
    rintro - m5 ⟨ρ5, h5⟩
    rw [wp_bind]
    refine wp_post (hMap h5) ?_
    rintro - m6 ⟨ρ6, h6⟩
    rw [wp_bind]
    refine wp_post (procMapstacks_spec h6 hNoTable n) ?_
    rintro - m7 ⟨ρ7, h7⟩
    rw [wp_pure]
    exact ⟨hFree, ρ7, h7⟩

end

lemma Spaces.boot {m m' : Mem} {ρ ρ' : Roles} {tr r : Nat} {U : Pid → Space} {A : List Nat}
    (h : Spaces m ρ tr 0 U 0 A) (hFree : ρ r = .free) (hb : KernelTable r nproc m ρ m' ρ') :
    Spaces m' ρ' tr r U 0 A := by
  have hKeep : ∀ {p : Nat} {c : Role}, ρ p = c → c ≠ .free → ρ' p = c :=
    fun {p c} hp hc => (hb.keep p (by rw [hp]; exact hc)).1.trans hp
  -- roles that the kernel table does not use are as they were
  have hOnly : ∀ {p : Nat} {c : Role}, ρ' p = c → c ≠ .free → (∀ l a, c ≠ .table r l a) →
      (∀ i, c ≠ .kstack i) → ρ p = c := by
    intro p c hp hc hT hS
    by_cases hOld : ρ p = .free
    · grind [hb.new]
    · rw [← (hb.keep p hOld).1, hp]
  have hpos : r ≠ 0 := by
    rintro rfl
    rw [h.zero_outside] at hFree
    cases hFree
  have hRoot : ∀ i, (U i).root ≠ r := by
    intro i hEq
    have hTable := (h.table i (by rw [hEq]; exact hpos)).root
    rw [hEq, hFree] at hTable
    cases hTable
  refine ⟨hb.typed, ⟨h.tramp.1, hKeep h.tramp.2 Role.noConfusion⟩, ?_, h.size, ?_, h.inj, h.extra, ?_, ?_, ?_, ?_,
    ?_, ?_, ?_, ?_⟩
  · intro i hi
    have hTable := h.table i hi
    refine hTable.congr (hKeep hTable.root Role.noConfusion) ?_ ?_
    · refine fun v => h.typed.toTrees.view_congr hTable.root (fun q l a hq => (hb.keep q ?_).2) v
      rw [hq]
      exact Role.noConfusion
    · grind
  · intro i hi
    exact hKeep (h.frame i hi) Role.noConfusion
  · grind [h.owner, h.typed, h.zero_outside]
  · intro p n hp
    exact h.frameOwner p n (hOnly hp Role.noConfusion (fun _ _ => Role.noConfusion) (fun _ => Role.noConfusion))
  · intro _
    exact ⟨hb.root, Ne.symm hpos, hRoot⟩
  · intro p n hp
    obtain ⟨hn, hpa⟩ := hb.stackOf p n hp
    exact ⟨hn, hpos, hpa⟩
  · intro _ n hn
    exact hb.stackAt n hn
  · intro p v hp
    have hOld := hOnly hp Role.noConfusion (fun _ _ => Role.noConfusion) (fun _ => Role.noConfusion)
    have hRoot' := (h.typed.leafRoot p r v hOld).1
    rw [hFree] at hRoot'
    cases hRoot'
  · intro p hp
    exact h.held p (hOnly hp Role.noConfusion (fun _ _ => Role.noConfusion) (fun _ => Role.noConfusion))
  · grind [h.args]

lemma kvminit_owned {k : Kernel} {A : List Nat} (etext : Nat) (hk : Owned k A) (hZero : k.kpgtbl = 0) :
    wp (kvminit etext) (fun _ => True) (fun _ k' => Owned k' A) k := by
  obtain ⟨ρ, hρ⟩ := hk.spaces
  unfold Kernel.Spaced at hρ
  rw [hZero] at hρ
  simp only [kvminit, wp_bind, wp_read, wp_onMem, wp_update]
  refine wp_post (kvmmake_spec etext k.trampoline nproc hρ.typed ?_) ?_
  · intro p i hp
    exact (hρ.stackOf p i hp).2.1 rfl
  · rintro r m' ⟨hFree, ρ', hTable⟩
    exact ⟨⟨ρ', hρ.boot hFree hTable⟩, hk.live, hk.idle⟩

/-! ## Steps -/

open Fs Transition

/-- An entry of `proc[]` before its first use. -/
def Proc.zero : Proc where
  state := .unused
  chan := none
  killed := false
  xstate := 0
  pid := 0
  parent := none
  sz := 0
  pagetable := 0
  trapframe := 0
  ofile := fun _ => none
  cwd := none
  name := []
  susp := none

/-- The kernel after `kinit` and the other initialisations, with the range of physical
memory below `TRAPFRAME`. -/
structure Booted (k : Kernel) : Prop where
  mem : ∃ m : Mem, m.freelist = [] ∧ 0 < m.kend ∧ m.kend ≤ m.phystop ∧ m.phystop ≤ trapframeVa ∧
    kinit m = .ok ((), k.mem)
  trampoline : k.trampoline % 4096 = 0 ∧ k.trampoline < k.mem.kend
  kpgtbl : k.kpgtbl = 0
  proc : ∀ i, k.proc i = .zero
  ftable : ∀ f, (k.ftable f).ref = 0 ∧ (k.ftable f).type = .none
  itable : ∀ ip, (k.fs.itable ip).ref = 0 ∧ (k.fs.itable ip).locked = false ∧ (k.fs.itable ip).valid = false
  log : k.fs.outstanding = 0 ∧ k.fs.lh = []
  nextpid : k.nextpid = 1
  initproc : k.initproc = none

def Call.Process : Call → Prop
  | .fork | .exit _ | .wait _ | .kill _ | .exec .. | .sbrk .. => True
  | _ => False

def Label.Process : Label → Prop
  | .trap _ _ (.syscall call) => call.Process
  | _ => True

abbrev Reaches (allowed : Kernel → Label → Prop) : Kernel → Prop := Reachable Booted Step allowed

section

variable {k : Kernel}

lemma Booted.owned (h : Booted k) : Owned k [] := by
  obtain ⟨m, hf, hk, hkp, hs, hInit⟩ := h.mem
  obtain ⟨ρ, ht, hkend, -, hρ⟩ := wp_ok (kinit_spec (E := fun _ => True) hk hkp hs hf) hInit
  have hNot : ∀ {p : Nat} {c : Role}, ρ p = c → c ≠ .free → c ≠ .outside → False := by
    grind
  have hSpace : ∀ i, k.space i = ⟨0, 0, 0⟩ := by
    intro i
    rw [Kernel.space, h.proc]
    rfl
  obtain ⟨hAlign, hLow⟩ := h.trampoline
  have hTramp : Pageable k.trampoline ∧ ρ k.trampoline = .outside := by
    have hOut : ρ k.trampoline = .outside := by
      by_contra hne
      obtain ⟨-, hLow', -⟩ := (ht.managed k.trampoline).mp hne
      omega
    refine ⟨⟨hAlign, ?_⟩, hOut⟩
    rw [trapframeVa_eq] at hs
    omega
  refine ⟨⟨ρ, ht, hTramp, ?_, ?_, ?_, ?_, ?_, ?_, ?_, ?_, ?_, ?_, ?_, ?_, ?_⟩, ?_, ?_⟩
  · intro i hi
    rw [hSpace] at hi
    exact absurd rfl hi
  · intro i
    rw [hSpace]
    exact Nat.zero_le _
  · intro i hi
    rw [hSpace] at hi
    exact absurd rfl hi
  · intro i j hi
    rw [hSpace] at hi
    exact absurd rfl hi
  · intro i hi
    rw [hSpace] at hi
    exact absurd rfl hi
  · exact fun p r l a hp => (hNot hp Role.noConfusion Role.noConfusion).elim
  · exact fun p n hp => (hNot hp Role.noConfusion Role.noConfusion).elim
  · exact fun hk => absurd h.kpgtbl hk
  · exact fun p n hp => (hNot hp Role.noConfusion Role.noConfusion).elim
  · exact fun hk => absurd h.kpgtbl hk
  · exact fun p v hp => hNot hp Role.noConfusion Role.noConfusion
  · exact fun p hp => hNot hp Role.noConfusion Role.noConfusion
  · exact fun p => ⟨fun hp => (hNot hp Role.noConfusion Role.noConfusion).elim, fun hp => absurd hp List.not_mem_nil⟩
  · intro i hi
    rw [h.proc] at hi
    exact absurd rfl hi
  · intro i _
    rw [h.proc]
    exact ⟨rfl, rfl, rfl⟩

lemma userinit_owned (hk : Owned k []) : wp userinit (fun _ => True) (fun _ k' => Owned k' []) k := by
  obtain ⟨ρ, hρ⟩ := hk.spaces
  simp only [userinit, wp_bind]
  refine wp_post (allocproc_spec hρ hk.idle) ?_
  rintro (_ | i) k1 ⟨hAlloc, ρ1, hρ1, -, -⟩
  · simp only [wp_stop]
  · have hk1 := hAlloc.owned_some hk hρ1
    obtain ⟨hFind, -, tf, pt, -, -, hi⟩ := hAlloc
    have hsz : (k1.proc i).sz = 0 := by
      rw [hi]
      exact (hk.idle i (findUnused_state hFind)).2.2
    have hUsed : (k1.proc i).state = .used := by rw [hi]
    simp only [wp_bind, wp_update, wp_onFs, wp_modProc]
    refine wp_mono ((inner_iget _ _).noVm _) (fun _ _ => trivial) ?_
    intro cwd fs1 _
    refine Unmoved.owned (k := (k1.setInit i).setFs fs1) (Unmoved.setProc (by rfl) ?_ (by rfl) ?_)
      ⟨hk1.spaces, hk1.live, hk1.idle⟩
    · exact hsz.symm
    · simp [hUsed]

lemma syscall_owned (me : Pid) {call : Call} (hCall : call.Process) (hk : Owned k [])
    (hMe : (k.proc me).state = .running) :
    wp (syscall me call) (fun _ => True)
      (fun r k' => Owned k' [] ∧ (r ≠ none → (k'.proc me).state ≠ .unused)) k := by
  have hLive : (k.proc me).state ≠ .unused := by rw [hMe]; decide
  cases call with
  | fork =>
    simp only [syscall, wp_bind, wp_pure]
    refine wp_post (kfork_owned me hk hLive (fun _ _ _ _ _ _ _ => ⟨trivial, trivial⟩) (fun _ _ _ => trivial)
      (fun _ => trivial)) ?_
    rintro - k' ⟨hk', hState⟩
    exact ⟨hk', fun _ => by rw [hState]; exact hLive⟩
  | exit status =>
    simp only [syscall, wp_bind, wp_pure]
    refine wp_post (kexit_unmoved me status trivial hLive) ?_
    intro _ k' hk'
    exact ⟨hk'.owned hk, fun hne => absurd rfl hne⟩
  | wait addr =>
    simp only [syscall, wp_bind, wp_pure]
    refine wp_post (kwait_owned me addr hk hMe) ?_
    rintro (_ | r) k' ⟨hk', hState⟩
    · exact ⟨hk', fun hne => absurd rfl hne⟩
    · refine ⟨hk', fun _ => ?_⟩
      rw [hState (by simp)]
      decide
  | kill pid =>
    simp only [syscall, wp_bind, wp_pure]
    refine wp_post (kkill_unmoved pid) ?_
    intro _ k' hk'
    exact ⟨hk'.owned hk, fun _ => fun hUnused => hLive ((hk'.unused me).mp hUnused)⟩
  | exec path uargv =>
    simp only [syscall, wp_bind, wp_pure]
    refine wp_post (sysExec_owned (fun _ _ => trivial) me path uargv hk hLive) ?_
    rintro - k' ⟨hk', hState⟩
    exact ⟨hk', fun _ => by rw [hState]; exact hLive⟩
  | sbrk n t =>
    simp only [syscall, wp_bind, wp_pure]
    refine wp_post (sysSbrk_owned me n t hk hLive) ?_
    rintro - k' ⟨hk', hState⟩
    exact ⟨hk', fun _ => by rw [hState]; exact hLive⟩
  | pipe | chdir | dup | «open» | write | mknod | unlink | link | mkdir | close => exact hCall.elim

lemma setkilled_unmoved {E : Stop → Prop} (i : Pid) : wp (setkilled i) E (fun _ k' => Unmoved k k') k := by
  simp only [setkilled, wp_modProc]
  exact Unmoved.setProc rfl rfl rfl Iff.rfl

lemma usertrap_owned (me : Pid) (epc : Nat) {cause : Cause} (hCause : Label.Process (.trap me epc cause))
    (hk : Owned k []) (hMe : (k.proc me).state = .running) :
    wp (usertrap me epc cause) (fun _ => True) (fun _ k' => Owned k' []) k := by
  have hLive : (k.proc me).state ≠ .unused := by rw [hMe]; decide
  simp only [usertrap, wp_bind, wp_getProc, wp_onMem, wp_update]
  have hk1 := hk.storeFrame hLive ((k.mem.page (k.proc me).trapframe).putLE 24 8 epc)
  cases cause with
  | syscall call =>
    dsimp only
    split
    · exact wp_post (kexit_unmoved me _ trivial hLive) (fun _ k' hk' => hk'.owned hk1)
    · simp only [wp_bind, wp_onMem, wp_update]
      refine wp_post (syscall_owned me hCause (hk1.storeFrame hLive _) hMe) ?_
      rintro (_ | r) k2 ⟨hk2, hState⟩
      · rw [wp_pure]
        exact hk2
      · simp only [wp_bind]
        refine wp_post (setResult_owned me r hk2 (hState (by simp))) ?_
        rintro - k3 ⟨hk3, hProc⟩
        refine trapReturn_owned me false trivial hk3 ?_
        rw [hProc]
        exact hState (by simp)
  | timer => exact trapReturn_owned me true trivial hk1 hLive
  | device => exact trapReturn_owned me false trivial hk1 hLive
  | pageFault stval =>
    simp only [wp_bind]
    refine wp_post (vmfault_owned me stval hk1 hLive) ?_
    rintro - k2 ⟨hk2, hProc⟩
    refine trapReturn_owned me false trivial hk2 ?_
    rw [hProc]
    exact hLive
  | other =>
    simp only [wp_bind]
    refine wp_post (setkilled_unmoved me) ?_
    rintro - k2 hk2
    exact trapReturn_owned me false trivial (hk2.owned hk1) (fun hUnused => hLive ((hk2.unused me).mp hUnused))

lemma resume_owned (me : Pid) (s : Susp) (hk : Owned k []) (hMe : (k.proc me).state = .running) :
    wp (Xv6K230.resume me s) (fun _ => True) (fun _ k' => Owned k' []) k := by
  have hMoved : Unmoved k (k.setProc me { k.proc me with chan := none, susp := none }) :=
    Unmoved.setProc rfl rfl rfl Iff.rfl
  have hk1 := hMoved.owned hk
  have hMe1 : ((k.setProc me { k.proc me with chan := none, susp := none }).proc me).state = .running := by
    rw [setProc_proc_same]
    exact hMe
  have hLive : ((k.setProc me { k.proc me with chan := none, susp := none }).proc me).state ≠ .unused := by
    rw [hMe1]
    decide
  simp only [Xv6K230.resume, wp_bind, wp_modProc]
  cases s with
  | first =>
    simp only [wp_bind, wp_onFs]
    refine wp_mono (noVm_ireclaim _ _) (fun _ _ => trivial) ?_
    intro _ fs1 _
    refine wp_post (kexec_owned (fun _ _ => trivial) me _ ?_ (hk1.setFs fs1) hLive) ?_
    · intro s hs
      rw [List.mem_singleton.mp hs]
      decide
    · rintro r k2 ⟨hk2, hState⟩
      split
      · rw [wp_stop]
        trivial
      · refine wp_post (setResult_owned me r hk2 (by rw [hState]; exact hLive)) ?_
        exact fun _ k3 hk3 => hk3.1
  | yielded =>
    rw [wp_pure]
    exact hk1
  | wait addr =>
    simp only [wp_bind]
    refine wp_post (kwait_owned me addr hk1 hMe1) ?_
    rintro (_ | r) k2 ⟨hk2, hState⟩
    · rw [wp_pure]
      exact hk2
    · have hLive2 : (k2.proc me).state ≠ .unused := by
        rw [hState (by simp)]
        decide
      simp only [wp_bind]
      refine wp_post (setResult_owned me _ hk2 hLive2) ?_
      rintro - k3 ⟨hk3, hProc⟩
      refine trapReturn_owned me false trivial hk3 ?_
      rw [hProc]
      exact hLive2

lemma Step.owned {k' : Kernel} {l : Label} (h : Step k l k') (hl : l.Process) (hk : Owned k []) : Owned k' [] := by
  cases h with
  | kvminit h hr =>
    have hOk := wp_ok (kvminit_owned _ hk h) hr
    exact hOk
  | userinit h hr =>
    have hOk := wp_ok (userinit_owned hk) hr
    exact hOk
  | @schedule i h =>
    refine Unmoved.owned (k := k) (Unmoved.setProc (by rfl) (by rfl) (by rfl) ?_) hk
    simp [h]
  | trap h hs hr =>
    have hOk := wp_ok (usertrap_owned _ _ hl hk h) hr
    exact hOk
  | resume h hs hr =>
    have hOk := wp_ok (resume_owned _ _ hk h) hr
    exact hOk

lemma Reaches.owned (h : Reaches (fun _ l => l.Process) k) : Owned k [] :=
  h.invariant (fun _ => Booted.owned) (fun _ _ _ hk hl hStep => hStep.owned hl hk)

end

/-! ## Executing runs -/

open Vm Fs Riscv Prog Transition

def finish {α : Type} : Except Stop (α × Kernel) → Option Kernel
  | .ok (_, k) => some k
  | .error _ => none

lemma finish_unit {r : Except Stop (Unit × Kernel)} {k' : Kernel} (h : finish r = some k') : r = .ok ((), k') := by
  cases r with
  | error e => cases h
  | ok a => exact congrArg (fun k => Except.ok ((), k)) (Option.some.inj h)

def next (k : Kernel) : Label → Option Kernel
  | .kvminit etext => if k.kpgtbl = 0 then finish (kvminit etext k) else none
  | .userinit => if k.initproc = none then finish (userinit k) else none
  | .schedule i =>
    if (k.proc i).state = .runnable then some (k.setProc i { k.proc i with state := .running }) else none
  | .trap i epc cause =>
    if (k.proc i).state = .running ∧ (k.proc i).susp = none then finish (usertrap i epc cause k) else none
  | .resume i =>
    match (k.proc i).susp with
    | none => none
    | some s => if (k.proc i).state = .running then finish (Xv6K230.resume i s k) else none

lemma next_iff {k : Kernel} {l : Label} {k' : Kernel} : next k l = some k' ↔ Step k l k' := by
  have hOk : ∀ {m : KM Unit}, m k = .ok ((), k') → finish (m k) = some k' := by
    intro m hm
    rw [hm]
    rfl
  constructor
  · intro h
    cases l with
    | kvminit etext =>
      obtain ⟨hc, h⟩ := Option.ite_none_right_eq_some.mp h
      exact .kvminit hc (finish_unit h)
    | userinit =>
      obtain ⟨hc, h⟩ := Option.ite_none_right_eq_some.mp h
      exact .userinit hc (finish_unit h)
    | schedule i =>
      obtain ⟨hc, h⟩ := Option.ite_none_right_eq_some.mp h
      cases h
      exact .schedule hc
    | trap i epc cause =>
      obtain ⟨⟨hState, hSusp⟩, h⟩ := Option.ite_none_right_eq_some.mp h
      exact .trap hState hSusp (finish_unit h)
    | resume i =>
      rw [next] at h
      split at h
      · cases h
      · rename_i s hs
        obtain ⟨hc, h⟩ := Option.ite_none_right_eq_some.mp h
        exact .resume hc hs (finish_unit h)
  · intro h
    cases h with
    | kvminit hc hr => exact (if_pos hc).trans (hOk hr)
    | userinit hc hr => exact (if_pos hc).trans (hOk hr)
    | schedule hc => exact if_pos hc
    | trap hState hSusp hr => exact (if_pos ⟨hState, hSusp⟩).trans (hOk hr)
    | resume hc hs hr =>
      rw [next, hs]
      exact (if_pos hc).trans (hOk hr)

lemma Reaches.of_run {allowed : Kernel → Label → Prop} {k k' : Kernel} {ls : List Label} (hk : Reaches allowed k)
    (hAllowed : ∀ l ∈ ls, ∀ s, allowed s l) (h : run next ls k = some k') : Reaches allowed k' :=
  Reachable.of_run (fun _ _ _ => next_iff.mp) ls hAllowed hk h

/-! ## Exits -/

def Cause.Fatal (k : Kernel) (i : Pid) : Cause → Bool
  | .other => true
  | .syscall (.exit _) => true
  | .syscall (.kill pid) => (k.proc i).pid = pid
  | _ => false

def Susp.InWait : Susp → Bool
  | .wait _ => true
  | _ => false

/-- The step in which process `i` calls `kexit`. A killed process that returns from `yield` runs on to its next trap. -/
def Label.Exits (k : Kernel) (i : Pid) : Label → Bool
  | .trap j _ cause => j = i && ((k.proc i).killed || cause.Fatal k i)
  | .resume j => j = i && (k.proc i).killed && (k.proc i).susp.any Susp.InWait
  | _ => false

lemma Label.exits_trap {k : Kernel} {i : Pid} {epc : Nat} {cause : Cause}
    (h : (k.proc i).killed = true ∨ cause.Fatal k i = true) : (Label.trap i epc cause).Exits k i = true := by
  rw [Label.Exits, decide_eq_true rfl, Bool.true_and]
  exact Bool.or_eq_true_iff.mpr h

def ExitsClosed (k : Kernel) (l : Label) : Prop := ∀ i, l.Exits k i = true → ∀ fd, (k.proc i).ofile fd = none

instance (k : Kernel) (l : Label) : Decidable (ExitsClosed k l) :=
  inferInstanceAs (Decidable (∀ i, l.Exits k i = true → ∀ fd, (k.proc i).ofile fd = none))

/-! ## A small machine -/

namespace Sample

def dirent (inum : UInt16) (name : Text) : Text := (Dirent.mk inum name).toBytes

lemma child_lt : 1 < nproc := by decide

lemma fd0_lt : 0 < nofile := by decide

/-- Block 4 has the inodes, 5 the bitmap, 6 the root directory and 7 the program. -/
def disk : Nat → Block
  | 4 => Dinode.store ⟨tFile, 0, 0, 1, 64, oneBlock 7⟩
      (Dinode.store ⟨tDir, 0, 0, 1, 48, oneBlock 6⟩ (Bytes.fill 0) 64) 128
  | 5 => (Bytes.fill 0 : Block).write 0 [255, 0]
  | 6 => (Bytes.fill 0 : Block).write 0 (dirent 1 [46] ++ dirent 1 [46, 46] ++ dirent 2 initName)
  | 7 => (Bytes.fill 0 : Block).putLE 0 4 elfMagic
  | _ => Bytes.fill 0

def fs : FsState where
  sb := { size := 16, ninodes := 3, nlog := 2, logstart := 2, inodestart := 4, bmapstart := 5 }
  disk := disk
  outstanding := 0
  lh := []
  itable := fun _ => ⟨0, 0, 0, false, false, Dinode.zero⟩

def rawMem : Mem where
  kend := 4096
  phystop := 4096 * 48
  freelist := []
  page := fun _ => Bytes.fill 0

def mem : Mem :=
  match kinit rawMem with
  | .ok (_, m) => m
  | .error _ => rawMem

def kernel : Kernel where
  mem := mem
  fs := fs
  trampoline := 0
  kpgtbl := 0
  ftable := fun _ => ⟨.none, 0, false, false, 0, ip0, 0, 0⟩
  pipes := fun _ => ⟨0, 0, false, false, Bytes.fill 0⟩
  proc := fun _ => .zero
  nextpid := 1
  initproc := none

lemma kinit_rawMem : kinit rawMem = .ok ((), kernel.mem) ∧ kernel.mem.kend = 4096 := by
  have hInit := kinit_spec (m := rawMem) (E := fun _ => False) (by decide) (by decide) (by decide) rfl
  obtain ⟨_, m, hr, -, -, hkend, -⟩ := wp_total hInit
  have hMem : kernel.mem = m := by
    unfold kernel
    rw [mem, hr]
  rw [hMem]
  exact ⟨hr, hkend⟩

lemma booted : Booted kernel := by
  refine ⟨⟨rawMem, rfl, by decide, by decide, ?_, kinit_rawMem.1⟩, ⟨rfl, ?_⟩, rfl, fun _ => rfl, fun _ => ⟨rfl, rfl⟩,
    fun _ => ⟨rfl, rfl, rfl⟩, ⟨rfl, rfl⟩, rfl, rfl⟩
  · rw [trapframeVa_eq]
    decide
  · exact lt_of_lt_of_eq (show 0 < 4096 by decide) kinit_rawMem.2.symm

def init : Pid := ⟨0, nproc_pos⟩

/-- The slot of the first child of `init`. -/
def child : Pid := ⟨1, child_lt⟩

def fd0 : Fd := ⟨0, fd0_lt⟩

def root : Ip := ip0

def call (i : Pid) (c : Call) : Label := .trap i 0 (.syscall c)

/-- The steps that bring `init` to its program. -/
def start : List Label := [.userinit, .schedule init, .resume init]

/-- The steps of runs in which nobody exits with an open descriptor. -/
def closedNext (k : Kernel) (l : Label) : Option Kernel := if decide (ExitsClosed k l) then next k l else none

def after (ls : List Label) (test : Kernel → Bool) (k : Kernel) : Bool := (run next ls k).elim false test

def returns {α : Type} (m : KM α) (test : α → Kernel → Bool) (k : Kernel) : Bool :=
  match m k with
  | .ok (a, k') => test a k'
  | .error _ => false

def stops {α : Type} (m : KM α) (e : Stop) (k : Kernel) : Bool :=
  match m k with
  | .ok _ => false
  | .error e' => e' = e

lemma exists_of_after {ls : List Label} {test : Kernel → Bool} {k : Kernel} (h : after ls test k = true) :
    ∃ k', run next ls k = some k' ∧ test k' = true := by
  unfold after at h
  cases hRun : run next ls k with
  | none => rw [hRun] at h; cases h
  | some k' => rw [hRun] at h; exact ⟨k', rfl, h⟩

lemma exists_of_returns {α : Type} {m : KM α} {test : α → Kernel → Bool} {k : Kernel} (h : returns m test k = true) :
    ∃ a k', m k = .ok (a, k') ∧ test a k' = true := by
  unfold returns at h
  split at h
  · rename_i a k' hm
    exact ⟨a, k', hm, h⟩
  · cases h

lemma eq_of_stops {α : Type} {m : KM α} {e : Stop} {k : Kernel} (h : stops m e k = true) : m k = .error e := by
  unfold stops at h
  split at h
  · cases h
  · rename_i e' hm
    rw [hm, of_decide_eq_true h]

/-- `init` is at work in two pages. -/
def working (k : Kernel) : Bool :=
  (k.proc init).state = .running && (k.proc init).susp = none && !(k.proc init).killed &&
    (k.proc init).sz = 8192 && (k.mem.view (k.proc init).pagetable 0).has pteV &&
    (k.mem.view (k.proc init).pagetable 1).has pteV

/-- `init` opens the root directory and forks. The child closes it, exits and is reaped. -/
def childCloses : List Label :=
  [call init (.open (some [slash]) 0), call init .fork, .schedule child, call child (.close 0), call child (.exit 0),
    call init (.wait 0)]

/-- `init` forks and kills the child, which exits at its next trap and is reaped. -/
def childKilled : List Label :=
  [call init .fork, .schedule child, call init (.kill 2), .trap child 0 .timer, call init (.wait 0)]

/-- After these steps the next child of `init` gets the slot of the first. -/
def reuses (ls : List Label) (opened : Bool) (k : Kernel) : Bool := (run closedNext ls k).any fun k =>
  (k.proc init).state = .running && (k.proc child).state = .unused && ((k.proc init).ofile fd0).isSome = opened &&
    returns (kfork init) (fun _ k' => (k'.proc child).state = .runnable) k

/-- The child that is forked into the slot of a reaped one has a descriptor more than `init`. -/
def bequeaths : Kernel → Bool :=
  after [call init .fork, .schedule child, call child (.open (some [slash]) 0), call child (.exit 0),
    call init (.wait 0)] fun k =>
      (k.proc init).state = .running && (k.proc child).state = .unused && (k.proc init).ofile fd0 = none &&
        returns (kfork init) (fun _ k' => (k'.proc child).state = .runnable && ((k'.proc child).ofile fd0).isSome) k

/-- A kill of pid 0 succeeds without a process of that pid, and dooms the next child. -/
def killsNobody (k : Kernel) : Bool :=
  (List.finRange nproc).all (fun i => (k.proc i).state = .unused || (k.proc i).pid ≠ 0) &&
    returns (kkill 0) (fun r k' => r = 0 &&
      returns (kfork init) (fun _ k'' => (k''.proc child).state = .runnable && (k''.proc child).killed) k') k

/-- A fork after a lazy `sbrk` panics. -/
def forkPanics : Kernel → Bool := after [call init (.sbrk 4096 2)] fun k =>
  (k.proc init).state = .running && stops (kfork init) .uvmcopyPresent k

lemma working_history :
    (run closedNext start kernel).any fun k => working k && bequeaths k && killsNobody k && forkPanics k := by
  decide +kernel

lemma closing_history : (run closedNext start kernel).any (reuses childCloses true) := by
  decide +kernel

lemma killing_history : (run closedNext start kernel).any (reuses childKilled false) := by
  decide +kernel

/-- The machine when `init` is at work. -/
def atWork : Kernel := (run closedNext start kernel).getD kernel

lemma run_start : run closedNext start kernel = some atWork ∧ working atWork ∧ reuses childCloses true atWork ∧
    reuses childKilled false atWork ∧ bequeaths atWork ∧ killsNobody atWork ∧ forkPanics atWork := by
  obtain ⟨k, hRun, hTest⟩ := (Option.any_eq_true _ _).mp working_history
  have hCloses := closing_history
  have hKilled := killing_history
  have hk : atWork = k := by rw [atWork, hRun, Option.getD_some]
  simp only [Bool.and_eq_true, and_assoc] at hTest
  rw [hRun] at hCloses hKilled
  rw [hk]
  exact ⟨hRun, hTest.1, hCloses, hKilled, hTest.2⟩

lemma reaches_atWork {allowed : Kernel → Label → Prop} (hAllowed : ∀ l ∈ start, ∀ s, ExitsClosed s l → allowed s l) :
    Reaches allowed atWork :=
  Reachable.of_checked_run (fun _ _ _ => next_iff.mp) start (fun l hl s h => hAllowed l hl s (of_decide_eq_true h)) (.start booted)
    run_start.1

lemma reuses_slot {allowed : Kernel → Label → Prop} {ls : List Label} {opened : Bool} (h : reuses ls opened atWork = true)
    (hAllowed : ∀ l ∈ start ++ ls, ∀ s, ExitsClosed s l → allowed s l) :
    ∃ k r k', Reaches allowed k ∧ (k.proc init).state = .running ∧ (k.proc child).state = .unused ∧
      ((k.proc init).ofile fd0).isSome = opened ∧ kfork init k = .ok (r, k') ∧ (k'.proc child).state = .runnable := by
  have hStart := reaches_atWork fun l hl => hAllowed l (List.mem_append_left _ hl)
  have hCheck : ∀ l ∈ ls, ∀ s, decide (ExitsClosed s l) = true → allowed s l :=
    fun l hl s hClosed => hAllowed l (List.mem_append_right _ hl) s (of_decide_eq_true hClosed)
  obtain ⟨k, hReach, hTest⟩ := Reachable.exists_of_checked_run (fun _ _ _ => next_iff.mp) ls hCheck hStart h
  simp only [Bool.and_eq_true, decide_eq_true_eq] at hTest
  obtain ⟨⟨⟨hInit, hFree⟩, hOpen⟩, hFork⟩ := hTest
  obtain ⟨r, k', hr, hChild⟩ := exists_of_returns hFork
  exact ⟨k, r, k', hReach, hInit, hFree, hOpen, hr, of_decide_eq_true hChild⟩

lemma start_process : ∀ l ∈ start, ∀ s, ExitsClosed s l → l.Process := by
  intro l hl _ _
  simp only [start, List.mem_cons, List.not_mem_nil, or_false] at hl
  obtain rfl | rfl | rfl := hl <;> trivial

lemma atWork_working : (atWork.proc init).state = .running ∧ (atWork.proc init).susp = none ∧
    (atWork.proc init).killed = false ∧ (atWork.proc init).sz = 8192 ∧
    (atWork.mem.view (atWork.proc init).pagetable 0).has pteV ∧
    (atWork.mem.view (atWork.proc init).pagetable 1).has pteV := by
  have hWorking := run_start.2.1
  simpa [working, and_assoc] using hWorking

end Sample

end Xv6K230
