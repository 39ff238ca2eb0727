import Xv6K230.Kernel.Partition
import Xv6K230.Kernel.Slots

/-! # Fork copies the address space

`uvmcopy` walks every page below `sz` and stops the kernel at the first one that is not mapped, unless it runs out of
memory before.
-/

namespace Xv6K230

open Vm Fs Riscv Prog Transition

/-! ## Runs without open files -/

structure Fileless (k : Kernel) : Prop where
  ofile : ∀ j fd, (k.proc j).ofile fd = none
  cwd : ∀ j, (k.proc j).state ≠ .unused → (k.proc j).cwd ≠ none

section

variable {k k' : Kernel} {me : Pid}

lemma Fileless.of_proc (hk : Fileless k) (h : k'.proc = k.proc) : Fileless k' := by
  refine ⟨?_, ?_⟩ <;> rw [h]
  · exact hk.ofile
  · exact hk.cwd

lemma Fileless.setMem (hk : Fileless k) (m : Mem) : Fileless (k.setMem m) := ⟨hk.ofile, hk.cwd⟩

lemma SameCore.fields (h : SameCore k k') (j : Pid) : (k'.proc j).ofile = (k.proc j).ofile ∧
    (k'.proc j).cwd = (k.proc j).cwd ∧ (k'.proc j).state = (k.proc j).state := by
  have hOfile := congrArg Proc.ofile (h j)
  have hCwd := congrArg Proc.cwd (h j)
  have hState := congrArg Proc.state (h j)
  exact ⟨hOfile, hCwd, hState⟩

lemma Fileless.core (hk : Fileless k) (h : SameCore k k') : Fileless k' := by
  refine ⟨fun j fd => ?_, fun j hj => ?_⟩
  · rw [(h.fields j).1]
    exact hk.ofile j fd
  · rw [(h.fields j).2.2] at hj
    rw [(h.fields j).2.1]
    exact hk.cwd j hj

lemma Fileless.entry (hk : Fileless k) {i : Pid} (hOther : ∀ j, j ≠ i → k'.proc j = k.proc j)
    (hOfile : (k'.proc i).ofile = (k.proc i).ofile) (hCwd : (k'.proc i).state ≠ .unused → (k'.proc i).cwd ≠ none) :
    Fileless k' := by
  refine ⟨fun j fd => ?_, fun j => ?_⟩
  · by_cases hj : j = i
    · subst hj
      rw [hOfile]
      exact hk.ofile j fd
    · rw [hOther j hj]
      exact hk.ofile j fd
  · grind [hk.cwd]

lemma Fileless.setProc (hk : Fileless k) {i : Pid} {p : Proc} (hOfile : p.ofile = (k.proc i).ofile)
    (hCwd : p.state ≠ .unused → p.cwd ≠ none) : Fileless (k.setProc i p) := by
  refine hk.entry (fun j hj => setProc_proc_of_ne _ hj) ?_ ?_
  · rw [setProc_proc_same]
    exact hOfile
  · rw [setProc_proc_same]
    exact hCwd

lemma Orphaned.live {p p' : Proc} (h : Orphaned p p') (hp' : p'.state ≠ .unused) : p.state ≠ .unused := by
  obtain hEq | ⟨hSleep, -⟩ := h.state
  · rw [← hEq]
    exact hp'
  · rw [hSleep]
    decide

lemma kexit_fileless (status : Int32) (hk : Fileless k) (hMe : (k.proc me).cwd ≠ none) :
    wp (kexit me status) (fun _ => True) (fun _ k' => Fileless k') k := by
  refine wp_post (kexit_table me status) ?_
  rintro - k' ⟨-, hOther, p, hp, hZombie⟩
  refine ⟨fun j fd => ?_, fun j hj => ?_⟩
  · by_cases h : j = me
    · subst h
      rw [hZombie]
      exact (congrFun hp.ofile fd).trans (hk.ofile j fd)
    · rw [(hOther j h).ofile]
      exact hk.ofile j fd
  · by_cases h : j = me
    · subst h
      rw [hZombie]
      exact fun hNone => hMe (hp.cwd.symm.trans hNone)
    · rw [(hOther j h).cwd]
      exact hk.cwd j ((hOther j h).live hj)

lemma kwait_fileless (addr : Nat) (hk : Fileless k) (hMe : (k.proc me).state = .running) :
    wp (kwait me addr) (fun _ => True) (fun _ k' => Fileless k' ∧ (k'.proc me).cwd = (k.proc me).cwd) k := by
  refine wp_post (kwait_table me addr) ?_
  rintro r k' (hSame | ⟨-, p, hSleep, rfl⟩ | ⟨-, pp, hZombie, hClear, hOther⟩)
  · exact ⟨hk.of_proc hSame, by rw [hSame]⟩
  · have hCwd : (k.proc me).cwd ≠ none := hk.cwd me (by rw [hMe]; decide)
    refine ⟨hk.entry (i := me) (fun j hj => ?_) ?_ (fun _ => ?_), ?_⟩
    · rw [hSleep, setProc_proc_of_ne _ hj]
    · rw [hSleep, setProc_proc_same]
    · rw [hSleep, setProc_proc_same]
      exact hCwd
    · rw [hSleep, setProc_proc_same]
  · refine ⟨hk.entry hOther (by rw [hClear]; rfl) (fun hne => absurd (by rw [hClear]; rfl) hne), ?_⟩
    rw [hOther]
    rintro rfl
    rw [hMe] at hZombie
    cases hZombie

lemma kkill_fileless (pid : Int32) (hk : Fileless k) :
    wp (kkill pid) (fun _ => True) (fun _ k' => Fileless k' ∧ (k'.proc me).cwd = (k.proc me).cwd) k := by
  simp only [kkill, wp_bind, wp_read]
  cases findPid k.proc pid with
  | none =>
    rw [wp_pure]
    exact ⟨hk, rfl⟩
  | some i =>
    simp only [wp_bind, wp_modProc, wp_pure]
    refine ⟨hk.setProc rfl fun hState => hk.cwd i ?_, ?_⟩
    · intro hUnused
      rw [hUnused] at hState
      exact hState rfl
    · grind [setProc_proc_same, setProc_proc_of_ne]

lemma kfork_fileless (hk : Fileless k) (hMe : (k.proc me).state = .running) :
    wp (kfork me) (fun _ => True) (fun _ k' => Fileless k' ∧ (k'.proc me).cwd = (k.proc me).cwd) k := by
  have hUsed : (k.proc me).state ≠ .unused := by
    rw [hMe]
    decide
  refine wp_post (kfork_table hUsed) ?_
  rintro r k' (⟨-, h⟩ | ⟨-, np, h⟩)
  · refine ⟨⟨fun j fd => ?_, fun j hj => ?_⟩, ?_⟩
    · obtain hSame | ⟨-, -, -, -, hOfile⟩ := h.proc j
      · rw [hSame]
        exact hk.ofile j fd
      · rw [hOfile]
        exact hk.ofile j fd
    · grind [h.proc, hk.cwd]
    · grind [h.proc]
  · refine ⟨hk.entry h.other ?_ (fun _ => ?_), ?_⟩
    · rw [h.ofile]
      funext fd
      rw [inherit, hk.ofile me fd, Option.none_or]
    · rw [h.cwd.1]
      exact h.cwd.2
    · rw [h.other me]
      rintro rfl
      exact hUsed (findUnused_state h.slot)

lemma userinit_fileless (hk : Fileless k) : wp userinit (fun _ => True) (fun _ k' => Fileless k') k := by
  simp only [userinit, wp_bind]
  refine wp_post allocproc_table ?_
  rintro (_ | i) k1 h1
  · rw [wp_stop]
    trivial
  · obtain ⟨-, hOther, ⟨tf, pt, hi⟩, -⟩ := h1
    simp only [wp_bind, wp_update, wp_onFs, wp_modProc]
    refine wp_mono (wp_true _ _) (fun _ h => h) ?_
    intro cwd fs1 _
    refine hk.entry (i := i) (fun j hj => ?_) ?_ (fun _ => ?_)
    · rw [setProc_proc_of_ne _ hj]
      exact hOther j hj
    · rw [setProc_proc_same]
      have hOfile := congrArg Proc.ofile hi
      exact hOfile
    · rw [setProc_proc_same]
      exact Option.some_ne_none cwd

lemma trapReturn_fileless (timer : Bool) (hk : Fileless k) (hMe : (k.proc me).cwd ≠ none) :
    wp (trapReturn me timer) (fun _ => True) (fun _ k' => Fileless k') k := by
  simp only [trapReturn, wp_bind, wp_getProc]
  split
  · exact kexit_fileless _ hk hMe
  · split
    · rw [wp_modProc]
      exact hk.setProc rfl fun _ => hMe
    · rw [wp_pure]
      exact hk

lemma syscall_fileless {call : Call} (hCall : call.Process) (hk : Fileless k) (hMe : (k.proc me).state = .running)
    (hCwd : (k.proc me).cwd ≠ none) :
    wp (syscall me call) (fun _ => True) (fun r k' => Fileless k' ∧ (r ≠ none → (k'.proc me).cwd ≠ none)) k := by
  have hCore : ∀ {α : Type} {m : KM (Option α)}, Moves SameCore m →
      wp m (fun _ => True) (fun r k' => Fileless k' ∧ (r ≠ none → (k'.proc me).cwd ≠ none)) k := by
    intro α m hm
    refine wp_post (hm k) fun _ k' h => ⟨hk.core h, fun _ => ?_⟩
    rw [(h.fields me).2.1]
    exact hCwd
  have hKeep : ∀ {α : Type} {r : Option α} {k' : Kernel}, Fileless k' ∧ (k'.proc me).cwd = (k.proc me).cwd →
      Fileless k' ∧ (r ≠ none → (k'.proc me).cwd ≠ none) :=
    fun h => ⟨h.1, fun _ => by rw [h.2]; exact hCwd⟩
  cases call with
  | fork =>
    simp only [syscall, wp_bind, wp_pure]
    exact wp_post (kfork_fileless hk hMe) (fun _ _ => hKeep)
  | exit status =>
    simp only [syscall, wp_bind, wp_pure]
    exact wp_post (kexit_fileless status hk hCwd) (fun _ _ h => ⟨h, fun hne => absurd rfl hne⟩)
  | wait addr =>
    simp only [syscall, wp_bind, wp_pure]
    exact wp_post (kwait_fileless addr hk hMe) (fun _ _ => hKeep)
  | kill pid =>
    simp only [syscall, wp_bind, wp_pure]
    exact wp_post (kkill_fileless pid hk) (fun _ _ => hKeep)
  | exec path uargv => exact hCore (.bind (sysExec_core me path uargv) fun _ => .pure _)
  | sbrk n t => exact hCore (.bind (sysSbrk_core me n t) fun _ => .pure _)
  | pipe | chdir | dup | «open» | write | mknod | unlink | link | mkdir | close => exact hCall.elim

lemma usertrap_fileless (epc : Nat) {cause : Cause} (hCause : Label.Process (.trap me epc cause)) (hk : Fileless k)
    (hMe : (k.proc me).state = .running) :
    wp (usertrap me epc cause) (fun _ => True) (fun _ k' => Fileless k') k := by
  have hCwd : (k.proc me).cwd ≠ none := hk.cwd me (by rw [hMe]; decide)
  simp only [usertrap, wp_bind, wp_getProc, wp_onMem, wp_update]
  cases cause with
  | syscall call =>
    dsimp only
    split
    · exact kexit_fileless _ (hk.setMem _) hCwd
    · simp only [wp_bind, wp_onMem, wp_update]
      refine wp_post (syscall_fileless hCause (hk.setMem _) hMe hCwd) ?_
      rintro (_ | r) k2 ⟨hk2, hCwd2⟩
      · rw [wp_pure]
        exact hk2
      · simp only [setResult, wp_bind, wp_getProc, wp_onMem, wp_update]
        exact trapReturn_fileless false (hk2.setMem _) (hCwd2 (by simp))
  | timer => exact trapReturn_fileless true (hk.setMem _) hCwd
  | device => exact trapReturn_fileless false (hk.setMem _) hCwd
  | pageFault stval =>
    simp only [wp_bind, wp_onMem]
    refine wp_mono (wp_true _ _) (fun _ h => h) ?_
    exact fun _ m' _ => trapReturn_fileless false (hk.setMem _) hCwd
  | other =>
    simp only [setkilled, wp_bind, wp_modProc]
    refine trapReturn_fileless false ((hk.setMem _).setProc ?_ fun _ => ?_) ?_
    · rfl
    · exact hCwd
    · rw [setProc_proc_same]
      exact hCwd

lemma resume_fileless (s : Susp) (hk : Fileless k) (hMe : (k.proc me).state = .running) :
    wp (Xv6K230.resume me s) (fun _ => True) (fun _ k' => Fileless k') k := by
  have hCwd : (k.proc me).cwd ≠ none := hk.cwd me (by rw [hMe]; decide)
  have hk1 : Fileless (k.setProc me { k.proc me with chan := none, susp := none }) := hk.setProc rfl fun _ => hCwd
  simp only [Xv6K230.resume, wp_bind, wp_modProc]
  cases s with
  | first =>
    exact wp_post (first_core me _) (fun _ k' h => hk1.core h)
  | yielded =>
    rw [wp_pure]
    exact hk1
  | wait addr =>
    simp only [wp_bind]
    refine wp_post (kwait_fileless addr hk1 (by rw [setProc_proc_same]; exact hMe)) ?_
    rintro (_ | r) k2 ⟨hk2, hCwd2⟩
    · rw [wp_pure]
      exact hk2
    · simp only [setResult, wp_bind, wp_getProc, wp_onMem, wp_update]
      refine trapReturn_fileless false (hk2.setMem _) ?_
      rw [Kernel.setMem_proc, hCwd2, setProc_proc_same]
      exact hCwd

lemma Step.fileless {l : Label} (h : Step k l k') (hl : l.Process) (hk : Fileless k) : Fileless k' := by
  cases h with
  | kvminit h hr => exact hk.core ((kvminit_core _).of_ok hr)
  | userinit h hr =>
    have hOk := wp_ok (userinit_fileless hk) hr
    exact hOk
  | @schedule i h =>
    refine hk.setProc rfl fun _ => hk.cwd i ?_
    rw [h]
    decide
  | trap h hs hr =>
    have hOk := wp_ok (usertrap_fileless _ hl hk h) hr
    exact hOk
  | resume h hs hr =>
    have hOk := wp_ok (resume_fileless _ hk h) hr
    exact hOk

lemma Reaches.fileless (h : Reaches (fun _ l => l.Process) k) : Fileless k := by
  refine h.invariant (fun k hk => ⟨fun j fd => ?_, fun j hj => ?_⟩) (fun _ _ _ hk hl hStep => hStep.fileless hl hk)
  · rw [hk.proc]
    rfl
  · rw [hk.proc] at hj
    exact absurd rfl hj

end

/-! ## The copy -/

lemma Kept.load {m m1 : Mem} {ρ ρ1 : Roles} {r tf tr sz : Nat} (h : Kept m ρ m1 ρ1) (ht : Typed m ρ)
    (hTable : UserTable m ρ r tf tr (npages sz)) {va : Nat} (hva : va < sz) : m1.load r va = m.load r va := by
  refine load_congr (h.view ht hTable.root _) fun hV => (h _ ?_).2
  rw [(hTable.user _ (lt_of_lt_of_le (page_lt hva) hTable.bound) hV).2]
  exact Role.noConfusion

/-- A copy of the space after a step that keeps pages in use is a copy of the space before. -/
lemma Vm.SpaceCopied.of_kept {m m1 m' : Mem} {ρ ρ1 : Roles} {r r' tf tr sz : Nat} (h : SpaceCopied m1 r m' r' sz) (hKept : Kept m ρ m1 ρ1) (ht : Typed m ρ) (ht1 : Typed m1 ρ1)
    (hTable : UserTable m ρ r tf tr (npages sz)) : SpaceCopied m r m' r' sz := by
  have hView : ∀ v, m1.view r v = m.view r v := hKept.view ht hTable.root
  refine ⟨fun va hva => ?_, fun va hva => ?_, fun v hv => ?_, fun v hv => ?_, h.distinct, h.rest⟩
  · rw [h.load va hva, hKept.load ht hTable hva]
  · rw [h.parent va hva, hKept.load ht hTable hva]
  · rw [h.flags v hv, hView]
  · have hFree := (ht1.free _).mpr (h.fresh v hv)
    refine (ht.free _).mp (by_contra fun hUsed => ?_)
    rw [(hKept _ hUsed).1] at hFree
    exact hUsed hFree

/-- Free pages end before the copy to the new slot comes to a page of the caller that is not mapped. -/
def CopyPassesHoles (k : Kernel) (me np : Pid) (k1 : Kernel) : Prop :=
  ∀ v < npages (k.proc me).sz, (k.mem.view (k.proc me).pagetable v).has pteV = false →
    k1.mem.ShortOf (k1.proc np).pagetable (k.proc me).sz 0 v

section

variable {k k1 : Kernel} {me np : Pid}

lemma kfork_error (hr : allocproc k = .ok (some np, k1)) {e : Stop}
    (h : uvmcopy (k1.proc me).pagetable (k1.proc np).pagetable (k1.proc me).sz k1.mem = .error e) : kfork me k = .error e := by
  simp only [kfork, bind, Prog.seq, hr, getProc, Prog.read, onMem, Prog.zoom, h]

lemma uvmcopy_fork (hk : Owned k []) (hUsed : (k.proc me).state ≠ .unused) (hr : allocproc k = .ok (some np, k1)) :
    k1.proc me = k.proc me ∧
    wp (uvmcopy (k.proc me).pagetable (k1.proc np).pagetable (k.proc me).sz) (fun _ => ¬ CopyPassesHoles k me np k1)
      (fun ok m' => CopyPassesHoles k me np k1 ∧
        (ok = true ↔ ¬ k1.mem.ShortOf (k1.proc np).pagetable (k.proc me).sz 0 (npages (k.proc me).sz)) ∧
        if ok then SpaceCopied k.mem (k.proc me).pagetable m' (k1.proc np).pagetable (k.proc me).sz
        else ∀ v < trapframeVpn, (m'.view (k1.proc np).pagetable v).has pteV = false) k1.mem := by
  obtain ⟨ρ, hρ⟩ := hk.spaces
  have hAllocated := wp_ok (allocproc_spec (E := fun _ => True) hρ hk.idle) hr
  obtain ⟨hAlloc, ρ1, hρ1, -, hKept⟩ := hAllocated
  obtain ⟨-, hProc, hParent, hChild, -, -, hRoots, hView⟩ := hAlloc.forkSpaces hk hρ hρ1 (hKept (by simp)) hUsed
  rw [hProc] at hParent hRoots hView
  refine ⟨hProc, ?_⟩
  apply wp_mono (uvmcopy_spec hρ1.typed hParent hRoots hChild)
  · rintro e ⟨-, v, hv, hHole, hEnough⟩ hPasses
    exact hEnough (hPasses v hv (hView v ▸ hHole))
  · rintro ok m' ⟨hHoles, hOk, hEnd⟩
    refine ⟨fun v hv hHole => hHoles v hv (by rw [hView]; exact hHole), hOk, ?_⟩
    cases ok with
    | false =>
      obtain ⟨ρ', hGrown⟩ := hEnd
      intro v hv
      by_contra hV
      exact Nat.not_lt_zero v (hGrown.table.user v hv (by simpa using hV)).1
    | true =>
      obtain ⟨ρ', hCopied⟩ := hEnd
      have hFull : ∀ v < npages (k.proc me).sz, (k1.mem.view (k.proc me).pagetable v).has pteV := by
        intro v hv
        by_contra hHole
        have hShort := hHoles v hv (by simpa using hHole)
        refine hOk.mp rfl (lt_of_lt_of_le hShort (demand_mono ?_))
        exact Finset.Ico_subset_Ico_right hv.le
      have hSpace := hCopied.space hρ1.typed hRoots hParent hFull
      exact hSpace.of_kept (hKept (by simp)) hρ.typed hρ1.typed (hk.table hρ hUsed)

end

/-- Fork never panics exactly if free pages end before the copy comes to a hole, and then it fails only for lack of memory. -/
theorem fork_copies_space {k : Kernel} (h : Reaches (fun _ l => l.Process) k) {me : Pid}
    (hMe : (k.proc me).state = .running) :
    ((∀ e, kfork me k ≠ .error e) ↔ ∀ np k1, allocproc k = .ok (some np, k1) → CopyPassesHoles k me np k1) ∧
    ∀ np k1, allocproc k = .ok (some np, k1) → CopyPassesHoles k me np k1 →
      ∃ ok m', uvmcopy (k.proc me).pagetable (k1.proc np).pagetable (k.proc me).sz k1.mem = .ok (ok, m') ∧
        (ok = true ↔ k1.mem.demand (k1.proc np).pagetable (k.proc me).sz (Finset.Ico 0 (npages (k.proc me).sz)) ≤
          k1.mem.freelist.length) ∧
        if ok then SpaceCopied k.mem (k.proc me).pagetable m' (k1.proc np).pagetable (k.proc me).sz
        else ∀ v < trapframeVpn, (m'.view (k1.proc np).pagetable v).has pteV = false := by
  have hk := h.owned
  have hUsed : (k.proc me).state ≠ .unused := by
    rw [hMe]
    decide
  refine ⟨⟨fun hNo np k1 hr => ?_, fun hPasses e hErr => ?_⟩, fun np k1 hr hPasses => ?_⟩
  · obtain ⟨hProc, hCopy⟩ := uvmcopy_fork hk hUsed hr
    cases hRun : uvmcopy (k.proc me).pagetable (k1.proc np).pagetable (k.proc me).sz k1.mem with
    | error e => exact absurd (kfork_error hr (by rw [hProc]; exact hRun)) (hNo e)
    | ok res => exact (wp_ok hCopy hRun).1
  · have hNo : wp (kfork me) (fun _ => False) _ k :=
      kfork_owned me hk hUsed (fun np k1 hr v hv hHole hEnough => (hEnough (hPasses np k1 hr v hv hHole)).elim)
        (fun fd f hf => ?_) (fun hNone => ?_)
    · exact wp_error hNo hErr
    · rw [h.fileless.ofile me fd] at hf
      cases hf
    · exact h.fileless.cwd me hUsed hNone
  · obtain ⟨-, hCopy⟩ := uvmcopy_fork hk hUsed hr
    obtain ⟨ok, m', hRun, -, hOk, hEnd⟩ := wp_total (wp_weaken_stop hCopy fun _ hNot => hNot hPasses)
    exact ⟨ok, m', hRun, hOk.trans not_lt, hEnd⟩

/-- Fork of `init`, whose two pages are both there. -/
theorem fork_copies_init :
    (∀ e, kfork Sample.init Sample.atWork ≠ .error e) ∧
    ∀ np k1, allocproc Sample.atWork = .ok (some np, k1) →
      ∃ ok m', uvmcopy (Sample.atWork.proc Sample.init).pagetable (k1.proc np).pagetable
          (Sample.atWork.proc Sample.init).sz k1.mem = .ok (ok, m') ∧
        if ok then SpaceCopied Sample.atWork.mem (Sample.atWork.proc Sample.init).pagetable m'
          (k1.proc np).pagetable (Sample.atWork.proc Sample.init).sz
        else ∀ v < trapframeVpn, (m'.view (k1.proc np).pagetable v).has pteV = false := by
  obtain ⟨hRun, -, -, hsz, hFirst, hSecond⟩ := Sample.atWork_working
  obtain ⟨hPanics, hCopy⟩ := fork_copies_space (Sample.reaches_atWork Sample.start_process) hRun
  have hPasses : ∀ np k1, CopyPassesHoles Sample.atWork Sample.init np k1 := by
    intro np k1 v hv hHole
    rw [hsz, npages] at hv
    obtain rfl | rfl : v = 0 ∨ v = 1 := by omega
    · rw [hFirst] at hHole
      cases hHole
    · rw [hSecond] at hHole
      cases hHole
  refine ⟨hPanics.mpr fun np k1 _ => hPasses np k1, fun np k1 hr => ?_⟩
  obtain ⟨ok, m', hCopied, -, hEnd⟩ := hCopy np k1 hr (hPasses np k1)
  exact ⟨ok, m', hCopied, hEnd⟩

/-- Fork after `sbrklazy(4096)` panics at the page that has not been touched. -/
theorem fork_panics_lazy : ∃ k, Reaches (fun _ l => l.Process) k ∧ (k.proc Sample.init).state = .running ∧
    kfork Sample.init k = .error .uvmcopyPresent := by
  obtain ⟨-, -, -, -, -, -, hPanics⟩ := Sample.run_start
  obtain ⟨k, hRun, hTest⟩ := Sample.exists_of_after hPanics
  simp only [Bool.and_eq_true, decide_eq_true_eq] at hTest
  refine ⟨k, Reaches.of_run (Sample.reaches_atWork Sample.start_process) ?_ hRun, hTest.1, Sample.eq_of_stops hTest.2⟩
  intro l hl _
  rw [List.mem_singleton.mp hl]
  trivial

end Xv6K230
