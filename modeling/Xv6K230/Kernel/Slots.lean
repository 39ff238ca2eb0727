import Xv6K230.Kernel.Footprint
import Xv6K230.Kernel.Invariant

/-! # Process slots over time

What `kfork`, `kexit` and `kwait` do to the process table.
-/

namespace Xv6K230

open Vm Fs Prog

/-! ## Fork -/

section

variable {k : Kernel}

lemma freeproc_table (i : Pid) :
    wp (freeproc i) (fun _ => True) (fun _ k' => k'.proc i = (k.proc i).clear ∧ (∀ j, j ≠ i → k'.proc j = k.proc j) ∧
      k'.ftable = k.ftable ∧ k'.fs = k.fs ∧ k'.pipes = k.pipes ∧ k'.initproc = k.initproc) k := by
  simp only [freeproc, wp_bind, wp_getProc, wp_onMem, wp_modProc]
  refine wp_mono (wp_true _ _) (fun _ h => h) ?_
  intro _ m' _
  exact ⟨setProc_proc_same .., fun j hj => setProc_proc_of_ne _ hj, rfl, rfl, rfl, rfl⟩

structure Unforked (k k' : Kernel) : Prop where
  proc : ∀ j, k'.proc j = k.proc j ∨ (k.proc j).state = .unused ∧ (k'.proc j).state = .unused ∧
    (k'.proc j).pid = 0 ∧ (k'.proc j).killed = false ∧ (k'.proc j).ofile = (k.proc j).ofile
  ftable : k'.ftable = k.ftable
  fs : k'.fs = k.fs
  pipes : k'.pipes = k.pipes
  initproc : k'.initproc = k.initproc

lemma Unforked.of_clear {k' : Kernel} {i : Pid} (hi : (k.proc i).state = .unused) {p : Proc}
    (hOfile : p.ofile = (k.proc i).ofile) (hClear : k'.proc i = p.clear) (hOther : ∀ j, j ≠ i → k'.proc j = k.proc j)
    (hf : k'.ftable = k.ftable) (hFs : k'.fs = k.fs) (hp : k'.pipes = k.pipes) (hInit : k'.initproc = k.initproc) :
    Unforked k k' := by
  refine ⟨fun j => ?_, hf, hFs, hp, hInit⟩
  by_cases hj : j = i
  · subst hj
    rw [hClear]
    exact .inr ⟨hi, rfl, rfl, rfl, hOfile⟩
  · exact .inl (hOther j hj)

structure NewSlot (k : Kernel) (i : Pid) (k' : Kernel) : Prop where
  slot : findUnused k.proc = some i
  other : ∀ j, j ≠ i → k'.proc j = k.proc j
  entry : ∃ tf pt, k'.proc i =
    { k.proc i with pid := k.nextpid, state := .used, trapframe := tf, pagetable := pt, susp := none }
  ftable : k'.ftable = k.ftable
  fs : k'.fs = k.fs
  pipes : k'.pipes = k.pipes
  initproc : k'.initproc = k.initproc

lemma allocproc_table : wp allocproc (fun _ => True) (fun res k' =>
    match res with
    | none => Unforked k k'
    | some i => NewSlot k i k') k := by
  simp only [allocproc, wp_bind, wp_read]
  cases hFind : findUnused k.proc with
  | none =>
    simp only [wp_pure]
    exact ⟨fun j => .inl rfl, rfl, rfl, rfl, rfl⟩
  | some i =>
    have hState := findUnused_state hFind
    simp only [allocSlot, allocpid, wp_bind, wp_read, wp_update, wp_pure, wp_modProc, wp_onMem]
    refine wp_mono (wp_true _ _) (fun _ h => h) ?_
    intro tf m1 _
    split
    · simp only [wp_bind, wp_pure]
      refine wp_post (freeproc_table i) ?_
      rintro - k' ⟨hi, hOther, hf, hFs, hp, hInit⟩
      refine Unforked.of_clear hState ?_ hi ?_ hf hFs hp hInit
      · rw [setProc_proc_same]
        simp
      · intro j hj
        rw [hOther j hj, setProc_proc_of_ne _ hj]
        simp [setProc_proc_of_ne _ hj]
    · simp only [wp_bind, wp_read, wp_onMem, wp_modProc]
      refine wp_mono (wp_true _ _) (fun _ h => h) ?_
      intro pt m2 _
      split
      · simp only [wp_bind, wp_pure]
        refine wp_post (freeproc_table i) ?_
        rintro - k' ⟨hi, hOther, hf, hFs, hp, hInit⟩
        refine Unforked.of_clear hState ?_ hi ?_ hf hFs hp hInit
        · simp
        · intro j hj
          rw [hOther j hj]
          simp [setProc_proc_of_ne _ hj]
      · simp only [wp_bind, wp_pure, wp_modProc]
        refine ⟨hFind, ?_, ⟨tf, pt, ?_⟩, rfl, rfl, rfl, rfl⟩
        · intro j hj
          simp [setProc_proc_of_ne _ hj]
        · simp

/-- The descriptors that a child gets: the parent's where it has one, whatever its slot
held before where not. -/
def inherit (parent slot : Fd → Option Fp) : Fd → Option Fp := fun fd => (parent fd).or (slot fd)

/-- The descriptors of the child while those in `rest` are still to come. -/
def inheriting (parent slot : Fd → Option Fp) (rest : List Fd) : Fd → Option Fp :=
  fun fd => if fd ∈ rest then slot fd else inherit parent slot fd

lemma inheriting_cons {parent slot : Fd → Option Fp} {fd : Fd} {rest : List Fd} (hNew : fd ∉ rest) :
    inheriting parent slot rest =
      fun d => if d = fd then inherit parent slot fd else inheriting parent slot (fd :: rest) d := by
  funext d
  by_cases hd : d = fd
  · subst hd
    simp [inheriting, hNew]
  · simp [inheriting, hd]

lemma dupLoop_table {me np : Pid} (hne : me ≠ np) :
    wp (eachM (dupOfile me np) (List.finRange nofile)) (fun _ => True) (fun _ k' =>
      (∀ j, j ≠ np → k'.proc j = k.proc j) ∧
      k'.proc np = { k.proc np with ofile := inherit (k.proc me).ofile (k.proc np).ofile } ∧
      k'.fs = k.fs ∧ k'.pipes = k.pipes ∧ k'.initproc = k.initproc) k := by
  refine wp_post (wp_eachM (I := fun rest k' => rest.Nodup ∧ (∀ j, j ≠ np → k'.proc j = k.proc j) ∧
    k'.proc np = { k.proc np with ofile := inheriting (k.proc me).ofile (k.proc np).ofile rest } ∧
    k'.fs = k.fs ∧ k'.pipes = k.pipes ∧ k'.initproc = k.initproc) ?_ _ _
    ⟨List.nodup_finRange _, fun _ _ => rfl, ?_, rfl, rfl, rfl⟩) ?_
  · rintro fd rest k1 ⟨hnd, hOther, hNp, hFs, hp, hInit⟩
    obtain ⟨hNew, hnd'⟩ := List.nodup_cons.mp hnd
    simp only [dupOfile, wp_bind, wp_getProc, hOther me hne]
    cases hf : (k.proc me).ofile fd with
    | none =>
      simp only [wp_pure]
      have hSame : inheriting (k.proc me).ofile (k.proc np).ofile rest =
          inheriting (k.proc me).ofile (k.proc np).ofile (fd :: rest) := by
        rw [inheriting_cons hNew]
        funext d
        by_cases hd : d = fd
        · subst hd
          simp [inheriting, inherit, hf]
        · rw [if_neg hd]
      rw [← hSame] at hNp
      exact ⟨hnd', hOther, hNp, hFs, hp, hInit⟩
    | some f =>
      simp only [filedup, setOfile, wp_bind, wp_getFile]
      split
      · rw [wp_stop]
        trivial
      · simp only [wp_modFile, wp_modProc, Kernel.setFile_proc]
        refine ⟨hnd', ?_, ?_, hFs, hp, hInit⟩
        · intro j hj
          rw [setProc_proc_of_ne _ hj]
          exact hOther j hj
        · rw [setProc_proc_same, hNp, inheriting_cons hNew, inherit, hf, Option.some_or]
  · rw [show inheriting (k.proc me).ofile (k.proc np).ofile (List.finRange nofile) = (k.proc np).ofile by
      funext fd
      simp [inheriting, List.mem_finRange]]
  · rintro - k' ⟨-, hOther, hNp, hRest⟩
    refine ⟨hOther, ?_, hRest⟩
    rw [hNp]
    congr 1

structure Forked (k : Kernel) (me np : Pid) (k' : Kernel) : Prop where
  slot : findUnused k.proc = some np
  other : ∀ j, j ≠ np → k'.proc j = k.proc j
  state : (k'.proc np).state = .runnable
  susp : (k'.proc np).susp = none
  pid : (k'.proc np).pid = k.nextpid
  killed : (k'.proc np).killed = (k.proc np).killed
  parent : (k'.proc np).parent = some me
  ofile : (k'.proc np).ofile = inherit (k.proc me).ofile (k.proc np).ofile
  cwd : (k'.proc np).cwd = (k.proc me).cwd ∧ (k.proc me).cwd ≠ none
  initproc : k'.initproc = k.initproc

lemma kfork_table {me : Pid} (hMe : (k.proc me).state ≠ .unused) :
    wp (kfork me) (fun _ => True) (fun r k' =>
      r = -1 ∧ Unforked k k' ∨ r = k.nextpid ∧ ∃ np, Forked k me np k') k := by
  simp only [kfork, wp_bind]
  refine wp_post allocproc_table ?_
  rintro (_ | np) k1 h1
  · simp only [wp_pure]
    exact .inl ⟨trivial, h1⟩
  · obtain ⟨hFind, hOther, ⟨tf, pt, hNp⟩, hf, hFs, hp, hInit⟩ := h1
    have hUnused := findUnused_state hFind
    have hne : me ≠ np := by
      rintro rfl
      exact hMe hUnused
    simp only [wp_bind, wp_getProc, wp_onMem]
    refine wp_mono (wp_true _ _) (fun _ h => h) ?_
    intro ok m2 _
    cases ok with
    | false =>
      simp only [Bool.not_false, if_true, wp_bind, wp_pure]
      refine wp_post (freeproc_table np) ?_
      rintro - k' ⟨hClear, hOther', hf', hFs', hp', hInit'⟩
      refine .inl ⟨trivial, Unforked.of_clear hUnused ?_ hClear ?_ (hf'.trans hf) (hFs'.trans hFs) (hp'.trans hp)
        (hInit'.trans hInit)⟩
      · rw [Kernel.setMem_proc, hNp]
      · intro j hj
        rw [hOther' j hj, Kernel.setMem_proc, hOther j hj]
    | true =>
      simp only [Bool.not_true, Bool.false_eq_true, if_false, wp_bind, wp_modProc, wp_onMem, copyTrapframe, wp_update]
      refine wp_post (dupLoop_table hne) ?_
      rintro - k3 ⟨hOther3, hNp3, hFs3, hp3, hInit3⟩
      cases hc : (k1.proc me).cwd with
      | none =>
        simp only [wp_stop]
      | some cwd =>
        simp only [idup, modInode, wp_bind, wp_onFs, wp_update, wp_pure, wp_modProc, setProc_setProc, setProc_proc_same,
          Kernel.setFs_proc]
        have hpid : (k1.proc np).pid = k.nextpid := by rw [hNp]
        have hMe1 : k1.proc me = k.proc me := hOther me hne
        refine .inr ⟨hpid, np, hFind, ?_, ?_, ?_, ?_, ?_, ?_, ?_, ?_, ?_⟩
        · grind [setProc_proc_of_ne, Kernel.setFs_proc, Kernel.setMem_proc]
        · rw [setProc_proc_same]
        · rw [setProc_proc_same, hNp3]
          simp [hNp]
        · rw [setProc_proc_same, hNp3]
          simp [hNp]
        · rw [setProc_proc_same, hNp3]
          simp [hNp]
        · rw [setProc_proc_same]
        · rw [setProc_proc_same, hNp3]
          simp [hNp, setProc_proc_of_ne _ hne, hMe1]
        · rw [setProc_proc_same, ← hMe1, hc]
          simp
        · exact hInit3.trans hInit

end

/-! ## Exit and wait -/

/-- An entry during another process's exit: a child gets a new parent, a sleeper may be
woken. -/
structure Orphaned (p p' : Proc) : Prop where
  state : p'.state = p.state ∨ p.state = .sleeping ∧ p'.state = .runnable
  rest : { p' with state := p.state, parent := p.parent } = p

def OrphanedTable (k k' : Kernel) : Prop := ∀ j, Orphaned (k.proc j) (k'.proc j)

lemma Orphaned.refl (p : Proc) : Orphaned p p := ⟨.inl rfl, rfl⟩

lemma Orphaned.trans {p p1 p2 : Proc} (h1 : Orphaned p p1) (h2 : Orphaned p1 p2) : Orphaned p p2 := by
  obtain ⟨hState1, hRest1⟩ := h1
  obtain ⟨hState2, hRest2⟩ := h2
  refine ⟨?_, ?_⟩
  · grind
  · cases p
    cases p1
    cases p2
    simp_all

instance : Std.Refl OrphanedTable := ⟨fun _ _ => Orphaned.refl _⟩

instance : IsTrans Kernel OrphanedTable := ⟨fun _ _ _ h1 h2 j => (h1 j).trans (h2 j)⟩

lemma orphaned_wakeup (me : Pid) (chan : Chan) : Moves OrphanedTable (wakeup me chan) := by
  refine .update fun k j => ?_
  unfold wakeOne
  by_cases h : j ≠ me ∧ (k.proc j).state = .sleeping ∧ (k.proc j).chan = some chan
  · simp only [if_pos h]
    exact ⟨.inr ⟨h.2.1, rfl⟩, rfl⟩
  · simp only [if_neg h]
    exact Orphaned.refl _

lemma orphaned_reparent (me : Pid) : Moves OrphanedTable (reparent me) := by
  refine .bind (.read _) fun init => .eachM fun pp => .bind (.read _) fun q => .ite ?_ (.pure _)
  refine .bind ?_ fun _ => ?_
  · refine moves_modProc fun k j => ?_
    by_cases hj : j = pp
    · rw [hj, setProc_proc_same]
      exact ⟨.inl rfl, rfl⟩
    · rw [setProc_proc_of_ne _ hj]
      exact Orphaned.refl _
  · cases init with
    | none => exact .pure _
    | some i => exact orphaned_wakeup me _

lemma Orphaned.ofile {p p' : Proc} (h : Orphaned p p') : p'.ofile = p.ofile := by
  have hRest := congrArg Proc.ofile h.rest
  exact hRest

lemma Orphaned.cwd {p p' : Proc} (h : Orphaned p p') : p'.cwd = p.cwd := by
  have hRest := congrArg Proc.cwd h.rest
  exact hRest

lemma kexit_table {k : Kernel} (me : Pid) (status : Int32) :
    wp (kexit me status) (fun _ => True) (fun _ k' => k.initproc ≠ some me ∧
      (∀ j, j ≠ me → Orphaned (k.proc j) (k'.proc j)) ∧
      ∃ p, Orphaned (k.proc me) p ∧ k'.proc me = { p with xstate := status, state := .zombie }) k := by
  simp only [kexit, wp_bind, wp_read, id_eq]
  split
  · rw [wp_stop]
    trivial
  · rename_i hInit
    simp only [wp_bind, wp_getProc]
    refine wp_post (orphaned_reparent me k) ?_
    intro _ k1 hk1
    have hEnd : ∀ {k2 : Kernel}, OrphanedTable k k2 →
        wp (modProc me fun p => { p with xstate := status, state := .zombie }) (fun _ => True) (fun _ k' =>
          k.initproc ≠ some me ∧ (∀ j, j ≠ me → Orphaned (k.proc j) (k'.proc j)) ∧
          ∃ p, Orphaned (k.proc me) p ∧ k'.proc me = { p with xstate := status, state := .zombie }) k2 := by
      intro k2 hk2
      rw [wp_modProc]
      refine ⟨hInit, fun j hj => ?_, k2.proc me, hk2 me, setProc_proc_same ..⟩
      rw [setProc_proc_of_ne _ hj]
      exact hk2 j
    cases (k1.proc me).parent with
    | none => exact hEnd hk1
    | some q =>
      simp only [wp_bind]
      refine wp_post (orphaned_wakeup me _ k1) ?_
      intro _ k2 hk2
      exact hEnd (IsTrans.trans k k1 k2 hk1 hk2)

lemma waitOn_table {k : Kernel} (me : Pid) (addr : Nat) (pp : Pid) :
    wp (waitOn me addr pp) (fun _ => True) (fun r k' => k'.proc = k.proc ∨
      r ≠ none ∧ (k.proc pp).state = .zombie ∧ k'.proc pp = (k.proc pp).clear ∧
      ∀ j, j ≠ pp → k'.proc j = k.proc j) k := by
  simp only [waitOn, wp_bind, wp_getProc]
  split
  · rename_i hZombie
    have hReap : ∀ {k1 : Kernel}, k1.proc = k.proc →
        wp (freeproc pp >>= fun _ => pure (some (k.proc pp).pid)) (fun _ => True) (fun r k' => k'.proc = k.proc ∨
          r ≠ none ∧ (k.proc pp).state = .zombie ∧ k'.proc pp = (k.proc pp).clear ∧
          ∀ j, j ≠ pp → k'.proc j = k.proc j) k1 := by
      intro k1 hk1
      simp only [wp_bind, wp_pure]
      refine wp_post (freeproc_table pp) ?_
      rintro - k' ⟨hClear, hOther, -⟩
      rw [hk1] at hClear hOther
      exact .inr ⟨by simp, hZombie.2, hClear, hOther⟩
    rw [wp_bind, wp_getProc]
    split
    · rw [wp_bind, wp_pure, if_pos rfl]
      exact hReap rfl
    · simp only [wp_bind, wp_onMem]
      refine wp_mono (wp_true _ _) (fun _ h => h) ?_
      intro ok m' _
      split
      · exact hReap rfl
      · rw [wp_pure]
        exact .inl rfl
  · rw [wp_pure]
    exact .inl rfl

lemma kwait_table {k : Kernel} (me : Pid) (addr : Nat) :
    wp (kwait me addr) (fun _ => True) (fun r k' => k'.proc = k.proc ∨
      (r = none ∧ ∃ p, k'.proc = (k.setProc me p).proc ∧ p = { k.proc me with
        chan := some (.proc me), state := .sleeping, susp := some (.wait addr) }) ∨
      r ≠ none ∧ ∃ pp, (k.proc pp).state = .zombie ∧ k'.proc pp = (k.proc pp).clear ∧
        ∀ j, j ≠ pp → k'.proc j = k.proc j) k := by
  simp only [kwait, wp_bind]
  refine wp_post (wp_firstM (I := fun _ k1 => k1.proc = k.proc) (R := fun r k1 => k1.proc = k.proc ∨
    r ≠ none ∧ ∃ pp, (k.proc pp).state = .zombie ∧ k1.proc pp = (k.proc pp).clear ∧
      ∀ j, j ≠ pp → k1.proc j = k.proc j) (fun _ h => .inl h) ?_ _ _ rfl) ?_
  · intro pp rest k1 hk1
    refine wp_post (waitOn_table me addr pp) ?_
    rw [hk1]
    rintro (_ | r) k2 hk2
    · obtain hEq | ⟨hne, -⟩ := hk2
      · exact hEq
      · exact absurd rfl hne
    · grind
  · rintro (_ | r) k1 hk1
    · obtain hEq | ⟨hne, -⟩ := hk1
      · simp only [wp_bind, wp_read]
        split
        · rw [wp_pure]
          exact .inl hEq
        · simp only [wp_bind, wp_modProc, wp_pure]
          refine .inr (.inl ⟨trivial, _, ?_, rfl⟩)
          funext j
          by_cases hj : j = me
          · rw [hj, setProc_proc_same, setProc_proc_same, hEq]
          · rw [setProc_proc_of_ne _ hj, setProc_proc_of_ne _ hj, hEq]
      · exact absurd rfl hne
    · rw [wp_pure]
      obtain hEq | ⟨-, hReap⟩ := hk1
      · exact .inl hEq
      · exact .inr (.inr ⟨by simp, hReap⟩)

end Xv6K230
