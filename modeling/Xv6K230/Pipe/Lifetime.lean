import Xv6K230.Pipe.Transfer
import Xv6K230.Lib.Tally

/-! # The lifetime of a pipe

`filealloc`, `filedup`, `fileclose`, `pipealloc` and `pipeclose` as their sections under locks, run by any
number of processes. A pipe has at most one read end and one write end.
-/

namespace Xv6K230.Pipes

open Option (ite_none_right_eq_some)

structure Files where
  ftable : Fp → File
  pipes : Nat → Pipe
  free : List Nat -- kmem.freelist

abbrev FM : Type → Type := Prog Stop Files

def Files.setFile (s : Files) (f : Fp) (v : File) : Files :=
  { s with ftable := fun g => if g = f then v else s.ftable g }

def Files.setPipe (s : Files) (pi : Nat) (v : Pipe) : Files :=
  { s with pipes := fun q => if q = pi then v else s.pipes q }

def modFile (f : Fp) (g : File → File) : FM Unit := Prog.update fun s => s.setFile f (g (s.ftable f))

def filealloc : FM (Option Fp) := do
  let t ← Prog.read Files.ftable
  match (List.finRange nfile).find? fun f => (t f).ref == 0 with
  | none => return none
  | some f =>
    modFile f fun v => { v with ref := 1 }
    return some f

def filedup (f : Fp) : FM Unit := do
  let t ← Prog.read Files.ftable
  if (t f).ref < 1 then Prog.stop .filedup else modFile f fun v => { v with ref := v.ref + 1 }

/-- `fileclose` under `ftable.lock`; the result is the call of `pipeclose` that follows. -/
def fileclose (f : Fp) : FM (Option (Nat × Bool)) := do
  let t ← Prog.read Files.ftable
  let ff := t f
  if ff.ref < 1 then Prog.stop .fileclose
  else if ff.ref - 1 > 0 then
    modFile f fun v => { v with ref := v.ref - 1 }
    return none
  else
    modFile f fun v => { v with ref := 0, type := .none }
    return if ff.type = .pipe then some (ff.pipe, ff.writable) else none

/-- `pipeclose` under `pi->lock`; the result is whether it goes on to free the page. -/
def pipeclose (pi : Nat) (writable : Bool) : FM Bool := do
  if writable then Prog.update fun s => s.setPipe pi { s.pipes pi with writeopen := false }
  else Prog.update fun s => s.setPipe pi { s.pipes pi with readopen := false }
  let s ← Prog.read id
  return !(s.pipes pi).readopen && !(s.pipes pi).writeopen

def kfree (pa : Nat) : FM Unit := Prog.update fun s => { s with free := pa :: s.free }

def kalloc : FM (Option Nat) := do
  let s ← Prog.read id
  match s.free with
  | [] => return none
  | pa :: rest =>
    Prog.update fun s => { s with free := rest }
    return some pa

/-- `pipealloc` from the success of its `kalloc` on. -/
def pipeinit (f0 f1 : Fp) (pi : Nat) : FM Unit := do
  Prog.update fun s => s.setPipe pi
    { s.pipes pi with readopen := true, writeopen := true, nwrite := 0, nread := 0 }
  modFile f0 fun v => { v with type := .pipe, readable := true, writable := false, pipe := pi }
  modFile f1 fun v => { v with type := .pipe, readable := false, writable := true, pipe := pi }

inductive Task where
  | holds (pid : Nat) (f : Fp) -- a counted reference
  | opening (pid : Nat) (f : Fp) -- sys_open has allocated f
  | piping1 (pid : Nat) (f0 : Fp) -- pipealloc after its first filealloc
  | piping2 (pid : Nat) (f0 f1 : Fp)
  | piping3 (pid : Nat) (f0 f1 : Fp) (pi : Nat)
  | closing (pid pi : Nat) (writable : Bool) -- fileclose before pipeclose
  | freeing (pid pi : Nat) -- pipeclose before kfree
  deriving DecidableEq

/-- The tables, the tasks, the pages that others have allocated, and how often each page
has been made a pipe by `pipealloc` and freed by `pipeclose`. -/
structure Table where
  files : Files
  tasks : List Task
  taken : List Nat
  allocs : Nat → Nat
  frees : Nat → Nat

inductive Event where
  | «open» (pid : Nat)
  | opened (pid : Nat) (f : Fp) (device : Bool)
  | openFails (pid : Nat) (f : Fp)
  | dup (pid : Nat) (f : Fp) (child : Nat)
  | close (pid : Nat) (f : Fp)
  | pipeclose (pid pi : Nat) (writable : Bool)
  | kfree (pid pi : Nat)
  | pipe1 (pid : Nat)
  | pipe2 (pid : Nat) (f0 : Fp)
  | pipe3 (pid : Nat) (f0 f1 : Fp)
  | pipe4 (pid : Nat) (f0 f1 : Fp) (pi : Nat)
  | serve (pid : Nat) (f : Fp) (c : PipeCall) (u : PipeUser)
  | kallocOther
  | kfreeOther (pa : Nat)

/-- The task `t` is replaced by the tasks `new`. -/
def Table.switch (s : Table) (t : Task) (new : List Task) : List Task := new ++ s.tasks.erase t

def Table.after {α : Type} (s : Table) (m : FM α) (k : α → Files → Table) : Option Table :=
  match m s.files with
  | .ok (a, files) => some (k a files)
  | .error _ => none

def bump (g : Nat → Nat) (pi : Nat) : Nat → Nat := fun q => if q = pi then g q + 1 else g q

def Table.next (s : Table) : Event → Option Table
  | .open pid =>
    s.after filealloc fun r files =>
      match r with
      | none => s
      | some f => { s with files := files, tasks := .opening pid f :: s.tasks }
  | .opened pid f device =>
    if .opening pid f ∈ s.tasks then
      s.after (modFile f fun v => { v with type := if device then .device else .inode }) fun _ files =>
        { s with files := files, tasks := s.switch (.opening pid f) [.holds pid f] }
    else none
  | .openFails pid f =>
    if .opening pid f ∈ s.tasks then some { s with tasks := s.switch (.opening pid f) [.holds pid f] } else none
  | .dup pid f child =>
    if .holds pid f ∈ s.tasks then
      s.after (filedup f) fun _ files => { s with files := files, tasks := .holds child f :: s.tasks }
    else none
  | .close pid f =>
    if .holds pid f ∈ s.tasks then
      s.after (fileclose f) fun r files =>
        { s with
          files := files
          tasks := s.switch (.holds pid f) (r.toList.map fun x => .closing pid x.1 x.2) }
    else none
  | .pipeclose pid pi writable =>
    if .closing pid pi writable ∈ s.tasks then
      s.after (Pipes.pipeclose pi writable) fun r files =>
        { s with
          files := files
          tasks := s.switch (.closing pid pi writable) (if r then [.freeing pid pi] else []) }
    else none
  | .kfree pid pi =>
    if .freeing pid pi ∈ s.tasks then
      s.after (Pipes.kfree pi) fun _ files =>
        { s with files := files, tasks := s.tasks.erase (.freeing pid pi), frees := bump s.frees pi }
    else none
  | .pipe1 pid =>
    s.after filealloc fun r files =>
      match r with
      | none => s
      | some f0 => { s with files := files, tasks := .piping1 pid f0 :: s.tasks }
  | .pipe2 pid f0 =>
    if .piping1 pid f0 ∈ s.tasks then
      s.after filealloc fun r files =>
        match r with
        | none => { s with tasks := s.switch (.piping1 pid f0) [.holds pid f0] }
        | some f1 => { s with files := files, tasks := s.switch (.piping1 pid f0) [.piping2 pid f0 f1] }
    else none
  | .pipe3 pid f0 f1 =>
    if .piping2 pid f0 f1 ∈ s.tasks then
      s.after kalloc fun r files =>
        match r with
        | none => { s with tasks := s.switch (.piping2 pid f0 f1) [.holds pid f0, .holds pid f1] }
        | some pi => { s with files := files, tasks := s.switch (.piping2 pid f0 f1) [.piping3 pid f0 f1 pi] }
    else none
  | .pipe4 pid f0 f1 pi =>
    if .piping3 pid f0 f1 pi ∈ s.tasks then
      s.after (pipeinit f0 f1 pi) fun _ files =>
        { s with
          files := files
          tasks := s.switch (.piping3 pid f0 f1 pi) [.holds pid f0, .holds pid f1]
          allocs := bump s.allocs pi }
    else none
  | .serve pid f c u =>
    let v := s.files.ftable f
    if .holds pid f ∈ s.tasks ∧ v.type = .pipe ∧ (if c.write then v.writable else v.readable) then
      some { s with files := s.files.setPipe v.pipe (PipeLine.serve ⟨s.files.pipes v.pipe, [], [], []⟩ c u).2.pipe }
    else none
  | .kallocOther =>
    s.after kalloc fun r files =>
      match r with
      | none => s
      | some pa => { s with files := files, taken := pa :: s.taken }
  | .kfreeOther pa =>
    if pa ∈ s.taken then
      s.after (Pipes.kfree pa) fun _ files => { s with files := files, taken := s.taken.erase pa }
    else none

structure Table.Fresh (s : Table) : Prop where
  ftable : ∀ f, (s.files.ftable f).ref = 0 ∧ (s.files.ftable f).type = .none
  free : s.files.free.Nodup
  rest : s.tasks = [] ∧ s.taken = [] ∧ ∀ pi, s.allocs pi = 0 ∧ s.frees pi = 0

abbrev Table.Reaches : Table → Prop :=
  Transition.Reachable Table.Fresh (fun s e t => s.next e = some t) fun _ _ => True

/-! ## What tasks stand for -/

def Task.holdsFile (f : Fp) : Task → Nat
  | .holds _ g => if g = f then 1 else 0
  | _ => 0

def Task.freshFile (f : Fp) : Task → Nat
  | .opening _ g | .piping1 _ g => if g = f then 1 else 0
  | .piping2 _ g0 g1 | .piping3 _ g0 g1 _ => (if g0 = f then 1 else 0) + if g1 = f then 1 else 0
  | _ => 0

def Task.isEnd (pi : Nat) (w : Bool) : Task → Nat
  | .closing _ q v => if q = pi ∧ v = w then 1 else 0
  | _ => 0

/-- Pages in the hands of `pipealloc`. -/
def Task.freshPage (pi : Nat) : Task → Nat
  | .piping3 _ _ _ q => if q = pi then 1 else 0
  | _ => 0

def Task.freesPage (pi : Nat) : Task → Nat
  | .freeing _ q => if q = pi then 1 else 0
  | _ => 0

def fileEnd (pi : Nat) (w : Bool) (v : File) : Nat := if v.type = .pipe ∧ v.pipe = pi ∧ v.writable = w then 1 else 0

open Tally

/-- What there is of a page: its place on the free list, in other hands, in the hands of
`pipealloc` and of the last `pipeclose`, its ends, and how often it has been a pipe. -/
@[ext] structure PageState where
  free : Nat
  taken : Nat
  fresh : Nat
  freeing : Nat
  ends : Bool → Nat
  pipe : Pipe
  allocs : Nat
  frees : Nat

def Table.page (s : Table) (pi : Nat) : PageState where
  free := s.files.free.count pi
  taken := s.taken.count pi
  fresh := weight (Task.freshPage pi) s.tasks
  freeing := weight (Task.freesPage pi) s.tasks
  ends w := total (fileEnd pi w) s.files.ftable + weight (Task.isEnd pi w) s.tasks
  pipe := s.files.pipes pi
  allocs := s.allocs pi
  frees := s.frees pi

lemma Table.page_ends (s : Table) (pi : Nat) (w : Bool) :
    (s.page pi).ends w = total (fileEnd pi w) s.files.ftable + weight (Task.isEnd pi w) s.tasks := rfl

def PageState.live (p : PageState) : Nat := max (p.ends false) (p.ends true)

structure PageState.Ok (p : PageState) : Prop where
  once : p.free + p.taken + p.fresh + p.freeing + p.live ≤ 1
  flags : 0 < p.live + p.freeing → p.pipe.readopen.toNat = p.ends false ∧ p.pipe.writeopen.toNat = p.ends true
  counters : p.allocs = p.frees + p.live + p.freeing

structure Sound (s : Table) : Prop where
  refs : ∀ f, (s.files.ftable f).ref = weight (Task.holdsFile f) s.tasks + weight (Task.freshFile f) s.tasks
  closed : ∀ f, (s.files.ftable f).ref = 0 → (s.files.ftable f).type = .none
  fresh : ∀ f, 0 < weight (Task.freshFile f) s.tasks → (s.files.ftable f).ref = 1 ∧ (s.files.ftable f).type = .none
  page : ∀ pi, (s.page pi).Ok

section

variable {s t : Files}

lemma filealloc_cases {r : Option Fp} (h : filealloc s = .ok (r, t)) :
    r = none ∧ t = s ∨ ∃ f, r = some f ∧ (s.ftable f).ref = 0 ∧ t = s.setFile f { s.ftable f with ref := 1 } := by
  apply Prog.wp_returns h
  simp only [filealloc, Prog.wp_bind, Prog.wp_read]
  cases hFind : (List.finRange nfile).find? fun f => (s.ftable f).ref == 0 with
  | none => exact Prog.wp_val (.inl ⟨rfl, rfl⟩)
  | some f =>
    simp only [Prog.wp_bind, modFile, Prog.wp_update, Prog.wp_pure]
    have hZero := List.find?_some hFind
    exact .inr ⟨f, rfl, by simpa using hZero, rfl⟩

lemma fileclose_cases {f : Fp} {r : Option (Nat × Bool)} (h : fileclose f s = .ok (r, t)) :
    1 < (s.ftable f).ref ∧ r = none ∧ t = s.setFile f { s.ftable f with ref := (s.ftable f).ref - 1 } ∨
    (s.ftable f).ref = 1 ∧ t = s.setFile f { s.ftable f with ref := 0, type := .none } ∧
      r = if (s.ftable f).type = .pipe then some ((s.ftable f).pipe, (s.ftable f).writable) else none := by
  apply Prog.wp_returns h
  simp only [fileclose, Prog.wp_bind, Prog.wp_read]
  split
  · exact (Prog.wp_stop _).mpr trivial
  · split
    · simp only [Prog.wp_bind, modFile, Prog.wp_update]
      exact Prog.wp_val (.inl ⟨by omega, rfl, rfl⟩)
    · simp only [Prog.wp_bind, modFile, Prog.wp_update]
      exact Prog.wp_val (.inr ⟨by omega, rfl, rfl⟩)

lemma pipeclose_cases {pi : Nat} {w r : Bool} (h : pipeclose pi w s = .ok (r, t)) :
    t = s.setPipe pi { s.pipes pi with
      readopen := w && (s.pipes pi).readopen, writeopen := !w && (s.pipes pi).writeopen } ∧
    r = (!(w && (s.pipes pi).readopen) && !(!w && (s.pipes pi).writeopen)) := by
  cases w <;> cases h <;> simp [Files.setPipe]

lemma kalloc_cases {r : Option Nat} (h : kalloc s = .ok (r, t)) :
    r = none ∧ t = s ∨ ∃ pa rest, r = some pa ∧ s.free = pa :: rest ∧ t = { s with free := rest } := by
  apply Prog.wp_returns h
  simp only [kalloc, Prog.wp_bind, Prog.wp_read, id_eq]
  split
  · exact Prog.wp_val (.inl ⟨rfl, rfl⟩)
  · rename_i pa rest hFree
    simp only [Prog.wp_bind, Prog.wp_update, Prog.wp_pure]
    exact .inr ⟨pa, rest, rfl, hFree, rfl⟩

lemma after_some {s t : Table} {α : Type} {m : FM α} {k : α → Files → Table} (h : s.after m k = some t) :
    ∃ a files, m s.files = .ok (a, files) ∧ t = k a files := by
  rw [Table.after] at h
  split at h
  · rename_i a files hm
    exact ⟨a, files, hm, (Option.some.inj h).symm⟩
  · cases h

end

/-! ## Steps -/

section

variable {s t : Table} {pid : Nat}

attribute [local grind] Task.holdsFile Task.freshFile Task.isEnd Task.freshPage Task.freesPage fileEnd

attribute [local grind =] weight_nil weight_cons Table.page Table.page_ends PageState.live

section

variable {s : Files} {f g : Fp} {v : File} {pi q : Nat} {w : Pipe} {n : Nat → Nat}

@[grind =] lemma ftable_setFile : (s.setFile f v).ftable g = if g = f then v else s.ftable g := rfl

@[grind =] lemma pipes_setFile : (s.setFile f v).pipes q = s.pipes q := rfl

@[grind =] lemma free_setFile : (s.setFile f v).free = s.free := rfl

@[grind =] lemma ftable_setPipe : (s.setPipe pi w).ftable = s.ftable := rfl

@[grind =] lemma pipes_setPipe : (s.setPipe pi w).pipes q = if q = pi then w else s.pipes q := rfl

@[grind =] lemma free_setPipe : (s.setPipe pi w).free = s.free := rfl

@[grind =] lemma bump_apply : bump n pi q = if q = pi then n q + 1 else n q := rfl

end

lemma Table.Fresh.sound (h : s.Fresh) : Sound s := by
  obtain ⟨hTasks, hTaken, hCounters⟩ := h.rest
  have hEnds : ∀ pi w, total (fileEnd pi w) s.files.ftable = 0 := by
    intro pi w
    apply Finset.sum_eq_zero
    intro f _
    rw [fileEnd, (h.ftable f).2]
    rfl
  constructor
  · grind [h.ftable]
  · exact fun f _ => (h.ftable f).2
  · grind
  · intro pi
    have hCount := List.nodup_iff_count_le_one.mp h.free pi
    constructor <;> grind

lemma weight_switch {φ : Task → Nat} {t : Task} (ht : t ∈ s.tasks) (new : List Task) :
    weight φ (s.switch t new) + φ t = weight φ new + weight φ s.tasks := by
  have hErase := weight_erase (φ := φ) ht
  simp only [weight, Table.switch, List.map_append, List.sum_append] at hErase ⊢
  omega

lemma weight_switch_same {φ : Task → Nat} {t : Task} (ht : t ∈ s.tasks) {new : List Task} (hEq : weight φ new = φ t) :
    weight φ (s.switch t new) = weight φ s.tasks := by
  have hSwitch := weight_switch (φ := φ) ht new
  omega

lemma total_setFile {φ : File → Nat} (s : Files) (f : Fp) (v : File) :
    total φ (s.setFile f v).ftable + φ (s.ftable f) = total φ s.ftable + φ v := total_set v

lemma count_free {pa q : Nat} {rest : List Nat} : (pa :: rest).count q = rest.count q + if pa = q then 1 else 0 := by
  rw [List.count_cons]
  simp only [beq_iff_eq]

lemma Sound.setPages (h : Sound s) (hFiles : t.files.ftable = s.files.ftable)
    (hRefs : ∀ f, weight (Task.holdsFile f) t.tasks + weight (Task.freshFile f) t.tasks =
      weight (Task.holdsFile f) s.tasks + weight (Task.freshFile f) s.tasks)
    (hFresh : ∀ f, weight (Task.freshFile f) t.tasks ≤ weight (Task.freshFile f) s.tasks)
    (hPage : ∀ pi, (t.page pi).Ok) : Sound t := by
  constructor
  · intro f
    have hSum := hRefs f
    have hf := h.refs f
    rw [hFiles]
    omega
  · rw [hFiles]
    exact h.closed
  · intro f hPos
    rw [hFiles]
    exact h.fresh f (hPos.trans_le (hFresh f))
  · exact hPage

lemma PageState.Ok.pass {p p' : PageState} (h : p.Ok)
    (hSum : p'.free + p'.taken + p'.fresh = p.free + p.taken + p.fresh)
    (hOpen : p'.pipe.readopen = p.pipe.readopen ∧ p'.pipe.writeopen = p.pipe.writeopen)
    (hEnds : ∀ w, p'.ends w = p.ends w)
    (hSame : p'.freeing = p.freeing ∧ p'.allocs = p.allocs ∧ p'.frees = p.frees) : p'.Ok := by
  obtain ⟨hOnce, hFlags, hCounters⟩ := h
  constructor <;> grind

lemma Sound.setFile (h : Sound s) {f : Fp} {v : File} {T : List Task}
    (hClosed : v.ref = 0 → v.type = .none)
    (hf : v.ref = weight (Task.holdsFile f) T + weight (Task.freshFile f) T)
    (hFresh : 0 < weight (Task.freshFile f) T → v.ref = 1 ∧ v.type = .none)
    (hHolds : ∀ g, g ≠ f → weight (Task.holdsFile g) T = weight (Task.holdsFile g) s.tasks)
    (hOther : ∀ g, g ≠ f → weight (Task.freshFile g) T = weight (Task.freshFile g) s.tasks)
    (hEnd : ∀ pi w, fileEnd pi w v + weight (Task.isEnd pi w) T =
      fileEnd pi w (s.files.ftable f) + weight (Task.isEnd pi w) s.tasks)
    (hPage : ∀ pi, weight (Task.freshPage pi) T = weight (Task.freshPage pi) s.tasks)
    (hFrees : ∀ pi, weight (Task.freesPage pi) T = weight (Task.freesPage pi) s.tasks) :
    Sound { s with files := s.files.setFile f v, tasks := T } := by
  constructor
  · grind [h.refs]
  · grind [h.closed]
  · grind [h.fresh]
  · intro pi
    have hSet := fun w => total_setFile (φ := fileEnd pi w) s.files f v
    apply (h.page pi).pass <;> grind

lemma Sound.alloc (h : Sound s) {f : Fp} (hf : (s.files.ftable f).ref = 0) {t : Task}
    (hHolds : ∀ g, t.holdsFile g = 0) (hFresh : ∀ g, t.freshFile g = if f = g then 1 else 0)
    (hEnd : ∀ pi w, t.isEnd pi w = 0) (hPage : ∀ pi, t.freshPage pi = 0) (hFrees : ∀ pi, t.freesPage pi = 0) :
    Sound { s with files := s.files.setFile f { s.files.ftable f with ref := 1 }, tasks := t :: s.tasks } := by
  have hRefs := h.refs f
  apply h.setFile <;> grind [h.closed f hf]

lemma Sound.retask (h : Sound s) {t : Task} (ht : t ∈ s.tasks) {new : List Task}
    (hRefs : ∀ f, weight (Task.holdsFile f) new + weight (Task.freshFile f) new = t.holdsFile f + t.freshFile f)
    (hFresh : ∀ f, weight (Task.freshFile f) new ≤ t.freshFile f)
    (hEnd : ∀ pi w, weight (Task.isEnd pi w) new = t.isEnd pi w)
    (hPage : ∀ pi, weight (Task.freshPage pi) new = t.freshPage pi)
    (hFrees : ∀ pi, weight (Task.freesPage pi) new = t.freesPage pi) :
    Sound { s with tasks := s.switch t new } := by
  have hSwitch := fun φ : Task → Nat => weight_switch (φ := φ) ht new
  refine h.setPages rfl ?_ ?_ ?_
  · intro f
    grind [hSwitch (Task.holdsFile f), hSwitch (Task.freshFile f)]
  · intro f
    grind [hSwitch (Task.freshFile f)]
  · intro pi
    have hEnds := fun w => hSwitch (Task.isEnd pi w)
    apply (h.page pi).pass <;> grind [hSwitch (Task.freshPage pi), hSwitch (Task.freesPage pi)]

lemma open_sound (h : Sound s) (hNext : s.next (.open pid) = some t) : Sound t := by
  obtain ⟨r, files, hm, rfl⟩ := after_some hNext
  rcases filealloc_cases hm with ⟨rfl, -⟩ | ⟨f, rfl, hf, rfl⟩
  · exact h
  · apply h.alloc hf <;> grind

lemma pipe1_sound (h : Sound s) (hNext : s.next (.pipe1 pid) = some t) : Sound t := by
  obtain ⟨r, files, hm, rfl⟩ := after_some hNext
  rcases filealloc_cases hm with ⟨rfl, -⟩ | ⟨f, rfl, hf, rfl⟩
  · exact h
  · apply h.alloc hf <;> grind

lemma openFails_sound {f : Fp} (h : Sound s) (hNext : s.next (.openFails pid f) = some t) : Sound t := by
  obtain ⟨ht, ⟨⟩⟩ := ite_none_right_eq_some.mp hNext
  apply h.retask ht <;> grind

lemma pipe2_sound {f0 : Fp} (h : Sound s) (hNext : s.next (.pipe2 pid f0) = some t) : Sound t := by
  obtain ⟨ht, hAfter⟩ := ite_none_right_eq_some.mp hNext
  obtain ⟨r, files, hm, rfl⟩ := after_some hAfter
  rcases filealloc_cases hm with ⟨rfl, -⟩ | ⟨f1, rfl, hf, rfl⟩
  · apply h.retask ht <;> grind
  · have hSwitch := fun φ : Task → Nat => weight_switch (φ := φ) ht [.piping2 pid f0 f1]
    have hOne := le_weight (φ := Task.freshFile f1) ht
    have hRefs := h.refs f1
    apply h.setFile
    · nofun
    · grind [hSwitch (Task.holdsFile f1), hSwitch (Task.freshFile f1)]
    · exact fun _ => ⟨rfl, h.closed f1 hf⟩
    · intro g hg
      grind [hSwitch (Task.holdsFile g)]
    · intro g hg
      grind [hSwitch (Task.freshFile g)]
    · intro pi w
      grind [hSwitch (Task.isEnd pi w)]
    · exact fun q => weight_switch_same ht rfl
    · exact fun q => weight_switch_same ht rfl

lemma opened_sound {f : Fp} {device : Bool} (h : Sound s) (hNext : s.next (.opened pid f device) = some t) :
    Sound t := by
  obtain ⟨ht, hAfter⟩ := ite_none_right_eq_some.mp hNext
  obtain ⟨r, files, hm, rfl⟩ := after_some hAfter
  cases hm
  have hSwitch := fun φ : Task → Nat => weight_switch (φ := φ) ht [.holds pid f]
  have hOne := le_weight (φ := Task.freshFile f) ht
  have hRefs := h.refs f
  have hFresh := h.fresh f
  have hHolds := hSwitch (Task.holdsFile f)
  have hFreshs := hSwitch (Task.freshFile f)
  apply h.setFile
  · grind
  · grind
  · grind
  · intro g hg
    grind [hSwitch (Task.holdsFile g)]
  · intro g hg
    grind [hSwitch (Task.freshFile g)]
  · intro pi w
    cases device <;> grind [hSwitch (Task.isEnd pi w)]
  · exact fun q => weight_switch_same ht rfl
  · exact fun q => weight_switch_same ht rfl

lemma Sound.not_fresh (h : Sound s) {pid : Nat} {f : Fp} (ht : .holds pid f ∈ s.tasks) :
    weight (Task.freshFile f) s.tasks = 0 ∧ 0 < weight (Task.holdsFile f) s.tasks := by
  grind [le_weight (φ := Task.holdsFile f) ht, h.refs f, h.fresh f]

lemma dup_sound {f : Fp} {child : Nat} (h : Sound s) (hNext : s.next (.dup pid f child) = some t) : Sound t := by
  obtain ⟨ht, hAfter⟩ := ite_none_right_eq_some.mp hNext
  obtain ⟨r, files, hm, rfl⟩ := after_some hAfter
  obtain ⟨hNotFresh, hHeld⟩ := h.not_fresh ht
  have hRefs := h.refs f
  have hFiles : files = s.files.setFile f { s.files.ftable f with ref := (s.files.ftable f).ref + 1 } := by
    simp only [filedup, bind, Prog.seq, Prog.read] at hm
    rw [if_neg (by omega)] at hm
    cases hm
    rfl
  subst hFiles
  apply h.setFile <;> grind

lemma close_sound {f : Fp} (h : Sound s) (hNext : s.next (.close pid f) = some t) : Sound t := by
  obtain ⟨ht, hAfter⟩ := ite_none_right_eq_some.mp hNext
  obtain ⟨r, files, hm, rfl⟩ := after_some hAfter
  obtain ⟨hNotFresh, hHeld⟩ := h.not_fresh ht
  have hRefs := h.refs f
  have hSwitch := fun φ : Task → Nat => weight_switch (φ := φ) ht (r.toList.map fun x => .closing pid x.1 x.2)
  -- the end moves from the entry to the task
  have hEnds : ∀ pi w, weight (Task.isEnd pi w) (r.toList.map fun x => .closing pid x.1 x.2) =
      if h : r.isSome then if (r.get h).1 = pi ∧ (r.get h).2 = w then 1 else 0 else 0 := by
    intro pi w
    cases r <;> simp [Task.isEnd]
  have hNone : ∀ φ : Task → Nat, (∀ pi w, φ (.closing pid pi w) = 0) →
      weight φ (r.toList.map fun x => .closing pid x.1 x.2) = 0 := by
    intro φ hφ
    cases r <;> simp [hφ]
  have hHolds : ∀ g, weight (Task.holdsFile g) (s.switch (.holds pid f) (r.toList.map fun x => .closing pid x.1 x.2)) +
      (if f = g then 1 else 0) = weight (Task.holdsFile g) s.tasks := by
    intro g
    grind [hSwitch (Task.holdsFile g), hNone (Task.holdsFile g)]
  have hFresh : ∀ g, weight (Task.freshFile g) (s.switch (.holds pid f) (r.toList.map fun x => .closing pid x.1 x.2)) =
      weight (Task.freshFile g) s.tasks := by
    intro g
    grind [hSwitch (Task.freshFile g), hNone (Task.freshFile g)]
  have hPage : ∀ q, weight (Task.freshPage q) (s.switch (.holds pid f) (r.toList.map fun x => .closing pid x.1 x.2)) =
      weight (Task.freshPage q) s.tasks := by
    intro q
    grind [hSwitch (Task.freshPage q), hNone (Task.freshPage q)]
  have hFrees : ∀ q, weight (Task.freesPage q) (s.switch (.holds pid f) (r.toList.map fun x => .closing pid x.1 x.2)) =
      weight (Task.freesPage q) s.tasks := by
    intro q
    grind [hSwitch (Task.freesPage q), hNone (Task.freesPage q)]
  rcases fileclose_cases hm with ⟨hMore, rfl, rfl⟩ | ⟨hLast, rfl, rfl⟩
  · apply h.setFile <;> grind [hSwitch (Task.isEnd _ _)]
  · apply h.setFile
    · exact fun _ => rfl
    all_goals grind [hSwitch (Task.isEnd _ _)]

/-! ## Pages -/

lemma PageState.Ok.close {p p' : PageState} (h : p.Ok) {w r : Bool} (hw : 0 < p.ends w)
    (hRead : p'.pipe.readopen = (w && p.pipe.readopen)) (hWrite : p'.pipe.writeopen = (!w && p.pipe.writeopen))
    (hr : r = (!p'.pipe.readopen && !p'.pipe.writeopen))
    (hEnds : ∀ u, p'.ends u + (if w = u then 1 else 0) = p.ends u) (hFreeing : p'.freeing = p.freeing + r.toNat)
    (hSame : p'.free = p.free ∧ p'.taken = p.taken ∧ p'.fresh = p.fresh ∧ p'.allocs = p.allocs ∧ p'.frees = p.frees) :
    p'.Ok := by
  obtain ⟨hOnce, hFlags, hCounters⟩ := h
  have hFalse := hEnds false
  have hTrue := hEnds true
  cases w <;> cases hR : p.pipe.readopen <;> cases hW : p.pipe.writeopen <;> constructor <;> grind

lemma pipeclose_sound {pi : Nat} {w : Bool} (h : Sound s) (hNext : s.next (.pipeclose pid pi w) = some t) : Sound t := by
  obtain ⟨ht, hAfter⟩ := ite_none_right_eq_some.mp hNext
  obtain ⟨r, files, hm, rfl⟩ := after_some hAfter
  obtain ⟨rfl, hr⟩ := pipeclose_cases hm
  have hSwitch : ∀ φ : Task → Nat, weight φ (s.switch (.closing pid pi w) (if r then [.freeing pid pi] else [])) +
      φ (.closing pid pi w) = r.toNat * φ (.freeing pid pi) + weight φ s.tasks := by
    intro φ
    rw [weight_switch ht]
    cases r <;> grind
  have hHere := le_weight (φ := Task.isEnd pi w) ht
  refine h.setPages rfl ?_ ?_ ?_
  · intro f
    grind [hSwitch (Task.holdsFile f), hSwitch (Task.freshFile f)]
  · intro f
    grind [hSwitch (Task.freshFile f)]
  · intro q
    have hEnds := fun u => hSwitch (Task.isEnd q u)
    have hPage := hSwitch (Task.freshPage q)
    have hFrees := hSwitch (Task.freesPage q)
    by_cases hq : pi = q
    · subst hq
      apply (h.page pi).close (w := w) (r := r) <;> grind
    · apply (h.page q).pass <;> grind

lemma kallocOther_sound (h : Sound s) (hNext : s.next .kallocOther = some t) : Sound t := by
  obtain ⟨r, files, hm, rfl⟩ := after_some hNext
  rcases kalloc_cases hm with ⟨rfl, -⟩ | ⟨pa, rest, rfl, hFree, rfl⟩
  · exact h
  · refine h.setPages rfl (fun _ => rfl) (fun _ => le_rfl) ?_
    intro q
    apply (h.page q).pass <;> grind [count_free]

lemma kfreeOther_sound {pa : Nat} (h : Sound s) (hNext : s.next (.kfreeOther pa) = some t) : Sound t := by
  obtain ⟨hTaken, hAfter⟩ := ite_none_right_eq_some.mp hNext
  obtain ⟨r, files, hm, rfl⟩ := after_some hAfter
  cases hm
  refine h.setPages rfl (fun _ => rfl) (fun _ => le_rfl) ?_
  intro q
  have hErase := (List.perm_cons_erase hTaken).count_eq q
  apply (h.page q).pass <;> grind [count_free]

lemma pipe3_sound {f0 f1 : Fp} (h : Sound s) (hNext : s.next (.pipe3 pid f0 f1) = some t) : Sound t := by
  obtain ⟨ht, hAfter⟩ := ite_none_right_eq_some.mp hNext
  obtain ⟨r, files, hm, rfl⟩ := after_some hAfter
  rcases kalloc_cases hm with ⟨rfl, -⟩ | ⟨pi, rest, rfl, hFree, rfl⟩
  · apply h.retask ht <;> grind
  · have hSwitch := fun φ : Task → Nat => weight_switch (φ := φ) ht [.piping3 pid f0 f1 pi]
    refine h.setPages rfl ?_ ?_ ?_
    · intro f
      grind [hSwitch (Task.holdsFile f), hSwitch (Task.freshFile f)]
    · exact fun f => (weight_switch_same ht rfl).le
    · intro q
      have hEnds := fun u => hSwitch (Task.isEnd q u)
      apply (h.page q).pass <;> grind [count_free, hSwitch (Task.freshPage q), hSwitch (Task.freesPage q)]

lemma kfree_sound {pi : Nat} (h : Sound s) (hNext : s.next (.kfree pid pi) = some t) : Sound t := by
  obtain ⟨ht, hAfter⟩ := ite_none_right_eq_some.mp hNext
  obtain ⟨r, files, hm, rfl⟩ := after_some hAfter
  cases hm
  have hErase := fun φ : Task → Nat => weight_erase (φ := φ) ht
  refine h.setPages rfl ?_ ?_ ?_
  · intro f
    grind [hErase (Task.holdsFile f), hErase (Task.freshFile f)]
  · exact fun f => (hErase (Task.freshFile f)).le
  · intro q
    have hFreeing := hErase (Task.freesPage q)
    have hFresh := hErase (Task.freshPage q)
    have hEnd := hErase (Task.isEnd q false)
    have hEnd' := hErase (Task.isEnd q true)
    obtain ⟨hOnce, hFlags, hCounters⟩ := h.page q
    constructor <;> grind [count_free]

lemma PageState.Ok.made {p p' : PageState} (h : p.Ok) (hFresh : p'.fresh + 1 = p.fresh)
    (hEnds : ∀ u, p'.ends u = p.ends u + 1) (hAllocs : p'.allocs = p.allocs + 1)
    (hOpen : p'.pipe.readopen = true ∧ p'.pipe.writeopen = true)
    (hSame : p'.free = p.free ∧ p'.taken = p.taken ∧ p'.freeing = p.freeing ∧ p'.frees = p.frees) : p'.Ok := by
  obtain ⟨hOnce, hFlags, hCounters⟩ := h
  constructor <;> grind

lemma pipeinit_cases {s t : Files} {f0 f1 : Fp} {pi : Nat} {r : Unit} (hNe : f0 ≠ f1) (h : pipeinit f0 f1 pi s = .ok (r, t)) :
    ∃ v0 v1 w, t = ((s.setPipe pi w).setFile f0 v0).setFile f1 v1 ∧ w.readopen = true ∧ w.writeopen = true ∧
      (v0.type = .pipe ∧ v0.pipe = pi ∧ v0.writable = false ∧ v0.ref = (s.ftable f0).ref) ∧
      v1.type = .pipe ∧ v1.pipe = pi ∧ v1.writable = true ∧ v1.ref = (s.ftable f1).ref := by
  cases h
  refine ⟨_, _, _, rfl, rfl, rfl, ⟨rfl, rfl, rfl, rfl⟩, rfl, rfl, rfl, ?_⟩
  simp only [ftable_setFile, if_neg hNe.symm]
  rfl

lemma pipe4_sound {f0 f1 : Fp} {pi : Nat} (h : Sound s) (hNext : s.next (.pipe4 pid f0 f1 pi) = some t) : Sound t := by
  obtain ⟨ht, hAfter⟩ := ite_none_right_eq_some.mp hNext
  obtain ⟨r, files, hm, rfl⟩ := after_some hAfter
  have hSwitch := fun φ : Task → Nat => weight_switch (φ := φ) ht [.holds pid f0, .holds pid f1]
  have hOne := fun f => le_weight (φ := Task.freshFile f) ht
  have hNe : f0 ≠ f1 := by
    rintro rfl
    grind [h.refs f0, h.fresh f0]
  obtain ⟨v0, v1, w, rfl, hRead, hWrite, hv0, hv1⟩ := pipeinit_cases hNe hm
  clear hm hAfter hNext
  constructor
  · intro f
    grind [h.refs f, hSwitch (Task.holdsFile f), hSwitch (Task.freshFile f)]
  · intro f
    grind [h.refs f, h.closed f, h.fresh f, hSwitch (Task.freshFile f)]
  · intro f
    grind [h.refs f, h.fresh f, hSwitch (Task.freshFile f)]
  · intro q
    have hFreeing := hSwitch (Task.freesPage q)
    have hFresh := hSwitch (Task.freshPage q)
    have hTotal : ∀ u, total (fileEnd q u) (((s.files.setPipe pi w).setFile f0 v0).setFile f1 v1).ftable =
        total (fileEnd q u) s.files.ftable + if pi = q then 1 else 0 := by
      intro u
      have hSet := total_setFile (φ := fileEnd q u) (s.files.setPipe pi w) f0 v0
      have hSet' := total_setFile (φ := fileEnd q u) ((s.files.setPipe pi w).setFile f0 v0) f1 v1
      cases u <;> grind [h.fresh f0, h.fresh f1]
    have hEnds : ∀ u, weight (Task.isEnd q u) (s.switch (.piping3 pid f0 f1 pi) [.holds pid f0, .holds pid f1]) =
        weight (Task.isEnd q u) s.tasks := fun u => weight_switch_same ht rfl
    by_cases hq : pi = q
    · subst hq
      apply (h.page pi).made <;> grind
    · apply (h.page q).pass <;> grind

/-! ## Bytes -/

lemma pipewriteLoop_open (u : PipeUser) (c : PipeCall) (i : Int) (l : PipeLine) :
    (pipewriteLoop u c i l).2.pipe.readopen = l.pipe.readopen ∧
    (pipewriteLoop u c i l).2.pipe.writeopen = l.pipe.writeopen := by
  fun_induction pipewriteLoop u c i l with
  | case4 _ _ _ _ _ _ _ ih => exact ih
  | case1 | case2 | case3 | case5 => exact ⟨rfl, rfl⟩

lemma pipereadLoop_open (u : PipeUser) (c : PipeCall) (i : Int) (l : PipeLine) :
    (pipereadLoop u c i l).2.pipe.readopen = l.pipe.readopen ∧
    (pipereadLoop u c i l).2.pipe.writeopen = l.pipe.writeopen := by
  fun_induction pipereadLoop u c i l with
  | case2 _ _ _ _ _ ih => exact ih
  | case1 | case3 | case4 => exact ⟨rfl, rfl⟩

lemma serve_open (l : PipeLine) (c : PipeCall) (u : PipeUser) :
    (l.serve c u).2.pipe.readopen = l.pipe.readopen ∧ (l.serve c u).2.pipe.writeopen = l.pipe.writeopen := by
  rw [PipeLine.serve]
  split
  · exact pipewriteLoop_open u c c.i l
  · rw [piperead]
    split
    · split <;> exact ⟨rfl, rfl⟩
    · exact pipereadLoop_open u c 0 l

lemma serve_sound {f : Fp} {c : PipeCall} {u : PipeUser} (h : Sound s) (hNext : s.next (.serve pid f c u) = some t) :
    Sound t := by
  obtain ⟨-, ⟨⟩⟩ := ite_none_right_eq_some.mp hNext
  refine h.setPages rfl (fun _ => rfl) (fun _ => le_rfl) ?_
  intro q
  refine (h.page q).pass rfl ?_ (fun _ => rfl) ⟨rfl, rfl, rfl⟩
  simp only [Table.page, Files.setPipe]
  split
  · rename_i hq
    rw [hq]
    exact serve_open _ c u
  · exact ⟨rfl, rfl⟩

lemma next_sound {e : Event} (h : Sound s) (hNext : s.next e = some t) : Sound t := by
  cases e with
  | «open» pid => exact open_sound h hNext
  | opened pid f device => exact opened_sound h hNext
  | openFails pid f => exact openFails_sound h hNext
  | dup pid f child => exact dup_sound h hNext
  | close pid f => exact close_sound h hNext
  | pipeclose pid pi w => exact pipeclose_sound h hNext
  | kfree pid pi => exact kfree_sound h hNext
  | pipe1 pid => exact pipe1_sound h hNext
  | pipe2 pid f0 => exact pipe2_sound h hNext
  | pipe3 pid f0 f1 => exact pipe3_sound h hNext
  | pipe4 pid f0 f1 pi => exact pipe4_sound h hNext
  | serve pid f c u => exact serve_sound h hNext
  | kallocOther => exact kallocOther_sound h hNext
  | kfreeOther pa => exact kfreeOther_sound h hNext

end

lemma Table.Reaches.sound {s : Table} (h : s.Reaches) : Sound s :=
  h.invariant (fun _ hFresh => hFresh.sound) fun _ _ _ hs _ hNext => next_sound hs hNext

/-! ## Ends of a pipe -/

def Table.EndFile (s : Table) (pi : Nat) (w : Bool) (f : Fp) : Prop :=
  0 < (s.files.ftable f).ref ∧ (s.files.ftable f).type = .pipe ∧ (s.files.ftable f).pipe = pi ∧
    (s.files.ftable f).writable = w

def Table.HasEnd (s : Table) (pi : Nat) (w : Bool) : Prop :=
  (∃ f, s.EndFile pi w f) ∨ ∃ pid, .closing pid pi w ∈ s.tasks

def Table.Freeing (s : Table) (pi : Nat) : Prop := ∃ pid, .freeing pid pi ∈ s.tasks

section

variable {s : Table} {pi : Nat} {w : Bool}

lemma Sound.endFile_iff (h : Sound s) {f : Fp} : s.EndFile pi w f ↔ 0 < fileEnd pi w (s.files.ftable f) := by
  rw [fileEnd]
  constructor
  · rintro ⟨-, hEnd⟩
    rw [if_pos hEnd]
    exact Nat.one_pos
  · intro hPos
    split at hPos
    · rename_i hEnd
      refine ⟨?_, hEnd⟩
      have hRefs := h.refs f
      have hClosed : (s.files.ftable f).ref ≠ 0 := by
        intro hZero
        have hNone := h.closed f hZero
        rw [hEnd.1] at hNone
        cases hNone
      omega
    · cases hPos

lemma Sound.hasEnd_iff (h : Sound s) : s.HasEnd pi w ↔ 0 < (s.page pi).ends w := by
  have hClosing : (∃ pid, .closing pid pi w ∈ s.tasks) ↔ 0 < weight (Task.isEnd pi w) s.tasks := by
    rw [weight_pos]
    constructor
    · rintro ⟨pid, ht⟩
      exact ⟨_, ht, by simp [Task.isEnd]⟩
    · rintro ⟨t, ht, hPos⟩
      cases t with
      | closing pid q v =>
        simp only [Task.isEnd] at hPos
        split at hPos
        · rename_i hEq
          obtain ⟨rfl, rfl⟩ := hEq
          exact ⟨pid, ht⟩
        · cases hPos
      | _ => cases hPos
  have hFile : (∃ f, s.EndFile pi w f) ↔ 0 < total (fileEnd pi w) s.files.ftable := by
    rw [total_pos]
    exact exists_congr fun f => h.endFile_iff
  rw [Table.HasEnd, hClosing, hFile]
  simp only [Table.page]
  omega

lemma toNat_pos {b : Bool} : 0 < b.toNat ↔ b = true := by
  cases b <;> decide

lemma freeing_iff : s.Freeing pi ↔ 0 < (s.page pi).freeing := by
  refine Iff.trans ?_ weight_pos.symm
  constructor
  · rintro ⟨pid, ht⟩
    exact ⟨_, ht, by simp [Task.freesPage]⟩
  · rintro ⟨t, ht, hPos⟩
    cases t with
    | freeing pid q =>
      simp only [Task.freesPage] at hPos
      split at hPos
      · rename_i hEq
        subst hEq
        exact ⟨pid, ht⟩
      · cases hPos
    | _ => cases hPos

end

/-- A page that `pipealloc` has made a pipe is freed once, by the `pipeclose` that finds no
end left; until then its flags tell which ends it has, and an open entry is an end of a
pipe that has not been freed. -/
theorem pipe_lifetime {s : Table} (h : s.Reaches) (pi : Nat) :
    (s.allocs pi = s.frees pi ∨ s.allocs pi = s.frees pi + 1) ∧
    (s.allocs pi = s.frees pi + 1 ↔ s.HasEnd pi false ∨ s.HasEnd pi true ∨ s.Freeing pi) ∧
    (s.allocs pi = s.frees pi + 1 → pi ∉ s.files.free ∧
      ((s.files.pipes pi).readopen = true ↔ s.HasEnd pi false) ∧
      ((s.files.pipes pi).writeopen = true ↔ s.HasEnd pi true)) ∧
    (s.Freeing pi → ¬ s.HasEnd pi false ∧ ¬ s.HasEnd pi true) ∧
    ∀ w f, s.EndFile pi w f → s.allocs pi = s.frees pi + 1 ∧ ∀ g, s.EndFile pi w g → g = f := by
  have hs := h.sound
  have hOnce := (hs.page pi).once
  have hFlags := (hs.page pi).flags
  have hCounters : s.allocs pi = s.frees pi + (s.page pi).live + (s.page pi).freeing := (hs.page pi).counters
  simp only [PageState.live] at hOnce hFlags hCounters
  rw [hs.hasEnd_iff, hs.hasEnd_iff, freeing_iff]
  refine ⟨by omega, by omega, ?_, by omega, ?_⟩
  · intro hPipe
    obtain ⟨hRead, hWrite⟩ := hFlags (by omega)
    refine ⟨?_, ?_, ?_⟩
    · rw [← List.count_eq_zero]
      have hFree : (s.page pi).free = s.files.free.count pi := rfl
      omega
    · rw [← hRead, toNat_pos]
      rfl
    · rw [← hWrite, toNat_pos]
      rfl
  · intro w f hf
    have hEnd := hs.hasEnd_iff.mp (.inl ⟨f, hf⟩)
    constructor
    · cases w <;> omega
    · intro g hg
      have hTotal : total (fileEnd pi w) s.files.ftable ≤ 1 := by
        have hLe : total (fileEnd pi w) s.files.ftable ≤ (s.page pi).ends w := Nat.le_add_right _ _
        cases w <;> omega
      exact unique_of_total hTotal (hs.endFile_iff.mp hg) (hs.endFile_iff.mp hf)

namespace Sample

def fresh : Table where
  files := {
    ftable := fun _ => ⟨.none, 0, false, false, 0, Fs.ip0, 0, 0⟩
    pipes := fun _ => ⟨0, 0, false, false, Bytes.fill 0⟩
    free := [4096] }
  tasks := []
  taken := []
  allocs := fun _ => 0
  frees := fun _ => 0

lemma fresh_fresh : fresh.Fresh :=
  ⟨fun _ => ⟨rfl, rfl⟩, by decide, rfl, rfl, fun _ => ⟨rfl, rfl⟩⟩

def f0 : Fp := ⟨0, nfile_pos⟩

def f1 : Fp := ⟨1, by decide⟩

/-- A process makes a pipe and closes its ends; between the last `fileclose` and its
`pipeclose` another one gets the entry. -/
def makeAndClose : List Event :=
  [.pipe1 1, .pipe2 1 f0, .pipe3 1 f0 f1, .pipe4 1 f0 f1 4096, .close 1 f1, .pipeclose 1 4096 true, .close 1 f0,
    .open 2, .pipeclose 1 4096 false, .kfree 1 4096]

end Sample

theorem pipe_lifetime_closed : ∃ s : Table, s.Reaches ∧ s.allocs 4096 = 1 ∧ s.frees 4096 = 1 ∧ ¬ s.HasEnd 4096 false := by
  have hRun : ((Transition.run Table.next Sample.makeAndClose Sample.fresh).any fun s =>
      decide (s.allocs 4096 = 1) && decide (s.frees 4096 = 1)) = true := by decide +kernel
  cases hs : Transition.run Table.next Sample.makeAndClose Sample.fresh with
  | none =>
    rw [hs] at hRun
    cases hRun
  | some s =>
    rw [hs, Option.any_some, Bool.and_eq_true] at hRun
    obtain ⟨hAllocs, hFrees⟩ := hRun
    replace hAllocs := of_decide_eq_true hAllocs
    replace hFrees := of_decide_eq_true hFrees
    have hReaches : s.Reaches :=
      .of_run (fun _ _ _ hNext => hNext) _ (fun _ _ _ => trivial) (.start Sample.fresh_fresh) hs
    refine ⟨s, hReaches, hAllocs, hFrees, ?_⟩
    intro hEnd
    have hLive := (pipe_lifetime hReaches 4096).2.1.mpr (.inl hEnd)
    omega

end Xv6K230.Pipes
