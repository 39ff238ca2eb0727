import Xv6K230.Process.Cpus

/-! # A process runs on at most one CPU

What a CPU executes tells which `p->lock` it holds, which process it runs and which one it is handing over.
-/

namespace Xv6K230.Smp

variable {n : Nat}

namespace Exec

def held : Exec → Option Pid
  | .sched (.scan _) | .sched (.wakeup _ _) | .thread _ _ .run => none
  | .sched (.locked p) | .sched (.chosen p) | .sched (.saving p _) | .sched (.loading p _) | .sched (.back p)
  | .sched (.cleared p) | .sched (.holding _ _ p) | .thread _ _ (.holding p) => some p
  | .thread p _ (.locked _) | .thread p _ (.saving _) | .thread p _ (.loading _) | .thread p _ .resumed => some p

def runs : Exec → Option Pid
  | .sched _ => none
  | .thread p _ _ => some p

/-- The process on its kernel stack, before it has changed its state on the way out. -/
def active : Exec → Option Pid
  | .thread p _ .run | .thread p _ (.holding _) | .thread p _ (.locked _) | .thread p _ .resumed => some p
  | _ => none

/-- The process on its kernel stack that has changed its state and is in `swtch`. -/
def leaving : Exec → Option Pid
  | .thread p _ (.saving _) | .thread p _ (.loading _) => some p
  | _ => none

/-- The process that the scheduler has set to RUNNING and is switching to. -/
def given : Exec → Option Pid
  | .sched (.chosen p) | .sched (.saving p _) | .sched (.loading p _) => some p
  | _ => none

/-- The process that has switched back to the scheduler, which still holds its lock. -/
def taken : Exec → Option Pid
  | .sched (.back p) | .sched (.cleared p) => some p
  | _ => none

/-- The value of `c->proc`. -/
def shown : Exec → Option Pid
  | .sched (.saving p _) | .sched (.loading p _) | .sched (.back p) => some p
  | .sched _ => none
  | .thread p _ _ => some p

lemma held_of_leaving {x : Exec} {p : Pid} (h : x.leaving = some p) : x.held = some p := by
  revert h
  fun_cases leaving x <;> simp [held]

lemma held_of_given {x : Exec} {p : Pid} (h : x.given = some p) : x.held = some p := by
  revert h
  fun_cases given x <;> simp [held]

lemma held_of_taken {x : Exec} {p : Pid} (h : x.taken = some p) : x.held = some p := by
  revert h
  fun_cases taken x <;> simp [held]

lemma runs_iff {x : Exec} {p : Pid} : x.runs = some p ↔ x.active = some p ∨ x.leaving = some p := by
  cases x with
  | sched l => simp [runs, active, leaving]
  | thread q i ph => cases ph <;> simp [runs, active, leaving]

end Exec

/-- The child that a `kfork` is about to finish. -/
def Pc.child : Pc → Option Pid
  | .forked np | .adopted np => some np
  | .wakeup _ _ ret => ret.child
  | _ => none

attribute [local grind] Exec.runs Exec.given Exec.taken Exec.held Exec.active Exec.leaving Exec.shown Pc.child

structure Inv (s : Sys n) : Prop where
  lock : ∀ c q, (s.proc q).lock = some c ↔ (s.cpu c).exec.held = some q
  shown : ∀ c, (s.cpu c).proc = (s.cpu c).exec.shown
  loop : ∀ c p i ph, (s.cpu c).exec = .thread p i ph → i = p
  unique : ∀ c d p, (s.cpu c).exec.runs = some p → (s.cpu d).exec.runs = some p → c = d
  active : ∀ c p, (s.cpu c).exec.active = some p → (s.proc p).state = .running
  leaving : ∀ c p, (s.cpu c).exec.leaving = some p →
    (s.proc p).state = .runnable ∨ (s.proc p).state = .sleeping ∨ (s.proc p).state = .zombie
  given : ∀ c p, (s.cpu c).exec.given = some p → (s.proc p).state = .running ∧ ∀ d, (s.cpu d).exec.runs ≠ some p
  taken : ∀ c p, (s.cpu c).exec.taken = some p → (s.proc p).state ≠ .running ∧ ∀ d, (s.cpu d).exec.runs ≠ some p
  running : ∀ p, (s.proc p).state = .running → ∃ c, (s.cpu c).exec.runs = some p ∨ (s.cpu c).exec.given = some p
  saved : ∀ p, (s.proc p).state ≠ .unused → (s.proc p).state ≠ .zombie → (∀ c, (s.cpu c).exec.runs ≠ some p) →
    (s.proc p).saved = nregs
  saving : ∀ c p i k, (s.cpu c).exec = .thread p i (.saving k) → (s.proc p).saved = k ∧ k ≤ nregs
  loading : ∀ c p i k, (s.cpu c).exec = .thread p i (.loading k) → (s.proc p).saved = nregs
  child : ∀ p q, (s.proc p).pc.child = some q → (s.proc q).state = .used
  only : ∀ p p' q, (s.proc p).pc.child = some q → (s.proc p').pc.child = some q → p = p'
  target : ∀ c p i q np, (s.cpu c).exec = .thread p i (.holding q) → (s.proc p).pc = .adopted np → q = np

lemma Sys.Fresh.inv {s : Sys n} (h : s.Fresh) : Inv s := by
  have hExec : ∀ c, (s.cpu c).exec = .sched (.scan 0) := fun c => (h.cpus c).2
  have hPc : ∀ p, (s.proc p).pc.child = none := fun p => by rw [(h.procs p).2]; rfl
  have hState : ∀ p, (s.proc p).state = .runnable ∧ (s.proc p).saved = nregs ∨ (s.proc p).state = .unused := by
    intro p
    rcases eq_or_ne p s.initproc with rfl | hp
    · exact .inl h.init
    · exact .inr (h.unused p hp)
  constructor
  case lock => simp [hExec, (h.procs _).1, Exec.held]
  case shown => simp [hExec, (h.cpus _).1, Exec.shown]
  all_goals grind

structure Respects (s t : Sys n) (c : Fin n) (x y : Exec) : Prop where
  before : (s.cpu c).exec = x
  after : (t.cpu c).exec = y
  others : ∀ d, d ≠ c → t.cpu d = s.cpu d
  shown : (t.cpu c).proc = y.shown
  loop : ∀ p i ph, y = .thread p i ph → i = p
  lock : ∀ q, (t.proc q).lock = if y.held = some q then some c else if x.held = some q then none else (s.proc q).lock
  free : ∀ q, y.held = some q → x.held = some q ∨ (s.proc q).lock = none
  state : ∀ q, (t.proc q).state ≠ (s.proc q).state →
    x.held = some q ∧ ((s.proc q).state ≠ .running ∨ x.runs = some q)
  runs : ∀ p, y.runs = some p → x.runs = some p ∨ x.given = some p
  active : ∀ p, y.active = some p → (t.proc p).state = .running
  leaving : ∀ p, y.leaving = some p →
    (t.proc p).state = .runnable ∨ (t.proc p).state = .sleeping ∨ (t.proc p).state = .zombie
  given : ∀ p, y.given = some p → (t.proc p).state = .running ∧ y.runs = none ∧
    (x.given = some p ∨ (x.held = some p ∧ x.runs = none ∧ (s.proc p).state = .runnable))
  taken : ∀ p, y.taken = some p → (t.proc p).state ≠ .running ∧ y.runs = none ∧ (x.taken = some p ∨ x.leaving = some p)
  running : ∀ p, (t.proc p).state = .running → y.runs = some p ∨ y.given = some p ∨
    ((s.proc p).state = .running ∧ x.runs ≠ some p ∧ x.given ≠ some p)
  saved : ∀ p, y.runs ≠ some p → (t.proc p).saved = nregs ∨ (t.proc p).state = .unused ∨ (t.proc p).state = .zombie ∨
    ((t.proc p).saved = (s.proc p).saved ∧ (s.proc p).state ≠ .unused ∧ (s.proc p).state ≠ .zombie ∧ x.runs ≠ some p)
  stored : ∀ p, (t.proc p).saved ≠ (s.proc p).saved → x.held = some p
  saving : ∀ p i k, y = .thread p i (.saving k) → (t.proc p).saved = k ∧ k ≤ nregs
  loading : ∀ p i k, y = .thread p i (.loading k) → (t.proc p).saved = nregs
  pc : ∀ p, (t.proc p).pc ≠ (s.proc p).pc → x.runs = some p ∨ (s.proc p).state = .unused
  child : ∀ p q, (t.proc p).pc.child = some q → (s.proc p).pc.child = some q ∨
    (x.runs = some p ∧ (s.proc q).state = .unused ∧ (t.proc q).state = .used)
  used : ∀ q, (s.proc q).state = .used → (t.proc q).state = .used ∨
    ∃ p, (s.proc p).pc.child = some q ∧ (t.proc p).pc.child ≠ some q
  target : ∀ p i q np, y = .thread p i (.holding q) → (t.proc p).pc = .adopted np → q = np

namespace Inv

variable {s t : Sys n} {c d : Fin n} {x y : Exec} {p q : Pid}

lemma holder (h : Inv s) (hc : (s.cpu c).exec.held = some q) (hd : (s.cpu d).exec.held = some q) : c = d := by
  rw [← h.lock] at hc hd
  exact Option.some.inj (hc.symm.trans hd)

/-- A process under the lock of a CPU that does not run it has no CPU unless it is RUNNING. -/
lemma not_runs (h : Inv s) (hc : (s.cpu c).exec.held = some q) (hNot : (s.cpu c).exec.runs ≠ some q)
    (hState : (s.proc q).state ≠ .running) (d : Fin n) : (s.cpu d).exec.runs ≠ some q := by
  intro hd
  rcases Exec.runs_iff.mp hd with hActive | hLeaving
  · exact hState (h.active d q hActive)
  · have hEq := h.holder hc (Exec.held_of_leaving hLeaving)
    subst hEq
    exact hNot hd

lemma respects (h : Inv s) (r : Respects s t c x y) : Inv t := by
  have hx : (s.cpu c).exec = x := r.before
  have hSame : ∀ d, d ≠ c → (t.cpu d).exec = (s.cpu d).exec := fun d hd => by rw [r.others d hd]
  -- a process that another CPU has under its lock is not touched
  have hState : ∀ d q, d ≠ c → (s.cpu d).exec.held = some q → (t.proc q).state = (s.proc q).state := by
    intro d q hd hHeld
    by_contra hne
    exact hd (h.holder hHeld (hx ▸ (r.state q hne).1))
  have hSaved : ∀ d q, d ≠ c → (s.cpu d).exec.held = some q → (t.proc q).saved = (s.proc q).saved := by
    intro d q hd hHeld
    by_contra hne
    exact hd (h.holder hHeld (hx ▸ r.stored q hne))
  -- nobody else runs what this CPU starts to run
  have hRuns : ∀ d p, d ≠ c → (s.cpu d).exec.runs = some p → y.runs ≠ some p := by
    intro d p hd hp hy
    rcases r.runs p hy with hr | hg
    · rw [← hx] at hr
      exact hd (h.unique d c p hp hr)
    · rw [← hx] at hg
      exact (h.given c p hg).2 d hp
  -- what another CPU has under its lock and does not run, nobody runs afterwards
  have hIdle : ∀ d q, d ≠ c → (s.cpu d).exec.held = some q → (∀ e, (s.cpu e).exec.runs ≠ some q) →
      ∀ e, (t.cpu e).exec.runs ≠ some q := by
    intro d q hd hHeld hNone e
    rcases eq_or_ne e c with rfl | he
    · rw [r.after]
      intro hy
      rcases r.runs q hy with hr | hg
      · rw [← hx] at hr
        exact hNone e hr
      · rw [← hx] at hg
        exact hd (h.holder hHeld (Exec.held_of_given hg))
    · rw [hSame e he]
      exact hNone e
  have hHere := fun q => h.lock c q
  have hAfter := r.after
  constructor
  case lock => grind [r.lock, r.free, h.lock]
  case shown => grind [r.shown, r.others, h.shown]
  case loop => grind [r.loop, h.loop]
  case unique => grind [h.unique]
  case active => grind [r.active, r.state, h.active, h.unique, Exec.runs_iff]
  case leaving => grind [r.leaving, h.leaving, Exec.held_of_leaving]
  case given =>
    intro d p hp
    rcases eq_or_ne d c with rfl | hd
    · rw [hAfter] at hp
      obtain ⟨hRun, hy, hOld⟩ := r.given p hp
      have hNone : ∀ e, (s.cpu e).exec.runs ≠ some p := by
        rcases hOld with hg | ⟨hHeld, hNot, hReady⟩
        · exact (h.given d p (hx ▸ hg)).2
        · rw [← hx] at hHeld hNot
          exact h.not_runs hHeld (by rw [hNot]; exact nofun) (by rw [hReady]; decide)
      exact ⟨hRun, fun e => by grind⟩
    · grind [h.given, Exec.held_of_given]
  case taken =>
    intro d p hp
    rcases eq_or_ne d c with rfl | hd
    · rw [hAfter] at hp
      obtain ⟨hRun, hy, hOld⟩ := r.taken p hp
      have hNone : ∀ e, e ≠ d → (s.cpu e).exec.runs ≠ some p := by
        intro e he hp'
        rcases hOld with hk | hl
        · exact (h.taken d p (hx ▸ hk)).2 e hp'
        · exact he (h.unique e d p hp' (Exec.runs_iff.mpr (.inr (hx ▸ hl))))
      exact ⟨hRun, fun e => by grind⟩
    · grind [h.taken, Exec.held_of_taken]
  case running => grind [r.running, h.running]
  case saved => grind [r.saved, h.saved]
  case saving =>
    intro d p i k hp
    rcases eq_or_ne d c with rfl | hd
    · exact r.saving p i k (hAfter ▸ hp)
    · rw [hSame d hd] at hp
      rw [hSaved d p hd (by rw [hp]; rfl)]
      exact h.saving d p i k hp
  case loading =>
    intro d p i k hp
    rcases eq_or_ne d c with rfl | hd
    · exact r.loading p i k (hAfter ▸ hp)
    · rw [hSame d hd] at hp
      rw [hSaved d p hd (by rw [hp]; rfl)]
      exact h.loading d p i k hp
  case child =>
    intro p q hp
    rcases r.child p q hp with hOld | ⟨-, -, hNew⟩
    · rcases r.used q (h.child p q hOld) with hUsed | ⟨p', hp', hGone⟩
      · exact hUsed
      · exact absurd (h.only p p' q hOld hp' ▸ hp) hGone
    · exact hNew
  case only =>
    intro p p' q hp hp'
    -- a child that is new was UNUSED, and one that is not new was USED
    rcases r.child p q hp with hOld | ⟨hRun, hFree, -⟩ <;> rcases r.child p' q hp' with hOld' | ⟨hRun', hFree', -⟩
    · exact h.only p p' q hOld hOld'
    · grind [h.child p q hOld]
    · grind [h.child p' q hOld']
    · exact Option.some.inj (hRun.symm.trans hRun')
  case target =>
    intro d p i q np hp hPc
    rcases eq_or_ne d c with rfl | hd
    · exact r.target p i q np (hAfter ▸ hp) hPc
    · rw [hSame d hd] at hp
      have hRun : (s.proc p).state = .running := h.active d p (by rw [hp]; rfl)
      have hKeep : (t.proc p).pc = (s.proc p).pc := by
        by_contra hne
        rcases r.pc p hne with hr | hu
        · exact hd (h.unique d c p (by rw [hp]; rfl) (hx ▸ hr))
        · exact absurd (hRun.symm.trans hu) nofun
      exact h.target d p i q np hp (hKeep ▸ hPc)

end Inv

end Xv6K230.Smp
