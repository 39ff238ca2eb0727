import Xv6K230.Process.Protocol

/-! # The steps of fork, exit and wait

What the next step of a call can be, with the tests that it has passed; who holds `wait_lock`, which slots are being
forked, and that the parent of a process is alive.
-/

namespace Xv6K230.Wait

open Option (ite_none_right_eq_some)

namespace Sys

variable (s : Sys) (p q : Pid)

@[grind =] lemma proc_setState (x : ProcState) :
    (s.setState p x).proc q = { s.proc q with state := if q = p then x else (s.proc q).state } := rfl

@[grind =] lemma proc_setParent (x : Option Pid) :
    (s.setParent p x).proc q = { s.proc q with parent := if q = p then x else (s.proc q).parent } := rfl

@[grind =] lemma proc_setChan (x : Option Chan) :
    (s.setChan p x).proc q = { s.proc q with chan := if q = p then x else (s.proc q).chan } := rfl

@[grind =] lemma proc_setXstate (x : Int) :
    (s.setXstate p x).proc q = { s.proc q with xstate := if q = p then x else (s.proc q).xstate } := rfl

@[grind =] lemma proc_setKilled (x : Bool) :
    (s.setKilled p x).proc q = { s.proc q with killed := if q = p then x else (s.proc q).killed } := rfl

@[grind =] lemma proc_goto (k : Pc) :
    (s.goto p k).proc q = { s.proc q with pc := if q = p then k else (s.proc q).pc } := rfl

@[grind =] lemma proc_setWaitLock (x : Option Pid) : (s.setWaitLock x).proc q = s.proc q := rfl

@[grind =] lemma proc_freeproc : (s.freeproc p).proc q =
    if q = p then { s.proc q with pid := 0, parent := none, chan := none, killed := false, xstate := 0, state := .unused }
    else s.proc q := by
  simp only [freeproc, setPid, setParent, setChan, setKilled, setXstate, setState]
  split <;> rfl

@[grind =] lemma proc_wakeOne (me j : Pid) (chan : Option Chan) : (s.wakeOne me chan j).proc q =
    { s.proc q with state := if q = j ∧ j ≠ me ∧ (s.proc j).state = .sleeping ∧ (s.proc j).chan = chan then .runnable else (s.proc q).state } := by
  rw [wakeOne]
  split
  · rename_i h
    simp [setState, h]
  · rename_i h
    simp [h]

end Sys

attribute [grind =] Sys.setState Sys.setParent Sys.setChan Sys.setXstate Sys.setKilled Sys.goto Sys.setWaitLock Sys.freeproc Sys.setPid Sys.number Sys.allocpid

variable {s t : Sys} {p : Pid}

inductive Move (s : Sys) (p : Pid) : Sys → Prop
  | adopt (np : Pid) (hPc : (s.proc p).pc = .forked np) (hLock : s.waitLock = none) :
    Move s p ((s.setParent np (some p)).goto p (.adopted np))
  | ready (np : Pid) (hPc : (s.proc p).pc = .adopted np) : Move s p ((s.setState np .runnable).goto p .user)
  | exit (st : Int) (hPc : (s.proc p).pc = .exit st) (hLock : s.waitLock = none) :
    Move s p ((s.setWaitLock (some p)).goto p (.reparent st 0))
  | wait (addr : Nat) (hPc : (s.proc p).pc = .wait addr) (hLock : s.waitLock = none) :
    Move s p ((s.setWaitLock (some p)).goto p (.scan addr 0 false))
  | reparent (st : Int) (c : Pid) (hPc : (s.proc p).pc = .reparent st c.val) (hChild : (s.proc c).parent = some p) :
    Move s p ((s.setParent c (some s.initproc)).goto p (.wakeInit st c.val 0))
  | skip (st : Int) (c : Pid) (hPc : (s.proc p).pc = .reparent st c.val) (hChild : (s.proc c).parent ≠ some p) :
    Move s p (s.goto p (.reparent st (c.val + 1)))
  | wakeParents (st : Int) (i : Nat) (hPc : (s.proc p).pc = .reparent st i) (hEnd : nproc ≤ i) :
    Move s p (s.goto p (.wakeParent st (s.proc p).parent 0))
  | wakeInit (st : Int) (i : Nat) (j : Pid) (hPc : (s.proc p).pc = .wakeInit st i j.val) :
    Move s p ((s.wakeOne p (some (.proc s.initproc)) j).goto p (.wakeInit st i (j.val + 1)))
  | initAwake (st : Int) (i j : Nat) (hPc : (s.proc p).pc = .wakeInit st i j) (hEnd : nproc ≤ j) :
    Move s p (s.goto p (.reparent st (i + 1)))
  | wakeParent (st : Int) (parent : Option Pid) (j : Pid) (hPc : (s.proc p).pc = .wakeParent st parent j.val) :
    Move s p ((s.wakeOne p (parent.map .proc) j).goto p (.wakeParent st parent (j.val + 1)))
  | parentAwake (st : Int) (parent : Option Pid) (j : Nat) (hPc : (s.proc p).pc = .wakeParent st parent j) (hEnd : nproc ≤ j) :
    Move s p (s.goto p (.exiting st))
  | zombie (st : Int) (hPc : (s.proc p).pc = .exiting st) :
    Move s p ((((s.setXstate p st).setState p .zombie).setWaitLock none).goto p .user)
  | giveUp (addr i : Nat) (havekids : Bool) (hPc : (s.proc p).pc = .scan addr i havekids) :
    Move s p ((s.setWaitLock none).goto p .user)
  | reap (addr : Nat) (c : Pid) (havekids : Bool) (hPc : (s.proc p).pc = .scan addr c.val havekids)
      (hChild : (s.proc c).parent = some p) (hZombie : (s.proc c).state = .zombie) :
    Move s p { ((s.freeproc c).setWaitLock none).goto p .user with
      returns := ⟨(s.proc c).serial, (s.proc p).serial, (s.proc c).forker, (s.proc c).xstate⟩ :: s.returns }
  | scan (addr : Nat) (c : Pid) (havekids havekids' : Bool) (hPc : (s.proc p).pc = .scan addr c.val havekids)
      (hNot : (s.proc c).parent = some p → (s.proc c).state ≠ .zombie) :
    Move s p (s.goto p (.scan addr (c.val + 1) havekids'))
  | sleep (addr i : Nat) (havekids : Bool) (hPc : (s.proc p).pc = .scan addr i havekids) (hEnd : nproc ≤ i) :
    Move s p (s.goto p (.sleep addr))
  | doze (addr : Nat) (hPc : (s.proc p).pc = .sleep addr) :
    Move s p ((((s.setWaitLock none).setChan p (some (.proc p))).setState p .sleeping).goto p (.asleep addr))

lemma advance_move {copyout : Bool} (hNext : s.advance p copyout = some t) : Move s p t := by
  revert hNext
  fun_cases Sys.advance s p copyout <;> intro hNext <;> cases hNext
  · exact .adopt _ ‹_› ‹_›
  · exact .ready _ ‹_›
  · exact .exit _ ‹_› ‹_›
  · exact .reparent _ ⟨_, ‹_›⟩ ‹_› ‹_›
  · exact .skip _ ⟨_, ‹_›⟩ ‹_› ‹_›
  · exact .wakeParents _ _ ‹_› (Nat.le_of_not_lt ‹_›)
  · exact .wakeInit _ _ ⟨_, ‹_›⟩ ‹_›
  · exact .initAwake _ _ _ ‹_› (Nat.le_of_not_lt ‹_›)
  · exact .wakeParent _ _ ⟨_, ‹_›⟩ ‹_›
  · exact .parentAwake _ _ _ ‹_› (Nat.le_of_not_lt ‹_›)
  · exact .zombie _ ‹_›
  · exact .wait _ ‹_› ‹_›
  · exact .giveUp _ _ _ ‹_›
  · exact .reap _ ⟨_, ‹_›⟩ _ ‹_› ‹_› ‹_›
  · exact .scan _ ⟨_, ‹_›⟩ _ _ ‹_› fun _ => ‹_›
  · exact .scan _ ⟨_, ‹_›⟩ _ _ ‹_› fun hp => absurd hp ‹_›
  · exact .giveUp _ _ _ ‹_›
  · exact .sleep _ _ _ ‹_› (Nat.le_of_not_lt ‹_›)
  · exact .doze _ ‹_›

/-! ## The tree of processes -/

def Live (x : ProcState) : Prop := x = .sleeping ∨ x = .runnable ∨ x = .running

lemma not_live_unused : ¬ Live .unused := by rintro (h | h | h) <;> cases h

lemma not_live_zombie : ¬ Live .zombie := by rintro (h | h | h) <;> cases h

/-- In `kexit`. -/
def Pc.exits : Pc → Bool
  | .exit _ | .reparent _ _ | .wakeInit _ _ _ | .wakeParent _ _ _ | .exiting _ => true
  | _ => false

/-- The number of slots that `reparent` has passed. -/
def Pc.cleared : Pc → Nat
  | .reparent _ i => i
  | .wakeInit _ i _ => i + 1
  | .wakeParent _ _ _ | .exiting _ => nproc
  | _ => 0

attribute [local grind] Live Pc.holdsLock Pc.resume Pc.exits Pc.cleared

structure Tree (s : Sys) : Prop where
  holder : ∀ p, (s.proc p).pc.holdsLock = true → s.waitLock = some p ∧ (s.proc p).state = .running
  busy : ∀ p, (s.proc p).pc ≠ .user → Live (s.proc p).state
  init : Live (s.proc s.initproc).state ∧ (s.proc s.initproc).parent = none
  stays : ∀ p, (s.proc p).pc.exits = true → p ≠ s.initproc
  forked : ∀ p np, (s.proc p).pc = .forked np → (s.proc np).state = .used ∧ (s.proc np).parent = none
  adopted : ∀ p np, (s.proc p).pc = .adopted np → (s.proc np).state = .used ∧ (s.proc np).parent = some p
  sole : ∀ p q np, (s.proc p).pc = .forked np → (s.proc q).pc = .forked np → p = q
  unused : ∀ c, (s.proc c).state = .unused → (s.proc c).parent = none
  parent : ∀ c q, (s.proc c).parent = some q → Live (s.proc q).state
  orphan : ∀ c, c ≠ s.initproc → (s.proc c).state ≠ .unused → (s.proc c).parent = none →
    ∃ p, (s.proc p).pc = .forked c
  cleared : ∀ q c, c.val < (s.proc q).pc.cleared → (s.proc c).parent ≠ some q

section

variable {s : Sys} {p : Pid}

lemma Sys.Fresh.tree (h : s.Fresh) : Tree s := by
  have hUser : ∀ q, (s.proc q).pc = .user := by
    intro q
    by_cases hq : q = s.initproc
    · rw [hq]
      exact h.init.2.1
    · exact (h.unused q hq).2
  have hInit := h.init
  constructor <;> grind [h.parent, h.unused]

lemma Tree.goto (h : Tree s) {k : Pc} (hHolds : k.holdsLock = true → s.waitLock = some p ∧ (s.proc p).state = .running)
    (hBusy : k ≠ .user → Live (s.proc p).state) (hStays : k.exits = true → p ≠ s.initproc)
    (hFrom : ∀ np, (s.proc p).pc ≠ .forked np) (hTo : ∀ np, k ≠ .forked np ∧ k ≠ .adopted np)
    (hCleared : ∀ c : Pid, c.val < k.cleared → (s.proc c).parent ≠ some p) : Tree (s.goto p k) := by
  constructor <;> simp only [Sys.goto]
  · grind [h.holder]
  · grind [h.busy]
  · exact h.init
  · grind [h.stays]
  · grind [h.forked]
  · grind [h.adopted]
  · grind [h.sole]
  · exact h.unused
  · exact h.parent
  · grind [h.orphan]
  · grind [h.cleared]

lemma Tree.setWaitLock (h : Tree s) {x : Option Pid} (hFree : ∀ q, (s.proc q).pc.holdsLock = true → x = some q) :
    Tree (s.setWaitLock x) :=
  { h with holder := fun q hq => ⟨hFree q hq, (h.holder q hq).2⟩ }

lemma Tree.setState (h : Tree s) {x : ProcState} (hp : Live (s.proc p).state) (hx : Live x)
    (hHolds : (s.proc p).pc.holdsLock = true → x = .running) : Tree (s.setState p x) := by
  have hUsed : (s.proc p).state ≠ .used ∧ (s.proc p).state ≠ .unused := by
    rcases hp with hp | hp | hp <;> rw [hp] <;> exact ⟨nofun, nofun⟩
  have hUnused : x ≠ .unused := by
    rcases hx with rfl | rfl | rfl <;> nofun
  constructor <;> simp only [Sys.setState]
  · grind [h.holder]
  · grind [h.busy]
  · grind [h.init]
  · exact h.stays
  · grind [h.forked]
  · grind [h.adopted]
  · exact h.sole
  · grind [h.unused]
  · grind [h.parent]
  · grind [h.orphan]
  · exact h.cleared

lemma Tree.congr (h : Tree s) {t : Sys} (hInit : t.initproc = s.initproc) (hLock : t.waitLock = s.waitLock)
    (hProc : ∀ q, (t.proc q).state = (s.proc q).state ∧ (t.proc q).parent = (s.proc q).parent ∧
      (t.proc q).pc = (s.proc q).pc) : Tree t := by
  constructor <;> simp only [hInit, hLock, hProc]
  · exact h.holder
  · exact h.busy
  · exact h.init
  · exact h.stays
  · exact h.forked
  · exact h.adopted
  · exact h.sole
  · exact h.unused
  · exact h.parent
  · exact h.orphan
  · exact h.cleared

lemma Tree.inert (h : Tree s) {c : Pid} (hDead : ¬ Live (s.proc c).state) :
    (s.proc c).pc = .user ∧ ∀ d, (s.proc d).parent ≠ some c := by
  constructor
  · by_contra hBusy
    exact hDead (h.busy c hBusy)
  · exact fun d hd => hDead (h.parent d c hd)

lemma Tree.wakeOne (h : Tree s) {me j : Pid} {chan : Option Chan} : Tree (s.wakeOne me chan j) := by
  rw [Sys.wakeOne]
  split
  · rename_i hj
    have hHolder := h.holder j
    apply h.setState (.inl hj.2.1) (.inr (.inl rfl))
    grind
  · exact h

lemma Tree.only (h : Tree s) {q : Pid} (hp : (s.proc p).pc.holdsLock = true) (hq : (s.proc q).pc.holdsLock = true) :
    q = p := by
  have hLock := (h.holder p hp).1
  rw [(h.holder q hq).1] at hLock
  exact Option.some.inj hLock

lemma Tree.cleared_init (h : Tree s) : (s.proc s.initproc).pc.cleared = 0 := by
  have hStays := h.stays s.initproc
  cases hPc : (s.proc s.initproc).pc with
  | reparent | wakeInit | wakeParent | exiting =>
    rw [hPc] at hStays
    exact absurd rfl (hStays rfl)
  | _ => rfl

lemma Tree.release (h : Tree s) (hp : (s.proc p).pc.holdsLock = true) :
    Tree ((s.setWaitLock none).goto p .user) := by
  have hGoto : Tree (s.goto p .user) := by
    apply h.goto <;> grind
  apply hGoto.setWaitLock
  grind [h.only hp]

lemma Tree.acquire (h : Tree s) {k : Pc} (hLock : s.waitLock = none) (hRun : (s.proc p).state = .running)
    (hFrom : ∀ np, (s.proc p).pc ≠ .forked np) (hTo : ∀ np, k ≠ .forked np ∧ k ≠ .adopted np)
    (hStays : k.exits = true → p ≠ s.initproc) (hCleared : k.cleared = 0) :
    Tree ((s.setWaitLock (some p)).goto p k) := by
  have hNone : ∀ q, (s.proc q).pc.holdsLock = true → some p = some q := by
    grind [h.holder]
  apply (h.setWaitLock hNone).goto <;> grind

end

/-! ## Steps -/

section

variable {s t : Sys} {p np : Pid}

lemma fork_tree (h : Tree s) (hNext : s.next (.fork p np) = some t) : Tree t := by
  obtain ⟨⟨hRun, hUser, hUnused⟩, ⟨⟩⟩ := ite_none_right_eq_some.mp hNext
  obtain ⟨hIdle, hChildless⟩ := h.inert (c := np) (by rw [hUnused]; exact not_live_unused)
  have hNone := h.unused np hUnused
  constructor <;> simp only [Sys.allocpid, Sys.setPid, Sys.setState, Sys.number, Sys.goto]
  · grind [h.holder, Pc.holdsLock]
  · grind [h.busy, Live]
  · grind [h.init, Live]
  · grind [h.stays, Pc.exits]
  · grind [h.forked]
  · grind [h.adopted]
  · grind [h.sole, h.forked]
  · grind [h.unused]
  · grind [h.parent]
  · grind [h.orphan]
  · grind [h.cleared, Pc.cleared]

lemma forkFails_tree (h : Tree s) (hNext : s.next (.forkFails p np) = some t) : Tree t := by
  obtain ⟨⟨-, -, hUnused⟩, ⟨⟩⟩ := ite_none_right_eq_some.mp hNext
  have hNone := h.unused np hUnused
  refine h.congr rfl rfl fun q => ?_
  rw [Sys.proc_freeproc]
  split
  · rename_i hq
    rw [hq]
    exact ⟨hUnused.symm, hNone.symm, rfl⟩
  · exact ⟨rfl, rfl, rfl⟩

lemma run_tree (h : Tree s) (hNext : s.next (.run p) = some t) : Tree t := by
  obtain ⟨hState, ⟨⟩⟩ := ite_none_right_eq_some.mp hNext
  have hRun : Tree ((s.setState p .running).setChan p none) :=
    (h.setState (.inr (.inl hState)) (.inr (.inr rfl)) fun _ => rfl).congr rfl rfl fun _ => ⟨rfl, rfl, rfl⟩
  cases hPc : (s.proc p).pc with
  | asleep addr => apply hRun.goto <;> grind
  | _ => apply hRun.congr <;> grind

lemma yield_tree (h : Tree s) (hNext : s.next (.yield p) = some t) : Tree t := by
  obtain ⟨⟨hRun, hHolds⟩, ⟨⟩⟩ := ite_none_right_eq_some.mp hNext
  apply h.setState (.inr (.inr hRun)) (.inr (.inl rfl))
  grind

lemma exit_tree {status : Int} (h : Tree s) (hNext : s.next (.exit p status) = some t) : Tree t := by
  obtain ⟨⟨hRun, hUser⟩, hExit⟩ := ite_none_right_eq_some.mp hNext
  obtain ⟨hInit, ⟨⟩⟩ := Option.ite_none_left_eq_some.mp hExit
  have hGoto : Tree (s.goto p (.exit status)) := by
    apply h.goto <;> grind
  exact hGoto.congr rfl rfl fun _ => ⟨rfl, rfl, rfl⟩

lemma wait_tree {addr : Nat} (h : Tree s) (hNext : s.next (.wait p addr) = some t) : Tree t := by
  obtain ⟨⟨hRun, hUser⟩, ⟨⟩⟩ := ite_none_right_eq_some.mp hNext
  apply h.goto <;> grind

lemma kill_tree (h : Tree s) (hNext : s.next (.kill p) = some t) : Tree t := by
  cases hNext
  have hKilled : Tree (s.setKilled p true) := h.congr rfl rfl fun _ => ⟨rfl, rfl, rfl⟩
  split
  · rename_i hAsleep
    apply hKilled.setState (.inl hAsleep) (.inr (.inl rfl))
    grind [h.holder p]
  · apply hKilled.congr <;> grind

lemma sleep_tree {chan : Nat} (h : Tree s) (hNext : s.next (.sleep p chan) = some t) : Tree t := by
  obtain ⟨⟨hRun, hUser⟩, ⟨⟩⟩ := ite_none_right_eq_some.mp hNext
  have hChan : Tree (s.setChan p (some (.other chan))) := h.congr rfl rfl fun _ => ⟨rfl, rfl, rfl⟩
  apply hChan.setState (.inr (.inr hRun)) (.inl rfl)
  grind

lemma wake_tree (h : Tree s) (hNext : s.next (.wake p) = some t) : Tree t := by
  simp only [Sys.next] at hNext
  split at hNext
  · obtain ⟨hAsleep, ⟨⟩⟩ := ite_none_right_eq_some.mp hNext
    apply h.setState (.inl hAsleep) (.inr (.inl rfl))
    grind [h.holder p]
  · cases hNext

/-! ## Steps of a call -/

lemma adopt_tree (h : Tree s) (hPc : (s.proc p).pc = .forked np) (hRun : (s.proc p).state = .running) :
    Tree ((s.setParent np (some p)).goto p (.adopted np)) := by
  obtain ⟨hUsed, hNone⟩ := h.forked p np hPc
  have hInit := h.init
  have hLive : Live (s.proc p).state := .inr (.inr hRun)
  constructor <;> simp only [Sys.setParent, Sys.goto]
  · grind [h.holder, Pc.holdsLock]
  · grind [h.busy]
  · grind [Live]
  · grind [h.stays, Pc.exits]
  · grind [h.forked, h.sole]
  · grind [h.adopted]
  · grind [h.sole]
  · grind [h.unused]
  · grind [h.parent]
  · grind [h.orphan]
  · grind [h.cleared, Pc.cleared]

lemma ready_tree (h : Tree s) (hPc : (s.proc p).pc = .adopted np) :
    Tree ((s.setState np .runnable).goto p .user) := by
  obtain ⟨hUsed, hParent⟩ := h.adopted p np hPc
  have hInit := h.init
  constructor <;> simp only [Sys.setState, Sys.goto]
  · grind [h.holder, h.busy, Pc.holdsLock, Live]
  · grind [h.busy, Live]
  · grind [Live]
  · grind [h.stays, Pc.exits]
  · grind [h.forked]
  · grind [h.adopted]
  · grind [h.sole]
  · grind [h.unused]
  · grind [h.parent, Live]
  · grind [h.orphan]
  · grind [h.cleared, Pc.cleared]

lemma reparentOne_tree {status : Int} {c : Pid} (h : Tree s) (hPc : (s.proc p).pc = .reparent status c.val)
    (hParent : (s.proc c).parent = some p) :
    Tree ((s.setParent c (some s.initproc)).goto p (.wakeInit status c.val 0)) := by
  have hInit := h.init
  have hHolder := h.holder p (by rw [hPc]; rfl)
  have hNot := h.stays p (by rw [hPc]; rfl)
  constructor <;> simp only [Sys.setParent, Sys.goto]
  · grind [h.holder, Pc.holdsLock]
  · grind [h.busy, Live]
  · grind
  · grind [h.stays]
  · grind [h.forked]
  · grind [h.adopted]
  · grind [h.sole]
  · grind [h.unused]
  · grind [h.parent]
  · grind [h.orphan]
  · -- the child goes to init, which is not in kexit
    grind [h.cleared, h.cleared_init]

lemma zombie_tree {status : Int} (h : Tree s) (hPc : (s.proc p).pc = .exiting status) :
    Tree ((((s.setXstate p status).setState p .zombie).setWaitLock none).goto p .user) := by
  have hHolds : (s.proc p).pc.holdsLock = true := by rw [hPc]; rfl
  have hInit := h.init
  have hRun := (h.holder p hHolds).2
  have hNot := h.stays p (by rw [hPc]; rfl)
  have hChildless : ∀ c, (s.proc c).parent ≠ some p := by
    intro c
    apply h.cleared p c
    rw [hPc]
    exact c.isLt
  constructor <;> simp only [Sys.setXstate, Sys.setState, Sys.setWaitLock, Sys.goto]
  · grind [h.holder, h.only, Pc.holdsLock]
  · grind [h.busy]
  · grind
  · grind [h.stays, Pc.exits]
  · grind [h.forked]
  · grind [h.adopted]
  · grind [h.sole]
  · grind [h.unused]
  · grind [h.parent]
  · grind [h.orphan]
  · grind [h.cleared]

lemma reap_tree {c : Pid} (h : Tree s) (hHolds : (s.proc p).pc.holdsLock = true) (hParent : (s.proc c).parent = some p)
    (hZombie : (s.proc c).state = .zombie) : Tree (((s.freeproc c).setWaitLock none).goto p .user) := by
  have hInit := h.init
  obtain ⟨hIdle, hChildless⟩ := h.inert (c := c) (by rw [hZombie]; exact not_live_zombie)
  have hFreed : Tree (s.freeproc c) := by
    constructor <;> simp only [Sys.freeproc, Sys.setPid, Sys.setParent, Sys.setChan, Sys.setKilled, Sys.setXstate,
      Sys.setState]
    · grind [h.holder]
    · grind [h.busy]
    · grind [Live]
    · exact h.stays
    · grind [h.forked]
    · grind [h.adopted]
    · exact h.sole
    · grind [h.unused]
    · grind [h.parent]
    · grind [h.orphan]
    · grind [h.cleared]
  exact hFreed.release hHolds

lemma doze_tree {addr : Nat} (h : Tree s) (hHolds : (s.proc p).pc.holdsLock = true) :
    Tree ((((s.setWaitLock none).setChan p (some (.proc p))).setState p .sleeping).goto p (.asleep addr)) := by
  have hRun := (h.holder p hHolds).2
  have hUser : Tree (((s.setWaitLock none).goto p .user).setChan p (some (.proc p))) :=
    (h.release hHolds).congr rfl rfl fun _ => ⟨rfl, rfl, rfl⟩
  have hAsleep : Tree ((((s.setWaitLock none).goto p .user).setChan p (some (.proc p))).setState p .sleeping) := by
    apply hUser.setState (.inr (.inr hRun)) (.inl rfl)
    grind
  have hGoto : Tree (((((s.setWaitLock none).goto p .user).setChan p (some (.proc p))).setState p .sleeping).goto p (.asleep addr)) := by
    apply hAsleep.goto <;> grind
  refine hGoto.congr rfl rfl fun q => ⟨rfl, rfl, ?_⟩
  simp only [Sys.proc_goto, Sys.proc_setState, Sys.proc_setChan, Sys.proc_setWaitLock]
  split <;> rfl

lemma Tree.carry_on (h : Tree s) {k : Pc} (hp : (s.proc p).pc.holdsLock = true) (hk : k.holdsLock = true)
    (hExits : k.exits = (s.proc p).pc.exits)
    (hCleared : ∀ c : Pid, c.val < k.cleared → (s.proc c).parent ≠ some p) : Tree (s.goto p k) := by
  obtain ⟨hLock, hRun⟩ := h.holder p hp
  have hStays := h.stays p
  apply h.goto <;> grind

lemma move_tree (h : Tree s) (hRun : (s.proc p).state = .running) (hMove : Move s p t) : Tree t := by
  have hDone := h.cleared p
  cases hMove with
  | adopt np hPc => exact adopt_tree h hPc hRun
  | ready np hPc => exact ready_tree h hPc
  | exit st hPc hLock =>
    have hStays := h.stays p
    apply h.acquire hLock hRun <;> grind
  | wait addr hPc hLock => apply h.acquire hLock hRun <;> grind
  | reparent st c hPc hChild => exact reparentOne_tree h hPc hChild
  | wakeInit st i j hPc => apply h.wakeOne.carry_on <;> grind
  | wakeParent st parent j hPc => apply h.wakeOne.carry_on <;> grind
  | zombie st hPc => exact zombie_tree h hPc
  | giveUp addr i havekids hPc => exact h.release (by rw [hPc]; rfl)
  | reap addr c havekids hPc hChild hZombie =>
    exact (reap_tree h (by rw [hPc]; rfl) hChild hZombie).congr rfl rfl fun _ => ⟨rfl, rfl, rfl⟩
  | doze addr hPc => exact doze_tree h (by rw [hPc]; rfl)
  | skip st c hPc hChild => apply h.carry_on <;> grind
  | wakeParents st i hPc hEnd => apply h.carry_on <;> grind
  | initAwake st i j hPc hEnd => apply h.carry_on <;> grind
  | parentAwake st parent j hPc hEnd => apply h.carry_on <;> grind
  | scan addr c havekids havekids' hPc hNot => apply h.carry_on <;> grind
  | sleep addr i havekids hPc hEnd => apply h.carry_on <;> grind

lemma next_tree {e : Event} (h : Tree s) (hNext : s.next e = some t) : Tree t := by
  cases e with
  | run p => exact run_tree h hNext
  | yield p => exact yield_tree h hNext
  | fork p np => exact fork_tree h hNext
  | forkFails p np => exact forkFails_tree h hNext
  | exit p status => exact exit_tree h hNext
  | wait p addr => exact wait_tree h hNext
  | step p copyout =>
    obtain ⟨hRun, hAdvance⟩ := ite_none_right_eq_some.mp hNext
    exact move_tree h hRun (advance_move hAdvance)
  | kill q => exact kill_tree h hNext
  | sleep p chan => exact sleep_tree h hNext
  | wake q => exact wake_tree h hNext

end

end Xv6K230.Wait
