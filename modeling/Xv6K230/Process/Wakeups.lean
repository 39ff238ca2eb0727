import Xv6K230.Process.Tree

/-! # No wake-up is lost

A process that sleeps in `kwait` has no child that is a zombie, unless an exiting process has just handed that child to
init and is still on its way to wake init.
-/

namespace Xv6K230.Wait

open Option (ite_none_right_eq_some)

def Sys.Waiting (s : Sys) (q : Pid) : Prop := (s.proc q).state = .sleeping ∧ ∃ addr, (s.proc q).pc = .asleep addr

/-- The number of slots in which `kwait` has found no zombie. -/
def Pc.scanned : Pc → Nat
  | .scan _ i _ => i
  | .sleep _ => nproc
  | _ => 0

/-- The number of slots in which `kexit` has woken its parent. -/
def Pc.woken : Pc → Nat
  | .wakeParent _ _ j => j
  | .exiting _ => nproc
  | _ => 0

lemma Pc.loops_of_free {k : Pc} (h : k.holdsLock = false) : k.scanned = 0 ∧ k.woken = 0 := by
  cases k <;> first | exact ⟨rfl, rfl⟩ | cases h

attribute [local grind] Pc.holdsLock Pc.resume Pc.exits Pc.scanned Pc.woken

structure Wakes (s : Sys) : Prop where
  chan : ∀ q, s.Waiting q → (s.proc q).chan = some (.proc q)
  scanned : ∀ q c, c.val < (s.proc q).pc.scanned → (s.proc c).parent = some q → (s.proc c).state ≠ .zombie
  called : ∀ c status parent j, (s.proc c).pc = .wakeParent status parent j → parent = (s.proc c).parent
  woken : ∀ c q, q.val < (s.proc c).pc.woken → (s.proc c).parent = some q → ¬ s.Waiting q
  wokenInit : ∀ x status i j, (s.proc x).pc = .wakeInit status i j → s.initproc.val < j → ¬ s.Waiting s.initproc
  awake : ∀ q c, s.Waiting q → (s.proc c).parent = some q → (s.proc c).state = .zombie →
    q = s.initproc ∧ ∃ x status i j, (s.proc x).pc = .wakeInit status i j ∧ j ≤ s.initproc.val

section

variable {s t : Sys} {p : Pid}

lemma Sys.Fresh.wakes (h : s.Fresh) : Wakes s := by
  have hUser : ∀ q, (s.proc q).pc = .user := by
    intro q
    have hInit := h.init
    have hRest := h.unused q
    grind
  have hAwake : ∀ q, ¬ s.Waiting q := by
    rintro q ⟨-, addr, hAsleep⟩
    rw [hUser q] at hAsleep
    cases hAsleep
  constructor <;> grind

lemma Wakes.frame (h : Wakes s) (hInit : t.initproc = s.initproc) (hPc : ∀ q, (t.proc q).pc = (s.proc q).pc)
    (hParent : ∀ c, (t.proc c).parent = (s.proc c).parent ∨
      (t.proc c).pc = .user ∧ ((t.proc c).parent = none ∨ (t.proc c).state ≠ .zombie))
    (hState : ∀ q, (t.proc q).state = .sleeping →
      (s.proc q).state = .sleeping ∧ (t.proc q).chan = (s.proc q).chan ∨ (t.proc q).pc = .user)
    (hZombie : ∀ c, (t.proc c).state = .zombie → (s.proc c).state = .zombie) : Wakes t := by
  have hBoth : ∀ q, t.Waiting q → s.Waiting q ∧ (t.proc q).chan = (s.proc q).chan := by
    rintro q ⟨hAsleep, addr, hq⟩
    rcases hState q hAsleep with ⟨hBefore, hSame⟩ | hUser
    · exact ⟨⟨hBefore, addr, (hPc q).symm.trans hq⟩, hSame⟩
    · rw [hUser] at hq
      cases hq
  have hWaiting : ∀ q, t.Waiting q → s.Waiting q := fun q hq => (hBoth q hq).1
  constructor
  · grind [h.chan]
  · grind [h.scanned]
  · grind [h.called]
  · grind [h.woken]
  · grind [h.wokenInit]
  · intro q c hAsleep hq hBad
    have hSame : (s.proc c).parent = some q := by grind
    obtain ⟨hqInit, x, status, i, j, hx, hj⟩ := h.awake q c (hWaiting q hAsleep) hSame (hZombie c hBad)
    rw [hInit]
    exact ⟨hqInit, x, status, i, j, (hPc x).trans hx, hj⟩

lemma Wakes.goto (h : Wakes s) {k : Pc} (hAwake : ∀ addr, k ≠ .asleep addr)
    (hScanned : ∀ c : Pid, c.val < k.scanned → (s.proc c).parent = some p → (s.proc c).state ≠ .zombie)
    (hCalled : ∀ status parent j, k = .wakeParent status parent j → parent = (s.proc p).parent)
    (hWoken : ∀ q : Pid, q.val < k.woken → (s.proc p).parent = some q → ¬ s.Waiting q)
    (hInit : ∀ status i j, k = .wakeInit status i j → s.initproc.val < j → ¬ s.Waiting s.initproc)
    (hOld : ∀ status i j, (s.proc p).pc = .wakeInit status i j → ¬ s.Waiting s.initproc ∨
      ∃ status i' j', k = .wakeInit status i' j' ∧ (j ≤ s.initproc.val → j' ≤ s.initproc.val)) :
    Wakes (s.goto p k) := by
  have hWaiting : ∀ q, (s.goto p k).Waiting q → s.Waiting q := by
    rintro q ⟨hAsleep, addr, hq⟩
    refine ⟨hAsleep, addr, ?_⟩
    simp only [Sys.goto] at hq
    split at hq
    · exact absurd hq (hAwake addr)
    · exact hq
  constructor
  · exact fun q hq => h.chan q (hWaiting q hq)
  · grind [h.scanned]
  · grind [h.called]
  · grind [h.woken]
  · intro x status i j hx hj hAsleep
    have hOne := h.wokenInit x status i j
    grind
  · intro q c hAsleep hq hBad
    obtain ⟨hqInit, x, status, i, j, hx, hj⟩ := h.awake q c (hWaiting q hAsleep) hq hBad
    refine ⟨hqInit, ?_⟩
    by_cases hxp : x = p
    · -- the one on the way to init is the thread that moves
      rw [hxp] at hx
      rcases hOld status i j hx with hNot | ⟨status', i', j', hk, hj'⟩
      · rw [hqInit] at hAsleep
        exact absurd (hWaiting _ hAsleep) hNot
      · exact ⟨p, status', i', j', (if_pos rfl).trans hk, hj' hj⟩
    · exact ⟨x, status, i, j, (if_neg hxp).trans hx, hj⟩

lemma Wakes.setState (h : Wakes s) {x : ProcState} (hZombie : x ≠ .zombie) (hUser : x = .sleeping → (s.proc p).pc = .user) :
    Wakes (s.setState p x) := by
  apply h.frame <;> grind

lemma Wakes.setChan (h : Wakes s) {x : Option Chan} (hp : (s.proc p).state ≠ .sleeping) : Wakes (s.setChan p x) := by
  apply h.frame <;> grind

lemma Wakes.congr (h : Wakes s) (hInit : t.initproc = s.initproc)
    (hProc : ∀ q, (t.proc q).state = (s.proc q).state ∧ (t.proc q).parent = (s.proc q).parent ∧
      (t.proc q).chan = (s.proc q).chan ∧ (t.proc q).pc = (s.proc q).pc) : Wakes t := by
  apply h.frame <;> grind

/-- Places outside of the loops of `kexit` and `kwait`. -/
def Pc.plain : Pc → Bool
  | .wakeInit _ _ _ | .wakeParent _ _ _ | .exiting _ | .scan _ _ _ | .sleep _ | .asleep _ => false
  | _ => true

lemma Wakes.leave (h : Wakes s) {k : Pc} (hk : k.plain = true)
    (hFrom : ∀ status i j, (s.proc p).pc = .wakeInit status i j → ¬ s.Waiting s.initproc) : Wakes (s.goto p k) := by
  have hZero : k.scanned = 0 ∧ k.woken = 0 := by
    cases k <;> first | exact ⟨rfl, rfl⟩ | cases hk
  apply h.goto <;> grind [Pc.plain]

lemma wakeOne_waiting {me j : Pid} {chan : Option Chan} {q : Pid} (hq : (s.wakeOne me chan j).Waiting q) :
    s.Waiting q ∧ ¬ (q = j ∧ j ≠ me ∧ (s.proc j).chan = chan) := by
  obtain ⟨hAsleep, addr, hPc⟩ := hq
  rw [Sys.proc_wakeOne] at hAsleep hPc
  exact ⟨⟨by grind, addr, hPc⟩, by grind⟩

lemma Wakes.wakeOne (h : Wakes s) {me j : Pid} {chan : Option Chan} : Wakes (s.wakeOne me chan j) := by
  rw [Sys.wakeOne]
  split
  · exact h.setState (fun hEq => by cases hEq) fun hEq => by cases hEq
  · exact h

end

/-! ## Steps -/

section

variable {s t : Sys} {p np : Pid}

lemma run_wakes (h : Wakes s) (hNext : s.next (.run p) = some t) : Wakes t := by
  obtain ⟨hState, ⟨⟩⟩ := ite_none_right_eq_some.mp hNext
  have hRunning : Wakes (s.setState p .running) := h.setState nofun nofun
  have hChan : Wakes ((s.setState p .running).setChan p none) := hRunning.setChan (by grind)
  cases hPc : (s.proc p).pc with
  | asleep addr => exact hChan.leave rfl (by grind)
  | _ => apply hChan.congr <;> grind

lemma fork_wakes (h : Wakes s) (hNext : s.next (.fork p np) = some t) : Wakes t := by
  obtain ⟨⟨-, hUser, -⟩, ⟨⟩⟩ := ite_none_right_eq_some.mp hNext
  have hPid : Wakes (s.allocpid np) := h.congr rfl fun _ => ⟨rfl, rfl, rfl, rfl⟩
  have hState : Wakes ((s.allocpid np).setState np .used) := hPid.setState nofun nofun
  have hUsed : Wakes (((s.allocpid np).setState np .used).number np (s.proc p).serial) :=
    hState.congr rfl fun _ => ⟨rfl, rfl, rfl, rfl⟩
  apply hUsed.leave rfl
  intro status i j hp
  exact absurd (hUser.symm.trans hp) nofun

lemma Wakes.freeproc (h : Wakes s) {c : Pid} (hIdle : (s.proc c).pc = .user) : Wakes (s.freeproc c) := by
  apply h.frame (t := s.freeproc c) rfl <;> grind

lemma forkFails_wakes (h : Wakes s) (hTree : Tree s) (hNext : s.next (.forkFails p np) = some t) : Wakes t := by
  obtain ⟨⟨-, -, hUnused⟩, ⟨⟩⟩ := ite_none_right_eq_some.mp hNext
  have hPid : Wakes (s.allocpid np) := h.congr rfl fun _ => ⟨rfl, rfl, rfl, rfl⟩
  exact hPid.freeproc (hTree.inert (c := np) (by rw [hUnused]; exact not_live_unused)).1

lemma exit_wakes {status : Int} (h : Wakes s) (hNext : s.next (.exit p status) = some t) : Wakes t := by
  obtain ⟨⟨-, hUser⟩, hExit⟩ := ite_none_right_eq_some.mp hNext
  obtain ⟨-, ⟨⟩⟩ := Option.ite_none_left_eq_some.mp hExit
  have hGoto : Wakes (s.goto p (.exit status)) := by
    apply h.leave rfl
    rw [hUser]
    nofun
  exact hGoto.congr rfl fun _ => ⟨rfl, rfl, rfl, rfl⟩

lemma wait_wakes {addr : Nat} (h : Wakes s) (hNext : s.next (.wait p addr) = some t) : Wakes t := by
  obtain ⟨⟨-, hUser⟩, ⟨⟩⟩ := ite_none_right_eq_some.mp hNext
  apply h.leave rfl
  rw [hUser]
  nofun

lemma kill_wakes (h : Wakes s) (hNext : s.next (.kill p) = some t) : Wakes t := by
  cases hNext
  have hKilled : Wakes (s.setKilled p true) := h.congr rfl fun _ => ⟨rfl, rfl, rfl, rfl⟩
  split
  · exact hKilled.setState nofun nofun
  · apply hKilled.congr <;> grind

lemma sleep_wakes {chan : Nat} (h : Wakes s) (hNext : s.next (.sleep p chan) = some t) : Wakes t := by
  obtain ⟨⟨hRun, hUser⟩, ⟨⟩⟩ := ite_none_right_eq_some.mp hNext
  have hChan : Wakes (s.setChan p (some (.other chan))) := by
    apply h.setChan
    rw [hRun]
    nofun
  exact hChan.setState nofun fun _ => hUser

lemma adopt_wakes (h : Wakes s) (hTree : Tree s) (hPc : (s.proc p).pc = .forked np) :
    Wakes ((s.setParent np (some p)).goto p (.adopted np)) := by
  have hUsed := (hTree.forked p np hPc).1
  have hIdle : (s.proc np).pc = .user := (hTree.inert (by grind [Live])).1
  have hParent : Wakes (s.setParent np (some p)) := by
    apply h.frame <;> grind
  exact hParent.leave rfl (by grind)

lemma Wakes.under_lock (hTree : Tree s) (hp : (s.proc p).pc.holdsLock = true)
    (hOther : ∀ q, q ≠ p → (t.proc q).pc = (s.proc q).pc)
    (hChan : ∀ q, t.Waiting q → (t.proc q).chan = some (.proc q)) (hScanned : (t.proc p).pc.scanned = 0)
    (hWoken : (t.proc p).pc.woken = 0) (hCalled : ∀ status parent j, (t.proc p).pc ≠ .wakeParent status parent j)
    (hInit : ∀ status i j, (t.proc p).pc = .wakeInit status i j → j = 0)
    (hAwake : ∀ q c, t.Waiting q → (t.proc c).parent = some q → (t.proc c).state = .zombie →
      q = t.initproc ∧ ∃ x status i j, (t.proc x).pc = .wakeInit status i j ∧ j ≤ t.initproc.val) : Wakes t := by
  have hQuiet : ∀ q, q ≠ p → (t.proc q).pc.holdsLock = false := by
    intro q hq
    rw [hOther q hq]
    by_contra hHolds
    exact hq (hTree.only hp (by simpa using hHolds))
  have hLoops := fun q hq => Pc.loops_of_free (hQuiet q hq)
  constructor <;> grind

/-- A zombie may come to init while init sleeps; the one who hands it over wakes init next. -/
lemma reparentOne_wakes {status : Int} {c : Pid} (h : Wakes s) (hTree : Tree s)
    (hPc : (s.proc p).pc = .reparent status c.val) :
    Wakes ((s.setParent c (some s.initproc)).goto p (.wakeInit status c.val 0)) := by
  have hNow : (((s.setParent c (some s.initproc)).goto p (.wakeInit status c.val 0)).proc p).pc =
      .wakeInit status c.val 0 := if_pos rfl
  have hWaiting : ∀ q, ((s.setParent c (some s.initproc)).goto p (.wakeInit status c.val 0)).Waiting q → s.Waiting q := by
    rintro q ⟨hAsleep, addr, hq⟩
    exact ⟨hAsleep, addr, by grind⟩
  apply Wakes.under_lock (p := p) hTree
  case hAwake =>
    intro q d hAsleep hq hBad
    refine ⟨?_, p, status, c.val, 0, hNow, Nat.zero_le _⟩
    have hBefore := h.awake q d (hWaiting q hAsleep)
    grind
  all_goals grind [h.chan]

lemma zombie_wakes {status : Int} (h : Wakes s) (hTree : Tree s) (hPc : (s.proc p).pc = .exiting status) :
    Wakes ((((s.setXstate p status).setState p .zombie).setWaitLock none).goto p .user) := by
  have hWaiting : ∀ q, ((((s.setXstate p status).setState p .zombie).setWaitLock none).goto p .user).Waiting q →
      s.Waiting q := by
    rintro q ⟨hAsleep, addr, hq⟩
    exact ⟨by grind, addr, by grind⟩
  apply Wakes.under_lock (p := p) hTree
  case hAwake =>
    intro q c hAsleep hq hBad
    have hBefore := hWaiting q hAsleep
    by_cases hc : c = p
    · -- kexit has been through all slots with its wakeup
      rw [hc] at hq
      exact absurd hBefore (h.woken p q (by rw [hPc]; exact q.isLt) hq)
    · have hZombie : (s.proc c).state = .zombie := by grind
      obtain ⟨-, x, status', i, j, hx, -⟩ := h.awake q c hBefore hq hZombie
      have hxp : x = p := hTree.only (by rw [hPc]; rfl) (by rw [hx]; rfl)
      grind
  all_goals grind [h.chan]

lemma doze_wakes {addr : Nat} (h : Wakes s) (hTree : Tree s) (hPc : (s.proc p).pc = .sleep addr) :
    Wakes ((((s.setWaitLock none).setChan p (some (.proc p))).setState p .sleeping).goto p (.asleep addr)) := by
  have hWaiting : ∀ q, q ≠ p →
      ((((s.setWaitLock none).setChan p (some (.proc p))).setState p .sleeping).goto p (.asleep addr)).Waiting q →
      s.Waiting q := by
    rintro q hqp ⟨hAsleep, addr', hq⟩
    exact ⟨by grind, addr', by grind⟩
  apply Wakes.under_lock (p := p) hTree
  case hAwake =>
    intro q c hAsleep hq hBad
    have hParent : (s.proc c).parent = some q := hq
    have hZombie : (s.proc c).state = .zombie := by grind
    by_cases hqp : q = p
    · rw [hqp] at hParent
      exact absurd hZombie (h.scanned p c (by rw [hPc]; exact c.isLt) hParent)
    · obtain ⟨-, x, status, i, j, hx, -⟩ := h.awake q c (hWaiting q hqp hAsleep) hParent hZombie
      have hxp : x = p := hTree.only (by rw [hPc]; rfl) (by rw [hx]; rfl)
      grind
  all_goals grind [h.chan]

lemma reap_wakes {c : Pid} (h : Wakes s) (hTree : Tree s) (hPc : ∀ status i j, (s.proc p).pc ≠ .wakeInit status i j)
    (hZombie : (s.proc c).state = .zombie) : Wakes (((s.freeproc c).setWaitLock none).goto p .user) := by
  have hIdle := (hTree.inert (c := c) (by rw [hZombie]; exact not_live_zombie)).1
  have hFreed : Wakes ((s.freeproc c).setWaitLock none) :=
    (h.freeproc hIdle).congr rfl fun _ => ⟨rfl, rfl, rfl, rfl⟩
  exact hFreed.leave rfl fun status i j hp => absurd hp (hPc status i j)

lemma wakeInit_wakes {status : Int} {i : Nat} {j : Pid} (h : Wakes s) (hTree : Tree s)
    (hPc : (s.proc p).pc = .wakeInit status i j.val) :
    Wakes ((s.wakeOne p (some (.proc s.initproc)) j).goto p (.wakeInit status i (j.val + 1))) := by
  have hNot : p ≠ s.initproc := hTree.stays p (by rw [hPc]; rfl)
  have hInit : (s.wakeOne p (some (.proc s.initproc)) j).initproc = s.initproc := by
    rw [Sys.wakeOne]
    split <;> rfl
  -- after the pass for init itself, init is awake
  have hAwake : s.initproc.val < j.val + 1 → ¬ (s.wakeOne p (some (.proc s.initproc)) j).Waiting s.initproc := by
    intro hPassed hAsleep
    obtain ⟨hBefore, hOther⟩ := wakeOne_waiting hAsleep
    rcases Nat.lt_succ_iff_lt_or_eq.mp hPassed with hLess | hHere
    · exact h.wokenInit p status i j.val hPc hLess hBefore
    · have hj : s.initproc = j := Fin.ext hHere
      exact hOther ⟨hj, hj ▸ hNot.symm, hj ▸ h.chan s.initproc hBefore⟩
  apply h.wakeOne.goto
  case hOld =>
    intro status' i' j' hp
    rw [hInit]
    by_cases hPassed : s.initproc.val < j.val + 1
    · exact .inl (hAwake hPassed)
    · exact .inr ⟨status, i, j.val + 1, rfl, fun _ => Nat.not_lt.mp hPassed⟩
  all_goals grind

lemma wakeParent_wakes {status : Int} {parent : Option Pid} {j : Pid} (h : Wakes s) (hTree : Tree s)
    (hPc : (s.proc p).pc = .wakeParent status parent j.val) :
    Wakes ((s.wakeOne p (parent.map .proc) j).goto p (.wakeParent status parent (j.val + 1))) := by
  have hCalled := h.called p status parent j.val hPc
  apply h.wakeOne.goto
  case hWoken =>
    intro q hPassed hq hAsleep
    rw [Sys.proc_wakeOne] at hq
    obtain ⟨hBefore, hOther⟩ := wakeOne_waiting hAsleep
    rcases Nat.lt_succ_iff_lt_or_eq.mp hPassed with hLess | hHere
    · exact h.woken p q (by rw [hPc]; exact hLess) hq hBefore
    · have hj : q = j := Fin.ext hHere
      have hSelf : q ≠ p := by
        rintro rfl
        exact hTree.cleared q q (by rw [hPc]; exact q.isLt) hq
      refine hOther ⟨hj, hj ▸ hSelf, ?_⟩
      rw [← hj, hCalled, hq]
      exact h.chan q hBefore
  all_goals grind

lemma Wakes.scan (h : Wakes s) {k : Pc} (hPc : ∀ status i j, (s.proc p).pc ≠ .wakeInit status i j) (hWoken : k.woken = 0)
    (hk : k.plain = true ∨ (∃ addr i havekids, k = .scan addr i havekids) ∨ ∃ addr, k = .sleep addr)
    (hScanned : ∀ c : Pid, c.val < k.scanned → (s.proc c).parent = some p → (s.proc c).state ≠ .zombie) :
    Wakes (s.goto p k) := by
  apply h.goto <;> grind [Pc.plain]

lemma move_wakes (h : Wakes s) (hTree : Tree s) (hMove : Move s p t) : Wakes t := by
  have hDone := h.scanned p
  cases hMove with
  | adopt np hPc => exact adopt_wakes h hTree hPc
  | ready np hPc =>
    have hReady : Wakes (s.setState np .runnable) := h.setState nofun nofun
    exact hReady.leave rfl (by grind)
  | exit st hPc =>
    have hGoto : Wakes (s.goto p (.reparent st 0)) := h.leave rfl (by grind)
    exact hGoto.congr rfl fun _ => ⟨rfl, rfl, rfl, rfl⟩
  | wait addr hPc =>
    have hGoto : Wakes (s.goto p (.scan addr 0 false)) := by apply h.scan <;> grind
    exact hGoto.congr rfl fun _ => ⟨rfl, rfl, rfl, rfl⟩
  | reparent st c hPc => exact reparentOne_wakes h hTree hPc
  | skip st c hPc => exact h.leave rfl (by grind)
  | wakeParents st i hPc => apply h.goto <;> grind
  | wakeInit st i j hPc => exact wakeInit_wakes h hTree hPc
  | initAwake st i j hPc hEnd =>
    exact h.leave rfl fun _ _ _ _ => h.wokenInit p st i j hPc (s.initproc.isLt.trans_le hEnd)
  | wakeParent st parent j hPc => exact wakeParent_wakes h hTree hPc
  | parentAwake st parent j hPc hEnd =>
    have hWoken := h.woken p
    apply h.goto <;> grind
  | zombie st hPc => exact zombie_wakes h hTree hPc
  | giveUp addr i havekids hPc =>
    exact (h.leave (p := p) (k := .user) rfl (by grind)).congr rfl fun _ => ⟨rfl, rfl, rfl, rfl⟩
  | reap addr c havekids hPc hChild hZombie =>
    exact (reap_wakes h hTree (by grind) hZombie).congr rfl fun _ => ⟨rfl, rfl, rfl, rfl⟩
  | scan addr c havekids havekids' hPc hNot => apply h.scan <;> grind
  | sleep addr i havekids hPc hEnd => apply h.scan <;> grind
  | doze addr hPc => exact doze_wakes h hTree hPc

lemma next_wakes {e : Event} (h : Wakes s) (hTree : Tree s) (hNext : s.next e = some t) : Wakes t := by
  cases e with
  | run p => exact run_wakes h hNext
  | yield p =>
    obtain ⟨-, ⟨⟩⟩ := ite_none_right_eq_some.mp hNext
    exact h.setState nofun nofun
  | fork p np => exact fork_wakes h hNext
  | forkFails p np => exact forkFails_wakes h hTree hNext
  | exit p status => exact exit_wakes h hNext
  | wait p addr => exact wait_wakes h hNext
  | step p copyout =>
    obtain ⟨-, hAdvance⟩ := ite_none_right_eq_some.mp hNext
    exact move_wakes h hTree (advance_move hAdvance)
  | kill q => exact kill_wakes h hNext
  | sleep p chan => exact sleep_wakes h hNext
  | wake q =>
    simp only [Sys.next] at hNext
    split at hNext
    · obtain ⟨-, ⟨⟩⟩ := ite_none_right_eq_some.mp hNext
      exact h.setState nofun nofun
    · cases hNext

end

end Xv6K230.Wait
