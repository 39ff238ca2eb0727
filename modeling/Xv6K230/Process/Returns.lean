import Xv6K230.Process.Wakeups

/-! # What kwait returns

The processes that have called `kexit` and those that a `kwait` has returned, by their
serial numbers: a slot of the table serves one process after another.
-/

namespace Xv6K230.Wait

open Option (ite_none_right_eq_some)

/-- The argument of the call of `kexit` that the thread is in. -/
def Pc.status : Pc → Option Int
  | .exit st | .reparent st _ | .wakeInit st _ _ | .wakeParent st _ _ | .exiting st => some st
  | _ => none

attribute [local grind] Pc.holdsLock Pc.resume Pc.exits Pc.status

structure Ledger (s : Sys) : Prop where
  serial : ∀ c, (s.proc c).state ≠ .unused → (s.proc c).serial < s.created
  distinct : ∀ c d, (s.proc c).state ≠ .unused → (s.proc d).state ≠ .unused → (s.proc c).serial = (s.proc d).serial →
    c = d
  zombie : ∀ c, (s.proc c).state = .zombie → ((s.proc c).serial, (s.proc c).xstate) ∈ s.exits
  leaving : ∀ c st, (s.proc c).pc.status = some st → ((s.proc c).serial, st) ∈ s.exits
  once : (s.exits.map Prod.fst).Nodup
  known : ∀ x ∈ s.exits, x.1 < s.created ∧ ∀ c, (s.proc c).state ≠ .unused → (s.proc c).serial = x.1 →
    (s.proc c).state = .zombie ∨ (s.proc c).pc.exits = true
  returned : (s.returns.map Return.child).Nodup
  gone : ∀ r ∈ s.returns, r.child < s.created ∧ ∀ c, (s.proc c).state ≠ .unused → (s.proc c).serial ≠ r.child
  status : ∀ r ∈ s.returns, (r.child, r.status) ∈ s.exits
  waiter : ∀ r ∈ s.returns, r.waiter = r.forker ∨ r.waiter = (s.proc s.initproc).serial
  lineage : ∀ c q, (s.proc c).parent = some q → q = s.initproc ∨ (s.proc q).serial = (s.proc c).forker
  forked : ∀ p np, (s.proc p).pc = .forked np → (s.proc np).forker = (s.proc p).serial

section

variable {s t : Sys} {p : Pid}

lemma Sys.Fresh.ledger (h : s.Fresh) : Ledger s := by
  have hInit := h.init
  have hUser : ∀ q, (s.proc q).pc = .user := by
    intro q
    have hRest := h.unused q
    grind
  have hOnly : ∀ q, (s.proc q).state ≠ .unused → q = s.initproc := by
    intro q hq
    by_contra hne
    exact hq (h.unused q hne).1
  obtain ⟨-, hExits, hReturns⟩ := h.rest
  constructor <;> grind [h.parent]

lemma Ledger.frame (h : Ledger s) (hInit : t.initproc = s.initproc)
    (hNumber : ∀ c, (t.proc c).serial = (s.proc c).serial ∧ (t.proc c).forker = (s.proc c).forker)
    (hLists : t.created = s.created ∧ t.exits = s.exits ∧ t.returns = s.returns)
    (hUsed : ∀ c, (t.proc c).state ≠ .unused → (s.proc c).state ≠ .unused)
    (hZombie : ∀ c, (t.proc c).state = .zombie → ((s.proc c).serial, (t.proc c).xstate) ∈ s.exits)
    (hStatus : ∀ c st, (t.proc c).pc.status = some st → (s.proc c).pc.status = some st)
    (hExits : ∀ c, (t.proc c).state ≠ .unused → (s.proc c).state = .zombie ∨ (s.proc c).pc.exits = true →
      (t.proc c).state = .zombie ∨ (t.proc c).pc.exits = true)
    (hParent : ∀ c q, (t.proc c).parent = some q → (s.proc c).parent = some q ∨ q = s.initproc ∨
      (s.proc q).serial = (s.proc c).forker)
    (hForked : ∀ p np, (t.proc p).pc = .forked np → (s.proc p).pc = .forked np) : Ledger t := by
  obtain ⟨hCreated, hOut, hReturns⟩ := hLists
  have hSerial := h.serial
  have hKnown := h.known
  have hGone := h.gone
  constructor
  · grind
  · grind [h.distinct]
  · grind
  · grind [h.leaving]
  · exact hOut ▸ h.once
  · grind
  · exact hReturns ▸ h.returned
  · grind
  · grind [h.status]
  · grind [h.waiter]
  · grind [h.lineage]
  · grind [h.forked]

lemma Ledger.setState (h : Ledger s) {x : ProcState} (hx : x ≠ .unused ∧ x ≠ .zombie)
    (hp : (s.proc p).state ≠ .unused ∧ (s.proc p).state ≠ .zombie) : Ledger (s.setState p x) := by
  apply h.frame <;> grind [h.zombie]

lemma Ledger.congr (h : Ledger s) (hInit : t.initproc = s.initproc)
    (hLists : t.created = s.created ∧ t.exits = s.exits ∧ t.returns = s.returns)
    (hProc : ∀ c, (t.proc c).serial = (s.proc c).serial ∧ (t.proc c).forker = (s.proc c).forker ∧
      (t.proc c).state = (s.proc c).state ∧ (t.proc c).xstate = (s.proc c).xstate ∧
      (t.proc c).parent = (s.proc c).parent ∧ (t.proc c).pc = (s.proc c).pc) : Ledger t := by
  apply h.frame <;> grind [h.zombie]

lemma Ledger.goto (h : Ledger s) {k : Pc} (hStatus : k.status = (s.proc p).pc.status)
    (hExits : k.exits = (s.proc p).pc.exits) (hForked : ∀ np, k ≠ .forked np) : Ledger (s.goto p k) := by
  apply h.frame <;> grind [h.zombie]

end

/-! ## Steps -/

section

variable {s t : Sys} {p np : Pid}

lemma Live.alive {x : ProcState} (h : Live x) : x ≠ .unused ∧ x ≠ .zombie := by
  rcases h with rfl | rfl | rfl <;> exact ⟨nofun, nofun⟩

lemma run_ledger (h : Ledger s) (hNext : s.next (.run p) = some t) : Ledger t := by
  obtain ⟨hState, ⟨⟩⟩ := ite_none_right_eq_some.mp hNext
  have hRunning : Ledger (s.setState p .running) :=
    h.setState ⟨nofun, nofun⟩ (by rw [hState]; exact ⟨nofun, nofun⟩)
  have hChan : Ledger ((s.setState p .running).setChan p none) :=
    hRunning.congr rfl ⟨rfl, rfl, rfl⟩ fun _ => ⟨rfl, rfl, rfl, rfl, rfl, rfl⟩
  cases hPc : (s.proc p).pc with
  | asleep addr => apply hChan.goto <;> grind
  | _ => apply hChan.congr <;> grind

lemma fork_ledger (h : Ledger s) (hTree : Tree s) (hNext : s.next (.fork p np) = some t) : Ledger t := by
  obtain ⟨⟨hRun, hUser, hUnused⟩, ⟨⟩⟩ := ite_none_right_eq_some.mp hNext
  obtain ⟨hIdle, hChildless⟩ := hTree.inert (c := np) (by rw [hUnused]; exact not_live_unused)
  have hNone := hTree.unused np hUnused
  have hInit : s.initproc ≠ np := by
    rintro rfl
    have hLive := hTree.init.1
    rw [hUnused] at hLive
    exact not_live_unused hLive
  have hne : p ≠ np := by
    rintro rfl
    rw [hUnused] at hRun
    cases hRun
  have hSerial := h.serial
  have hKnown := h.known
  have hGone := h.gone
  constructor <;> simp only [Sys.allocpid, Sys.setPid, Sys.setState, Sys.number, Sys.goto]
  · grind
  · grind [h.distinct]
  · grind [h.zombie]
  · grind [h.leaving]
  · exact h.once
  · grind
  · exact h.returned
  · grind
  · exact h.status
  · grind [h.waiter]
  · grind [h.lineage]
  · grind [h.forked, hTree.forked]

lemma Ledger.freeproc (h : Ledger s) (c : Pid) : Ledger (s.freeproc c) := by
  apply h.frame (t := s.freeproc c) rfl <;> grind [h.zombie]

lemma exit_ledger {status : Int} (h : Ledger s) (hNext : s.next (.exit p status) = some t) : Ledger t := by
  obtain ⟨⟨hRun, hUser⟩, hExit⟩ := ite_none_right_eq_some.mp hNext
  obtain ⟨-, ⟨⟩⟩ := Option.ite_none_left_eq_some.mp hExit
  have hUsed : (s.proc p).state ≠ .unused := by rw [hRun]; nofun
  -- nobody is twice in the list: p would be on its way out already
  have hNew : ∀ x ∈ s.exits, x.1 ≠ (s.proc p).serial := by
    intro x hx hEq
    rcases (h.known x hx).2 p hUsed hEq.symm with hZombie | hExits
    · rw [hRun] at hZombie
      cases hZombie
    · rw [hUser] at hExits
      cases hExits
  have hKnown := h.known
  have hSerial := h.serial p hUsed
  constructor <;> simp only [Sys.goto]
  · exact h.serial
  · exact h.distinct
  · exact fun c hc => List.mem_cons_of_mem _ (h.zombie c hc)
  · grind [h.leaving]
  · rw [List.map_cons, List.nodup_cons]
    refine ⟨?_, h.once⟩
    intro hMem
    obtain ⟨x, hx, hEq⟩ := List.mem_map.mp hMem
    exact hNew x hx hEq
  · grind [h.distinct]
  · exact h.returned
  · exact h.gone
  · exact fun r hr => List.mem_cons_of_mem _ (h.status r hr)
  · exact h.waiter
  · exact h.lineage
  · grind [h.forked]

lemma Ledger.ret (h : Ledger s) {r : Return} (hChild : r.child < s.created)
    (hNew : ∀ r' ∈ s.returns, r'.child ≠ r.child) (hGone : ∀ c, (s.proc c).state ≠ .unused → (s.proc c).serial ≠ r.child)
    (hStatus : (r.child, r.status) ∈ s.exits) (hWaiter : r.waiter = r.forker ∨ r.waiter = (s.proc s.initproc).serial) :
    Ledger { s with returns := r :: s.returns } := by
  refine { h with returned := ?_, gone := ?_, status := ?_, waiter := ?_ }
  · rw [List.map_cons, List.nodup_cons]
    refine ⟨?_, h.returned⟩
    intro hMem
    obtain ⟨r', hr', hEq⟩ := List.mem_map.mp hMem
    exact hNew r' hr' hEq
  · have hOld := h.gone
    grind
  · grind [h.status]
  · grind [h.waiter]

lemma reap_ledger {c : Pid} (h : Ledger s) (hStatus : (s.proc p).pc.status = none)
    (hExits : (s.proc p).pc.exits = false) (hParent : (s.proc c).parent = some p) (hZombie : (s.proc c).state = .zombie) :
    Ledger { ((s.freeproc c).setWaitLock none).goto p .user with
      returns := ⟨(s.proc c).serial, (s.proc p).serial, (s.proc c).forker, (s.proc c).xstate⟩ :: s.returns } := by
  have hUsed : (s.proc c).state ≠ .unused := by rw [hZombie]; nofun
  have hFreed : Ledger (((s.freeproc c).setWaitLock none).goto p .user) := by
    have hLock : Ledger ((s.freeproc c).setWaitLock none) :=
      (h.freeproc c).congr rfl ⟨rfl, rfl, rfl⟩ fun _ => ⟨rfl, rfl, rfl, rfl, rfl, rfl⟩
    exact hLock.goto hStatus.symm hExits.symm nofun
  refine hFreed.ret (h.serial c hUsed) ?_ ?_ (h.zombie c hZombie) ?_
  · intro r hr hEq
    exact (h.gone r hr).2 c hUsed hEq.symm
  · intro d hd hEq
    have hd : ((s.freeproc c).proc d).state ≠ .unused := hd
    rw [Sys.proc_freeproc] at hd
    split at hd
    · exact hd rfl
    · rename_i hdc
      exact hdc (h.distinct d c hd hUsed hEq)
  · rcases h.lineage c p hParent with hp | hp
    · right
      rw [hp]
      rfl
    · exact .inl hp

lemma Ledger.move (h : Ledger s) {x : Option Pid} {k : Pc} (hStatus : k.status = (s.proc p).pc.status)
    (hExits : k.exits = (s.proc p).pc.exits) (hForked : ∀ np, k ≠ .forked np) :
    Ledger ((s.setWaitLock x).goto p k) := by
  have hGoto : Ledger (s.goto p k) := h.goto hStatus hExits hForked
  exact hGoto.congr rfl ⟨rfl, rfl, rfl⟩ fun _ => ⟨rfl, rfl, rfl, rfl, rfl, rfl⟩

lemma Ledger.wakeOne (h : Ledger s) {me j : Pid} {chan : Option Chan} : Ledger (s.wakeOne me chan j) := by
  rw [Sys.wakeOne]
  split
  · rename_i hj
    have hNe : ProcState.runnable ≠ .unused ∧ ProcState.runnable ≠ .zombie := by decide
    exact h.setState hNe (by rw [hj.2.1]; decide)
  · exact h

lemma adopt_ledger (h : Ledger s) (hPc : (s.proc p).pc = .forked np) :
    Ledger ((s.setParent np (some p)).goto p (.adopted np)) := by
  have hForker := h.forked p np hPc
  have hParent : Ledger (s.setParent np (some p)) := by
    apply h.frame <;> grind [h.zombie]
  apply hParent.goto <;> grind

lemma reparentOne_ledger {status : Int} {c : Pid} (h : Ledger s) (hPc : (s.proc p).pc = .reparent status c.val) :
    Ledger ((s.setParent c (some s.initproc)).goto p (.wakeInit status c.val 0)) := by
  have hParent : Ledger (s.setParent c (some s.initproc)) := by
    apply h.frame <;> grind [h.zombie]
  apply hParent.goto <;> grind

lemma zombie_ledger {status : Int} (h : Ledger s) (hTree : Tree s) (hPc : (s.proc p).pc = .exiting status) :
    Ledger ((((s.setXstate p status).setState p .zombie).setWaitLock none).goto p .user) := by
  have hRun := (hTree.holder p (by rw [hPc]; rfl)).2
  have hStatus := h.leaving p status (by rw [hPc]; rfl)
  apply h.frame <;> grind [h.zombie]

lemma doze_ledger {addr : Nat} (h : Ledger s) (hRun : (s.proc p).state = .running) (hPc : (s.proc p).pc = .sleep addr) :
    Ledger ((((s.setWaitLock none).setChan p (some (.proc p))).setState p .sleeping).goto p (.asleep addr)) := by
  have hChan : Ledger ((s.setWaitLock none).setChan p (some (.proc p))) :=
    h.congr rfl ⟨rfl, rfl, rfl⟩ fun _ => ⟨rfl, rfl, rfl, rfl, rfl, rfl⟩
  have hAsleep : Ledger (((s.setWaitLock none).setChan p (some (.proc p))).setState p .sleeping) := by
    apply hChan.setState <;> grind
  apply hAsleep.goto <;> grind

lemma move_ledger (h : Ledger s) (hTree : Tree s) (hRun : (s.proc p).state = .running) (hMove : Move s p t) :
    Ledger t := by
  cases hMove with
  | adopt np hPc => exact adopt_ledger h hPc
  | ready np hPc =>
    have hUsed := (hTree.adopted p np hPc).1
    have hReady : Ledger (s.setState np .runnable) := by
      apply h.setState <;> grind
    apply hReady.goto <;> grind
  | reparent st c hPc => exact reparentOne_ledger h hPc
  | wakeInit st i j hPc => apply h.wakeOne.goto <;> grind
  | wakeParent st parent j hPc => apply h.wakeOne.goto <;> grind
  | zombie st hPc => exact zombie_ledger h hTree hPc
  | reap addr c havekids hPc hChild hZombie =>
    exact reap_ledger h (by rw [hPc]; rfl) (by rw [hPc]; rfl) hChild hZombie
  | doze addr hPc => exact doze_ledger h hRun hPc
  | exit | wait | giveUp => apply h.move <;> grind
  | skip | wakeParents | initAwake | parentAwake | scan | sleep => apply h.goto <;> grind

lemma kill_ledger (h : Ledger s) (hNext : s.next (.kill p) = some t) : Ledger t := by
  cases hNext
  have hKilled : Ledger (s.setKilled p true) :=
    h.congr rfl ⟨rfl, rfl, rfl⟩ fun _ => ⟨rfl, rfl, rfl, rfl, rfl, rfl⟩
  split
  · apply hKilled.setState <;> grind
  · apply hKilled.congr <;> grind

lemma next_ledger {e : Event} (h : Ledger s) (hTree : Tree s) (hNext : s.next e = some t) : Ledger t := by
  cases e with
  | run p => exact run_ledger h hNext
  | yield p =>
    obtain ⟨⟨hRun, -⟩, ⟨⟩⟩ := ite_none_right_eq_some.mp hNext
    exact h.setState ⟨nofun, nofun⟩ (by rw [hRun]; exact ⟨nofun, nofun⟩)
  | fork p np => exact fork_ledger h hTree hNext
  | forkFails p np =>
    obtain ⟨-, ⟨⟩⟩ := ite_none_right_eq_some.mp hNext
    have hPid : Ledger (s.allocpid np) := h.congr rfl ⟨rfl, rfl, rfl⟩ fun _ => ⟨rfl, rfl, rfl, rfl, rfl, rfl⟩
    exact hPid.freeproc np
  | exit p status => exact exit_ledger h hNext
  | wait p addr =>
    obtain ⟨⟨-, hUser⟩, ⟨⟩⟩ := ite_none_right_eq_some.mp hNext
    exact h.goto (by rw [hUser]; rfl) (by rw [hUser]; rfl) nofun
  | step p copyout =>
    obtain ⟨hRun, hAdvance⟩ := ite_none_right_eq_some.mp hNext
    exact move_ledger h hTree hRun (advance_move hAdvance)
  | kill q => exact kill_ledger h hNext
  | sleep p chan =>
    obtain ⟨⟨hRun, -⟩, ⟨⟩⟩ := ite_none_right_eq_some.mp hNext
    have hChan : Ledger (s.setChan p (some (.other chan))) :=
      h.congr rfl ⟨rfl, rfl, rfl⟩ fun _ => ⟨rfl, rfl, rfl, rfl, rfl, rfl⟩
    have hSame : ((s.setChan p (some (.other chan))).proc p).state = .running := hRun
    exact hChan.setState ⟨nofun, nofun⟩ (by rw [hSame]; exact ⟨nofun, nofun⟩)
  | wake q =>
    simp only [Sys.next] at hNext
    split at hNext
    · obtain ⟨hAsleep, ⟨⟩⟩ := ite_none_right_eq_some.mp hNext
      exact h.setState ⟨nofun, nofun⟩ (by rw [hAsleep]; exact ⟨nofun, nofun⟩)
    · cases hNext

end

lemma Sys.Reaches.protocol {s : Sys} (h : s.Reaches) : Tree s ∧ Wakes s ∧ Ledger s := by
  refine h.invariant (I := fun s => Tree s ∧ Wakes s ∧ Ledger s) ?_ ?_
  · exact fun s hFresh => ⟨hFresh.tree, hFresh.wakes, hFresh.ledger⟩
  · intro s e t hs _ hNext
    exact ⟨next_tree hs.1 hNext, next_wakes hs.2.1 hs.1 hNext, next_ledger hs.2.2 hs.1 hNext⟩

def Sys.Forking (s : Sys) (c : Pid) : Prop := ∃ p, (s.proc p).pc = .forked c ∨ (s.proc p).pc = .adopted c

def Sys.WakingInit (s : Sys) : Prop := ∃ x status i j, (s.proc x).pc = .wakeInit status i j ∧ j ≤ s.initproc.val

lemma scan_copyout_fails {s t : Sys} {p c : Pid} {addr : Nat} {havekids : Bool}
    (hPc : (s.proc p).pc = .scan addr c.val havekids) (hParent : (s.proc c).parent = some p)
    (hZombie : (s.proc c).state = .zombie) (hAddr : addr ≠ 0) (hNext : s.advance p false = some t) :
    t = (s.setWaitLock none).goto p .user := by
  have hFails : addr ≠ 0 ∧ (!false) = true := ⟨hAddr, rfl⟩
  rw [Sys.advance, hPc] at hNext
  dsimp only at hNext
  rw [dif_pos c.isLt, if_pos hParent, if_pos hZombie, if_pos hFails] at hNext
  exact (Option.some.inj hNext).symm

/-- Exit and wait in every interleaving. A process that has been forked has a living
parent. No process is returned twice, and always to its forker or to init and with the
status that it has passed to `kexit`. A `kwait` that fails in `copyout` leaves the zombie
to its parent. Nobody sleeps in `kwait` over a zombie child whom no wake-up under way
reaches. -/
theorem exit_wait_protocol {s : Sys} (h : s.Reaches) :
    (∀ c, c ≠ s.initproc → (s.proc c).state ≠ .unused → ¬ s.Forking c →
      ∃ q, (s.proc c).parent = some q ∧ (s.proc q).state ≠ .unused ∧ (s.proc q).state ≠ .zombie) ∧
    (s.returns.map Return.child).Nodup ∧ (s.exits.map Prod.fst).Nodup ∧
    (∀ r ∈ s.returns, (r.child, r.status) ∈ s.exits ∧
      (r.waiter = r.forker ∨ r.waiter = (s.proc s.initproc).serial)) ∧
    (∀ p c addr havekids t, (s.proc p).pc = .scan addr c.val havekids → (s.proc c).parent = some p →
      (s.proc c).state = .zombie → addr ≠ 0 → s.advance p false = some t →
      (t.proc c).state = .zombie ∧ (t.proc c).parent = some p ∧ (t.proc c).xstate = (s.proc c).xstate ∧
        t.waitLock = none ∧ t.returns = s.returns) ∧
    ∀ q, s.Waiting q → ∀ c, (s.proc c).parent = some q → (s.proc c).state = .zombie → q = s.initproc ∧ s.WakingInit := by
  obtain ⟨hTree, hWakes, hLedger⟩ := h.protocol
  refine ⟨?_, hLedger.returned, hLedger.once, fun r hr => ⟨hLedger.status r hr, hLedger.waiter r hr⟩, ?_, ?_⟩
  · intro c hc hUsed hForking
    cases hParent : (s.proc c).parent with
    | none =>
      obtain ⟨p, hp⟩ := hTree.orphan c hc hUsed hParent
      exact absurd ⟨p, .inl hp⟩ hForking
    | some q => exact ⟨q, rfl, (hTree.parent c q hParent).alive⟩
  · intro p c addr havekids t hPc hParent hZombie hAddr hNext
    rw [scan_copyout_fails hPc hParent hZombie hAddr hNext]
    exact ⟨hZombie, hParent, rfl, rfl, rfl⟩
  · exact fun q hq c hParent hZombie => hWakes.awake q c hq hParent hZombie

namespace Sample

def init : Pid := ⟨0, nproc_pos⟩

def child : Pid := ⟨1, by decide⟩

/-- The table after `userinit`. -/
def fresh : Sys where
  proc p := ⟨if p = init then .runnable else .unused, if p = init then 1 else 0, none, none, false, 0, .user, 0, 0⟩
  initproc := init
  waitLock := none
  nextpid := 2
  created := 1
  exits := []
  returns := []

lemma fresh_fresh : fresh.Fresh := by
  refine ⟨⟨rfl, rfl, Nat.one_pos⟩, ?_, fun _ => rfl, rfl, rfl, rfl⟩
  exact fun p hp => ⟨if_neg hp, rfl⟩

def forkExitWait : List Event :=
  [.run init, .fork init child, .step init true, .step init true, .run child, .exit child 7] ++
    List.replicate 132 (.step child true) ++ [.wait init 100] ++ List.replicate 3 (.step init true)

end Sample

theorem exit_wait_protocol_status : ∃ s : Sys, s.Reaches ∧ s.returns = [⟨1, 0, 0, 7⟩] ∧ (1, 7) ∈ s.exits := by
  have hRun : ((Transition.run Sys.next Sample.forkExitWait Sample.fresh).any fun s =>
      decide (s.returns = [⟨1, 0, 0, 7⟩])) = true := by decide +kernel
  cases hs : Transition.run Sys.next Sample.forkExitWait Sample.fresh with
  | none =>
    rw [hs] at hRun
    cases hRun
  | some s =>
    rw [hs] at hRun
    have hReturns : s.returns = [⟨1, 0, 0, 7⟩] := of_decide_eq_true hRun
    have hReaches : s.Reaches :=
      .of_run (fun _ _ _ hNext => hNext) _ (fun _ _ _ => trivial) (.start Sample.fresh_fresh) hs
    have hStatus := (exit_wait_protocol hReaches).2.2.2.1
    rw [hReturns] at hStatus
    exact ⟨s, hReaches, hReturns, (hStatus _ List.mem_cons_self).1⟩

/-! ## No exit is lost -/

/-- Who has called `kexit` keeps its slot until a `kwait` returns it. -/
def Kept (s : Sys) : Prop :=
  ∀ x ∈ s.exits, (∃ c, (s.proc c).state ≠ .unused ∧ (s.proc c).serial = x.1) ∨ ∃ r ∈ s.returns, r.child = x.1

lemma next_kept {s t : Sys} {e : Event} (h : Kept s) (hNext : s.next e = some t) : Kept t := by
  have hFrame (hExits : t.exits = s.exits) (hReturns : t.returns = s.returns) (hUsed : ∀ c, (s.proc c).state ≠ .unused →
      (t.proc c).state ≠ .unused ∧ (t.proc c).serial = (s.proc c).serial) : Kept t := by
    grind [Kept]
  cases e with
  | fork p np | forkFails p np =>
    obtain ⟨⟨-, -, hUnused⟩, ⟨⟩⟩ := ite_none_right_eq_some.mp hNext
    refine hFrame rfl rfl fun c hc => ?_
    have hne : c ≠ np := fun hEq => hc (hEq ▸ hUnused)
    exact ⟨fun hFree => hc ((if_neg hne).symm.trans hFree), by first | exact if_neg hne | rfl⟩
  | exit p status =>
    obtain ⟨⟨hRun, -⟩, hExit⟩ := ite_none_right_eq_some.mp hNext
    obtain ⟨-, ⟨⟩⟩ := Option.ite_none_left_eq_some.mp hExit
    rintro x (_ | ⟨_, hx⟩)
    · exact .inl ⟨p, by simp [Sys.goto, hRun]⟩
    · exact h x hx
  | step p copyout =>
    obtain ⟨-, hAdvance⟩ := ite_none_right_eq_some.mp hNext
    cases advance_move hAdvance with
    | reap addr c havekids hPc hChild hZombie =>
      intro x hx
      rcases h x hx with ⟨d, hd, hn⟩ | ⟨r, hr, hn⟩
      · by_cases hdc : d = c
        · exact .inr ⟨_, List.mem_cons_self, hdc ▸ hn⟩
        · exact .inl ⟨d, fun hFree => hd ((if_neg hdc).symm.trans hFree), hn⟩
      · exact .inr ⟨r, List.mem_cons_of_mem _ hr, hn⟩
    | _ => apply hFrame <;> grind [Sys.wakeOne]
  | _ => apply hFrame <;> grind [Sys.next]

/-- No exit is lost or reported twice: a process that has called `kexit` has one slot, or one `kwait` has returned it. -/
theorem exit_reported_once {s : Sys} (h : s.Reaches) {x : Nat × Int} (hx : x ∈ s.exits) :
    Xor (∃! c, (s.proc c).state ≠ .unused ∧ (s.proc c).serial = x.1) (∃! r, r ∈ s.returns ∧ r.child = x.1) := by
  have hLedger := h.protocol.2.2
  have hKept : Kept s := h.invariant (fun s hs => by simp [Kept, hs.rest]) fun _ _ _ hs _ hNext => next_kept hs hNext
  rcases hKept x hx with ⟨c, hc, hn⟩ | ⟨r, hr, hn⟩
  · refine .inl ⟨⟨c, ⟨hc, hn⟩, fun d hd => hLedger.distinct d c hd.1 hc (hd.2.trans hn.symm)⟩, ?_⟩
    rintro ⟨r, ⟨hr, hEq⟩, -⟩
    exact (hLedger.gone r hr).2 c hc (hn.trans hEq.symm)
  · refine .inr ⟨⟨r, ⟨hr, hn⟩, fun r' hr' => ?_⟩, ?_⟩
    · exact List.inj_on_of_nodup_map hLedger.returned hr'.1 hr (hr'.2.trans hn.symm)
    · rintro ⟨c, ⟨hc, hEq⟩, -⟩
      exact (hLedger.gone r hr).2 c hc (hEq.trans hn.symm)

theorem exit_reported_once_status : ∃ s : Sys, s.Reaches ∧
    Xor (∃! c, (s.proc c).state ≠ .unused ∧ (s.proc c).serial = 1) (∃! r, r ∈ s.returns ∧ r.child = 1) := by
  obtain ⟨s, hs, hTest⟩ : ∃ s : Sys, s.Reaches ∧ decide ((1, 7) ∈ s.exits) = true :=
    Transition.Reachable.exists_of_run (fun _ _ _ h => h) Sample.forkExitWait (fun _ _ _ => trivial)
      (.start Sample.fresh_fresh) (by decide +kernel)
  exact ⟨s, hs, exit_reported_once hs (of_decide_eq_true hTest)⟩

end Xv6K230.Wait
