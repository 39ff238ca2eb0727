import Xv6K230.Process.Running

/-! # No process on two CPUs

Every step keeps the invariant, so it holds in every state that any interleaving of the
CPUs reaches.
-/

namespace Xv6K230.Smp

variable {n : Nat} {s t : Sys n} {c : Fin n} {p q i : Pid} {x y : Exec} {k : Pc}

namespace Like

lemma sched {l m : Loop} (hGiven : (Exec.sched m).given = (Exec.sched l).given)
    (hTaken : ∀ p, (Exec.sched m).taken = some p → (Exec.sched l).taken = some p) : Like (.sched l) (.sched m) :=
  ⟨rfl, rfl, rfl, hGiven, fun p hp => ⟨hTaken p hp, rfl⟩⟩

lemma thread {a b : Phase} (hActive : (Exec.thread p i b).active = (Exec.thread p i a).active)
    (hLeaving : (Exec.thread p i b).leaving = (Exec.thread p i a).leaving) : Like (.thread p i a) (.thread p i b) :=
  ⟨rfl, hActive, hLeaving, rfl, nofun⟩

end Like

attribute [grind =] Sys.setParent

attribute [local grind] Exec.shown

namespace Inv

lemma loop_next (h : Inv s) {l : Loop} (hx : (s.cpu c).exec = .sched l) (hNext : s.loop c l = some t) : Inv t := by
  have hShown : (s.cpu c).proc = (Exec.sched l).shown := by
    rw [h.shown, hx]
  cases l with
  | scan j =>
    dsimp only [Sys.loop] at hNext
    split at hNext
    · exact h.acquire hNext hx rfl rfl rfl (.sched rfl nofun) (.sched _ _)
    · cases hNext
      exact h.relabel hx rfl hShown rfl (.sched rfl nofun) (.sched _ _)
  | locked p =>
    dsimp only [Sys.loop] at hNext
    split at hNext
    · rename_i hState
      cases hNext
      exact h.choose hx hState
    · cases hNext
      exact h.release hx rfl rfl rfl (.sched rfl nofun) (.sched _ _)
  | chosen p =>
    cases hNext
    exact h.relabel hx rfl rfl rfl (.sched rfl nofun) (.sched _ _)
  | saving p k =>
    dsimp only [Sys.loop] at hNext
    split at hNext
    · cases hNext
      exact h.relabel hx rfl hShown rfl (.sched rfl nofun) (.sched _ _)
    · cases hNext
      exact h.relabel hx rfl hShown rfl (.sched rfl nofun) (.sched _ _)
  | loading p k =>
    dsimp only [Sys.loop] at hNext
    split at hNext
    · cases hNext
      exact h.relabel hx rfl hShown rfl (.sched rfl nofun) (.sched _ _)
    · cases hNext
      exact h.enter hx
  | back p =>
    cases hNext
    exact h.relabel hx rfl rfl rfl (.sched rfl fun _ hp => hp) (.sched _ _)
  | cleared p =>
    cases hNext
    exact h.release hx rfl rfl rfl (.sched rfl nofun) (.sched _ _)
  | wakeup chan j =>
    dsimp only [Sys.loop] at hNext
    split at hNext
    · exact h.acquire hNext hx rfl rfl rfl (.sched rfl nofun) (.sched _ _)
    · cases hNext
      exact h.relabel hx rfl hShown rfl (.sched rfl nofun) (.sched _ _)
  | holding chan j q =>
    cases hNext
    have hWake : Inv (s.wakeOne chan q) := h.wakeOne hx rfl rfl rfl rfl
    have hCpu : (s.wakeOne chan q).cpu = s.cpu := by
      unfold Sys.wakeOne
      split <;> rfl
    exact hWake.release (x := .sched (.holding chan j q)) (by rw [hCpu]; exact hx) rfl rfl rfl (.sched rfl nofun) (.sched _ _)

section

variable (h : Inv s) (hx : (s.cpu c).exec = .thread p i .run)

include h hx

lemma goOn (hk : k.child = none) : Inv (s.goto p k) := by
  apply h.goto (c := c) (by rw [hx]; rfl) <;> grind

lemma fitsRun {ph : Phase} (hSaving : ∀ k, ph ≠ .saving k) (hLoading : ∀ k, ph ≠ .loading k)
    (hTarget : ∀ q np, ph = .holding q → (s.proc p).pc = .adopted np → q = np) : Fits s (.thread p i ph) := by
  have hLoop := h.loop c p i _ hx
  constructor <;> grind

lemma acquireOther (hTarget : ∀ np, (s.proc p).pc = .adopted np → q = np)
    (hNext : s.acquire c q (.thread p i (.holding q)) = some t) : Inv t := by
  refine h.acquire hNext hx rfl rfl rfl (.thread rfl rfl) (h.fitsRun hx nofun nofun ?_)
  rintro r np ⟨⟩
  exact hTarget np

lemma acquireOwn {l : Leave} (hNext : s.acquire c p (.thread p i (.locked l)) = some t) : Inv t :=
  h.acquire hNext hx rfl rfl rfl (.thread rfl rfl) (h.fitsRun hx nofun nofun nofun)

lemma call_next (hNext : s.call c p i = some t) : Inv t := by
  have hWait : ∀ w, Inv (s.setWaitLock w) := fun w => h.congr rfl (fun _ => rfl) fun _ => Alike.refl
  have hParent : ∀ r w, Inv (s.setParent r w) := by
    intro r w
    apply h.congr (t := s.setParent r w) rfl (by grind)
    intro r'
    constructor <;> grind
  unfold Sys.call at hNext
  split at hNext
  · cases hNext
  · cases hNext
  · cases hNext
  · rename_i chan j ret hPc
    have hGoto : ∀ k : Pc, k.child = ret.child → Inv (s.goto p k) := by
      intro k hk
      apply h.goto (c := c) (by rw [hx]; rfl) <;> grind
    split at hNext
    · split at hNext
      · cases hNext
        exact hGoto _ rfl
      · exact h.acquireOther hx (by rw [hPc]; exact nofun) hNext
    · cases hNext
      exact hGoto _ rfl
  · rename_i hPc
    split at hNext
    · exact h.acquireOther hx (by rw [hPc]; exact nofun) hNext
    · cases hNext
      exact h.goOn hx rfl
  · rename_i hPc
    split at hNext
    · exact h.acquireOther hx (by rw [hPc]; exact nofun) hNext
    · cases hNext
      exact h.goOn hx rfl
  · rename_i np hPc
    obtain ⟨-, ⟨⟩⟩ := Option.ite_none_right_eq_some.mp hNext
    apply (hParent np (some p)).goto (c := c) <;> grind
  · rename_i np hPc
    exact h.acquireOther hx (by grind) hNext
  · obtain ⟨-, ⟨⟩⟩ := Option.ite_none_right_eq_some.mp hNext
    exact (hWait (some p)).goOn hx rfl
  · split at hNext
    · split at hNext
      · cases hNext
        exact (hParent _ _).goOn hx rfl
      · cases hNext
        exact h.goOn hx rfl
    · cases hNext
      exact h.goOn hx rfl
  · exact h.acquireOwn hx hNext
  · obtain ⟨-, ⟨⟩⟩ := Option.ite_none_right_eq_some.mp hNext
    exact (hWait (some p)).goOn hx rfl
  · rename_i hPc
    split at hNext
    · split at hNext
      · exact h.acquireOther hx (by rw [hPc]; exact nofun) hNext
      · cases hNext
        exact h.goOn hx rfl
    · split at hNext
      · cases hNext
      · split at hNext
        · cases hNext
          exact (hWait none).goOn hx rfl
        · cases hNext
          exact h.goOn hx rfl
  · exact h.acquireOwn hx hNext

end

lemma cpu_look (s : Sys n) (p q : Pid) (ok : Bool) : (s.look p q ok).cpu = s.cpu := by
  have hWake : ∀ chan, (s.wakeOne chan q).cpu = s.cpu := by
    intro chan
    unfold Sys.wakeOne
    split <;> rfl
  unfold Sys.look
  split
  · exact hWake _
  · split <;> rfl
  · split
    · split <;> rfl
    · rfl
  · rfl
  · split
    · split <;> rfl
    · rfl
  · rfl

lemma resume (h : Inv s) (hx : (s.cpu c).exec = .thread p i .resumed) (hk : (s.proc p).pc.resume = some k)
    {f : Proc n → Proc n} (hf : ∀ v, (f v).state = v.state ∧ (f v).saved = v.saved ∧ (f v).lock = none ∧ (f v).pc = k) :
    Inv ((s.mapProc p f).setExec c (.thread p i .run)) := by
  obtain ⟨u, hu⟩ : ∃ u, u = (s.setLock p none).setExec c (.thread p i .run) := ⟨_, rfl⟩
  have hLoop := h.loop c p i _ hx
  have hFits : Fits s (.thread p i .run) := by
    constructor <;> grind
  have hFree : Inv u := hu ▸ h.release hx rfl rfl rfl (.thread rfl rfl) hFits
  have hChild : ∀ r, k.child = some r → (s.proc p).pc.child = some r := by
    intro r hr
    cases hPc : (s.proc p).pc <;> rw [hPc] at hk <;> cases hk <;> exact hr
  have hGoto : Inv (u.goto p k) := by
    apply hFree.goto (c := c) <;> grind
  have hAlike : ∀ r, Alike ((u.goto p k).proc r) (((s.mapProc p f).setExec c (.thread p i .run)).proc r) := by
    intro r
    constructor <;> grind
  exact hGoto.congr (by rw [hu]; rfl) (by grind) hAlike

lemma thread_next {ph : Phase} {ok : Bool} (h : Inv s) (hx : (s.cpu c).exec = .thread p i ph)
    (hNext : s.thread c p i ok ph = some t) : Inv t := by
  have hLoop := h.loop c p i ph hx
  have hShown : (s.cpu c).proc = some p := by
    rw [h.shown, hx]
    rfl
  cases ph with
  | run => exact h.call_next hx hNext
  | holding q =>
    cases hNext
    have hLook := h.look hx ok
    have hCpu : ((s.look p q ok).cpu c).exec = .thread p i (.holding q) := by
      rw [cpu_look]
      exact hx
    apply hLook.release (y := .thread p i .run) hCpu rfl rfl rfl (.thread rfl rfl)
    constructor <;> grind
  | locked l =>
    cases hNext
    have hLeave := h.leave hx (f := fun v => { v with state := l.state, chan := l.chan v.chan, saved := 0 })
      fun v => ⟨rfl, rfl, rfl, rfl⟩
    split
    · exact hLeave.congr rfl (fun _ => rfl) fun _ => Alike.refl
    · exact hLeave
  | saving k =>
    dsimp only [Sys.thread] at hNext
    split at hNext
    · rename_i hk
      cases hNext
      exact h.store hx hk
    · rename_i hk
      cases hNext
      apply h.relabel (y := .thread p i (.loading 0)) hx rfl hShown rfl (.thread rfl rfl)
      obtain ⟨hSaved, hLe⟩ := h.saving c p i k hx
      constructor <;> grind
  | loading k =>
    dsimp only [Sys.thread] at hNext
    split at hNext
    · cases hNext
      apply h.relabel (y := .thread p i (.loading (k + 1))) hx rfl hShown rfl (.thread rfl rfl)
      have hSaved := h.loading c p i k hx
      constructor <;> grind
    · cases hNext
      exact h.handBack hx
  | resumed =>
    dsimp only [Sys.thread] at hNext
    split at hNext
    · cases hNext
    · rename_i k hk
      cases hNext
      exact h.resume hx hk fun v => ⟨rfl, rfl, rfl, rfl⟩

lemma idle (hIdle : s.idle c = some p) : ∃ i, (s.cpu c).exec = .thread p i .run := by
  unfold Sys.idle at hIdle
  split at hIdle
  · rename_i p' i hx
    split at hIdle
    · cases hIdle
      exact ⟨i, hx⟩
    · cases hIdle
  · cases hIdle

lemma next {e : Event n} (h : Inv s) (hNext : s.next e = some t) : Inv t := by
  cases e with
  | step c ok =>
    dsimp only [Sys.next] at hNext
    split at hNext
    · rename_i l hx
      exact h.loop_next hx hNext
    · rename_i p i ph hx
      exact h.thread_next hx hNext
  | yield c =>
    dsimp only [Sys.next] at hNext
    split at hNext
    · rename_i p i hx
      split at hNext
      · exact h.acquireOwn hx hNext
      · cases hNext
    · cases hNext
  | sleep c chan =>
    dsimp only [Sys.next] at hNext
    split at hNext
    · rename_i p i hx
      split at hNext
      · exact (h.goOn hx rfl).acquireOwn hx hNext
      · cases hNext
    · cases hNext
  | wakeup c chan =>
    dsimp only [Sys.next] at hNext
    split at hNext
    · rename_i hx
      cases hNext
      have hShown : (s.cpu c).proc = none := by
        rw [h.shown, hx]
        rfl
      exact h.relabel hx rfl hShown rfl (.sched rfl (by rintro _ ⟨⟩)) (.sched _ _)
    · rename_i p i hx
      split at hNext
      · cases hNext
        apply h.goto (c := c) <;> grind
      · cases hNext
    · cases hNext
  | kill c pid =>
    obtain ⟨p, hp, rfl⟩ := Option.map_eq_some_iff.mp hNext
    obtain ⟨i, hx⟩ := idle hp
    exact h.goOn hx rfl
  | exit c =>
    obtain ⟨p, hp, hExit⟩ := Option.bind_eq_some_iff.mp hNext
    obtain ⟨i, hx⟩ := idle hp
    split at hExit
    · cases hExit
    · cases hExit
      exact h.goOn hx rfl
  | fork c =>
    obtain ⟨p, hp, rfl⟩ := Option.map_eq_some_iff.mp hNext
    obtain ⟨i, hx⟩ := idle hp
    exact h.goOn hx rfl
  | wait c =>
    obtain ⟨p, hp, rfl⟩ := Option.map_eq_some_iff.mp hNext
    obtain ⟨i, hx⟩ := idle hp
    exact h.goOn hx rfl

lemma shown_cases (h : Inv s) (hc : (s.cpu c).proc = some p) : (s.cpu c).exec.runs = some p ∨
    (s.cpu c).exec.given = some p ∨ (s.cpu c).exec.taken = some p := by
  rw [h.shown] at hc
  cases hx : (s.cpu c).exec with
  | sched l =>
    rw [hx] at hc
    cases l <;> first | exact .inr (.inl hc) | exact .inr (.inr hc)
  | thread q i ph =>
    rw [hx] at hc
    exact .inl hc

lemma shown_unique (h : Inv s) {d : Fin n} (hc : (s.cpu c).proc = some p) (hd : (s.cpu d).proc = some p) : c = d := by
  rcases h.shown_cases hc with hRun | hRest
  · rcases h.shown_cases hd with hRun' | hGiven | hTaken
    · exact h.unique c d p hRun hRun'
    · exact absurd hRun ((h.given d p hGiven).2 c)
    · exact absurd hRun ((h.taken d p hTaken).2 c)
  · have hHeld : (s.cpu c).exec.held = some p := hRest.elim Exec.held_of_given Exec.held_of_taken
    have hNone : ∀ e, (s.cpu e).exec.runs ≠ some p := hRest.elim (fun hr => (h.given c p hr).2) fun hr => (h.taken c p hr).2
    rcases h.shown_cases hd with hRun' | hRest'
    · exact absurd hRun' (hNone d)
    · exact h.holder hHeld (hRest'.elim Exec.held_of_given Exec.held_of_taken)

end Inv

lemma Sys.Reaches.inv (h : s.Reaches) : Inv s :=
  h.invariant (fun _ hFresh => hFresh.inv) fun _ _ _ hs _ hNext => hs.next hNext

/-- A CPU is between the assignment to `p->state` and the one to `c->proc` that belongs to it. -/
def Exec.switches : Exec → Option Pid
  | .sched (.chosen p) | .sched (.back p) | .thread p _ (.saving _) | .thread p _ (.loading _) => some p
  | _ => none

lemma Exec.switches_of_leaving (h : x.leaving = some p) : x.switches = some p := by
  revert h
  fun_cases leaving x <;> simp [switches]

lemma Exec.switches_of_taken (h : x.taken = some p) (hShown : x.shown = some p) : x.switches = some p := by
  revert h hShown
  fun_cases taken x <;> simp [shown, switches]

namespace Inv

lemma running_iff (h : Inv s) (hOutside : ∀ c, (s.cpu c).exec.switches ≠ some p) :
    (s.proc p).state = .running ↔ ∃ c, (s.cpu c).proc = some p := by
  constructor
  · intro hRun
    obtain ⟨c, hc⟩ := h.running p hRun
    have hNot := hOutside c
    refine ⟨c, ?_⟩
    rw [h.shown]
    cases hx : (s.cpu c).exec with
    | sched l =>
      rw [hx] at hc hNot
      rcases hc with hc | hc
      · cases hc
      · cases l <;> first | exact hc | exact absurd hc hNot | cases hc
    | thread q i ph =>
      rw [hx] at hc
      exact hc.resolve_right nofun
  · rintro ⟨c, hc⟩
    rcases h.shown_cases hc with hRun | hGiven | hTaken
    · rcases Exec.runs_iff.mp hRun with hActive | hLeaving
      · exact h.active c p hActive
      · exact absurd (Exec.switches_of_leaving hLeaving) (hOutside c)
    · exact (h.given c p hGiven).1
    · exact absurd (Exec.switches_of_taken hTaken ((h.shown c).symm.trans hc)) (hOutside c)

lemma switch (h : Inv s) {l : Loop} (hx : (s.cpu c).exec = .sched l) (hNext : s.loop c l = some t)
    (hTo : (t.cpu c).exec = .sched (.chosen p) ∨ (t.cpu c).exec.runs = some p) :
    ((t.cpu c).exec = .sched (.chosen p) → (s.proc p).state = .runnable) ∧ (s.proc p).saved = nregs ∧
      ∀ d, (s.cpu d).exec.runs ≠ some p := by
  cases l with
  | locked q =>
    dsimp only [Sys.loop] at hNext
    split at hNext
    · rename_i hState
      cases hNext
      obtain rfl : q = p := by simpa [Sys.setExec, Exec.runs] using hTo
      have hNone := h.not_runs (by rw [hx]; rfl) (by rw [hx]; exact nofun) (by rw [hState]; decide)
      exact ⟨fun _ => hState, h.saved q (by rw [hState]; decide) (by rw [hState]; decide) hNone, hNone⟩
    · cases hNext
      simp [Sys.setExec, Exec.runs] at hTo
  | loading q k =>
    dsimp only [Sys.loop] at hNext
    split at hNext
    · cases hNext
      simp [Sys.setExec, Exec.runs] at hTo
    · cases hNext
      obtain rfl : q = p := by simpa [Sys.setExec, Exec.runs] using hTo
      obtain ⟨hState, hNone⟩ := h.given c q (by rw [hx]; rfl)
      refine ⟨?_, h.saved q (by rw [hState]; decide) (by rw [hState]; decide) hNone, hNone⟩
      simp [Sys.setExec]
  | _ => grind [Sys.loop, Sys.acquire]

lemma frees {e : Event n} (h : Inv s) (hFrees : s.Frees e q) (d : Fin n) : (s.cpu d).exec.runs ≠ some q := by
  obtain ⟨c, ok, p, i, -, hx, hFree⟩ := hFrees
  have hState : (s.proc q).state ≠ .running := by
    rcases hFree with ⟨-, hs, -⟩ | ⟨-, hs, -⟩ <;> rw [hs] <;> decide
  have hRun : (s.proc p).state = .running := h.active c p (by rw [hx]; rfl)
  apply h.not_runs (c := c) (by rw [hx]; rfl) ?_ hState
  rw [hx]
  intro hr
  cases hr
  exact hState hRun

end Inv

/-- However the CPUs interleave, a process is the `c->proc` of at most one of them, and of one
exactly when it is RUNNING, except while a CPU is between its assignments to the two. A
scheduler begins to switch to a RUNNABLE process only, and arrives on a stack whose context
is complete and which no CPU is on. `freeproc` is applied to no process on its stack. -/
theorem runs_on_one_cpu {n : Nat} {s : Sys n} (h : s.Reaches) :
    (∀ c d p, (s.cpu c).proc = some p → (s.cpu d).proc = some p → c = d) ∧
    (∀ p, (∀ c, (s.cpu c).exec.switches ≠ some p) → ((s.proc p).state = .running ↔ ∃ c, (s.cpu c).proc = some p)) ∧
    (∀ c l t p, (s.cpu c).exec = .sched l → s.loop c l = some t →
      (t.cpu c).exec = .sched (.chosen p) ∨ (t.cpu c).exec.runs = some p →
      ((t.cpu c).exec = .sched (.chosen p) → (s.proc p).state = .runnable) ∧ (s.proc p).saved = nregs ∧
        ∀ d, (s.cpu d).exec.runs ≠ some p) ∧
    ∀ e q, s.Frees e q → ∀ d, (s.cpu d).exec.runs ≠ some q := by
  have hs := h.inv
  refine ⟨?_, ?_, ?_, ?_⟩
  · intro c d p hc hd
    exact hs.shown_unique hc hd
  · intro p hOutside
    exact hs.running_iff hOutside
  · intro c l t p hx hNext hTo
    exact hs.switch hx hNext hTo
  · intro e q hFrees
    exact hs.frees hFrees

namespace Sample

def init : Pid := ⟨0, nproc_pos⟩

def fresh : Sys 2 where
  proc := fun p => ⟨if p = init then .runnable else .unused, none, none, false, 1, none, .forkret, nregs⟩
  cpu := fun _ => ⟨none, .sched (.scan 0), 0⟩
  initproc := init
  waitLock := none
  nextpid := 2

lemma fresh_fresh : fresh.Fresh where
  cpus := fun _ => ⟨rfl, rfl⟩
  init := ⟨rfl, rfl⟩
  unused := fun _ hp => if_neg hp
  procs := fun _ => ⟨rfl, rfl⟩

/-- The first CPU takes the process; the second one finds its lock taken. -/
def choose : List (Event 2) := [.step 0 true, .step 0 true, .step 0 true]

def chosen : Sys 2 := (Transition.run Sys.next choose fresh).getD fresh

lemma chosen_reached : chosen.Reaches :=
  Transition.Reachable.of_run (fun _ _ _ h => h) choose (fun _ _ _ => trivial) (.start fresh_fresh) rfl

end Sample

open Sample in
theorem runs_on_one_cpu_first : ∃ s : Sys 2, s.Reaches ∧ (s.proc init).state = .running ∧ (s.cpu 0).proc = some init ∧
    ∀ d, (s.cpu d).proc = some init → 0 = d :=
  ⟨chosen, chosen_reached, rfl, rfl, fun d hd => (runs_on_one_cpu chosen_reached).1 0 d init rfl hd⟩

end Xv6K230.Smp
