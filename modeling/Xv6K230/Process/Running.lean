import Xv6K230.Process.Switch

/-! # The steps of the CPUs keep the invariant

Most steps only move a CPU from one place to the next, with or without a lock; the others change the state of one
process under its lock.
-/

namespace Xv6K230.Smp

variable {n : Nat} {s t : Sys n} {c : Fin n} {p q i : Pid} {x y : Exec} {k : Pc}

namespace Sys

@[simp, grind =] lemma proc_mapProc (s : Sys n) (p : Pid) (f : Proc n → Proc n) (q : Pid) :
    (s.mapProc p f).proc q = if q = p then f (s.proc q) else s.proc q := rfl

@[simp, grind =] lemma cpu_mapProc (s : Sys n) (p : Pid) (f : Proc n → Proc n) (d : Fin n) : (s.mapProc p f).cpu d = s.cpu d := rfl

@[simp, grind =] lemma proc_mapCpu (s : Sys n) (c : Fin n) (f : Cpu → Cpu) (q : Pid) : (s.mapCpu c f).proc q = s.proc q := rfl

@[simp, grind =] lemma cpu_mapCpu (s : Sys n) (c : Fin n) (f : Cpu → Cpu) (d : Fin n) :
    (s.mapCpu c f).cpu d = if d = c then f (s.cpu d) else s.cpu d := rfl

@[simp, grind =] lemma proc_setWaitLock (s : Sys n) (l : Option Pid) (q : Pid) : (s.setWaitLock l).proc q = s.proc q := rfl

@[simp, grind =] lemma proc_allocSlot (s : Sys n) (q r : Pid) : (s.allocSlot q).proc r =
    if r = q then { s.proc r with pid := s.nextpid, state := .used, pc := .forkret, saved := nregs } else s.proc r := rfl

@[simp, grind =] lemma cpu_allocSlot (s : Sys n) (q : Pid) (d : Fin n) : (s.allocSlot q).cpu d = s.cpu d := rfl

end Sys

attribute [grind =] Sys.setExec Sys.setState Sys.setSaved Sys.setLock Sys.goto Sys.freeproc Sys.killOne

attribute [grind] Exec.runs Exec.given Exec.taken Exec.held Exec.active Exec.leaving Exec.shown Pc.child

structure Alike (v w : Proc n) : Prop where
  state : w.state = v.state
  saved : w.saved = v.saved
  pc : w.pc = v.pc

lemma Alike.refl {v : Proc n} : Alike v v := ⟨Eq.refl _, Eq.refl _, Eq.refl _⟩

structure Like (x y : Exec) : Prop where
  runs : y.runs = x.runs
  active : y.active = x.active
  leaving : y.leaving = x.leaving
  given : y.given = x.given
  taken : ∀ p, y.taken = some p → x.taken = some p ∧ y.runs = none

structure Fits (s : Sys n) (y : Exec) : Prop where
  loop : ∀ p i ph, y = .thread p i ph → i = p
  saving : ∀ p i k, y = .thread p i (.saving k) → (s.proc p).saved = k ∧ k ≤ nregs
  loading : ∀ p i k, y = .thread p i (.loading k) → (s.proc p).saved = nregs
  target : ∀ p i q np, y = .thread p i (.holding q) → (s.proc p).pc = .adopted np → q = np

lemma Fits.sched (s : Sys n) (l : Loop) : Fits s (.sched l) := ⟨nofun, nofun, nofun, nofun⟩

namespace Inv

lemma fits (h : Inv s) (hx : (s.cpu c).exec = x) : Fits s x := by
  subst hx
  exact ⟨h.loop c, h.saving c, h.loading c, h.target c⟩

lemma quiet (h : Inv s) (hx : (s.cpu c).exec = x) (hy : (t.cpu c).exec = y) (hOthers : ∀ d, d ≠ c → t.cpu d = s.cpu d)
    (hShown : (t.cpu c).proc = y.shown) (hLike : Like x y) (hFits : Fits s y)
    (hLock : ∀ q, (t.proc q).lock = if y.held = some q then some c else if x.held = some q then none else (s.proc q).lock)
    (hFree : ∀ q, y.held = some q → x.held = some q ∨ (s.proc q).lock = none)
    (hAlike : ∀ q, Alike (s.proc q) (t.proc q)) : Inv t := by
  have hState := fun q => (hAlike q).state
  have hSaved := fun q => (hAlike q).saved
  have hPc := fun q => (hAlike q).pc
  have hOnly : ∀ p, y.given = some p → y.runs = none := by
    intro p hp
    revert hp
    fun_cases Exec.given y <;> simp [Exec.runs]
  obtain ⟨hRuns, hActive, hLeaving, hGiven, hTaken⟩ := hLike
  obtain ⟨hLoop, hSaving, hLoading, hTarget⟩ := hFits
  apply h.respects (c := c) (x := x) (y := y)
  constructor <;> grind [h.active c, h.leaving c, h.given c, h.taken c]

lemma relabel (h : Inv s) (hx : (s.cpu c).exec = x) {f : Cpu → Cpu} (hy : (f (s.cpu c)).exec = y)
    (hShown : (f (s.cpu c)).proc = y.shown) (hHeld : y.held = x.held) (hLike : Like x y) (hFits : Fits s y) :
    Inv (s.mapCpu c f) := by
  apply h.quiet (t := s.mapCpu c f) hx (y := y) _ _ _ hLike hFits <;> grind [h.lock c, Alike.refl]

lemma acquire (h : Inv s) (hNext : s.acquire c q y = some t) (hx : (s.cpu c).exec = x) (hNone : x.held = none)
    (hHeld : y.held = some q) (hShown : y.shown = x.shown) (hLike : Like x y) (hFits : Fits s y) : Inv t := by
  obtain ⟨hFree, ⟨⟩⟩ := Option.ite_none_right_eq_some.mp hNext
  have hAlike : ∀ r, Alike (s.proc r) (((s.setLock q (some c)).setExec c y).proc r) := by
    intro r
    constructor <;> grind
  apply h.quiet (t := (s.setLock q (some c)).setExec c y) hx (y := y) _ _ _ hLike hFits <;> grind [h.shown c]

lemma release (h : Inv s) (hx : (s.cpu c).exec = x) (hHeld : x.held = some q) (hNone : y.held = none)
    (hShown : y.shown = x.shown) (hLike : Like x y) (hFits : Fits s y) : Inv ((s.setLock q none).setExec c y) := by
  have hAlike : ∀ r, Alike (s.proc r) (((s.setLock q none).setExec c y).proc r) := by
    intro r
    constructor <;> grind
  apply h.quiet (t := (s.setLock q none).setExec c y) hx (y := y) _ _ _ hLike hFits <;> grind [h.shown c]

lemma congr (h : Inv s) (hCpu : t.cpu = s.cpu) (hLock : ∀ q, (t.proc q).lock = (s.proc q).lock)
    (hAlike : ∀ q, Alike (s.proc q) (t.proc q)) : Inv t := by
  have hState := fun q => (hAlike q).state
  have hSaved := fun q => (hAlike q).saved
  have hPc := fun q => (hAlike q).pc
  constructor
  · simpa only [hCpu, hLock] using h.lock
  · simpa only [hCpu] using h.shown
  · simpa only [hCpu] using h.loop
  · simpa only [hCpu] using h.unique
  · simpa only [hCpu, hState] using h.active
  · simpa only [hCpu, hState] using h.leaving
  · simpa only [hCpu, hState] using h.given
  · simpa only [hCpu, hState] using h.taken
  · simpa only [hCpu, hState] using h.running
  · simpa only [hCpu, hState, hSaved] using h.saved
  · simpa only [hCpu, hSaved] using h.saving
  · simpa only [hCpu, hSaved] using h.loading
  · simpa only [hState, hPc] using h.child
  · simpa only [hPc] using h.only
  · simpa only [hCpu, hPc] using h.target

lemma goto (h : Inv s) (hRun : (s.cpu c).exec.active = some p) (hChild : ∀ q, k.child = some q → (s.proc p).pc.child = some q)
    (hTarget : ∀ i q np, (s.cpu c).exec = .thread p i (.holding q) → k = .adopted np → q = np) : Inv (s.goto p k) := by
  have hCpu : (s.goto p k).cpu = s.cpu := rfl
  have hRest : ∀ q, ((s.goto p k).proc q).state = (s.proc q).state ∧ ((s.goto p k).proc q).saved = (s.proc q).saved ∧
      ((s.goto p k).proc q).lock = (s.proc q).lock := by grind
  have hState := fun q => (hRest q).1
  have hSaved := fun q => (hRest q).2.1
  have hLock := fun q => (hRest q).2.2
  -- what the threads are about to finish has not become more
  have hLess : ∀ q r, ((s.goto p k).proc q).pc.child = some r → (s.proc q).pc.child = some r := by
    intro q r hr
    rcases eq_or_ne q p with rfl | hq <;> grind
  constructor
  · simpa only [hCpu, hLock] using h.lock
  · exact h.shown
  · exact h.loop
  · exact h.unique
  · simpa only [hCpu, hState] using h.active
  · simpa only [hCpu, hState] using h.leaving
  · simpa only [hCpu, hState] using h.given
  · simpa only [hCpu, hState] using h.taken
  · simpa only [hCpu, hState] using h.running
  · simpa only [hCpu, hState, hSaved] using h.saved
  · simpa only [hCpu, hSaved] using h.saving
  · simpa only [hCpu, hSaved] using h.loading
  · grind [h.child]
  · exact fun q q' r hr hr' => h.only q q' r (hLess q r hr) (hLess q' r hr')
  · intro d q i r np hd hk
    rcases eq_or_ne q p with rfl | hq
    · have hSame : d = c := h.unique d c q (by rw [hCpu] at hd; rw [hd]; rfl) (Exec.runs_iff.mpr (.inl hRun))
      grind
    · grind [h.target d q i r np]

/-- A process that is not RUNNING changes under the lock of a CPU that neither runs it nor hands it over. -/
lemma change (h : Inv s) (hx : (s.cpu c).exec = x) (hHeld : x.held = some q) (hRuns : x.runs ≠ some q)
    (hGiven : x.given = none) (hTaken : x.taken = none) (hCpu : t.cpu = s.cpu)
    (hLock : ∀ r, (t.proc r).lock = (s.proc r).lock)
    (hRest : ∀ r, r ≠ q → (t.proc r).state = (s.proc r).state ∧ (t.proc r).saved = (s.proc r).saved)
    (hOld : (s.proc q).state ≠ .running) (hNew : (t.proc q).state ≠ .running)
    (hSaved : (t.proc q).saved = nregs ∨ (t.proc q).state = .unused ∨ (t.proc q).state = .zombie ∨
      ((t.proc q).saved = (s.proc q).saved ∧ (s.proc q).state ≠ .unused ∧ (s.proc q).state ≠ .zombie))
    (hPc : ∀ r, (t.proc r).pc ≠ (s.proc r).pc → x.runs = some r ∨ (s.proc r).state = .unused)
    (hChild : ∀ r r', (t.proc r).pc.child = some r' → (s.proc r).pc.child = some r' ∨
      (x.runs = some r ∧ (s.proc r').state = .unused ∧ (t.proc r').state = .used))
    (hUsed : (s.proc q).state = .used → (t.proc q).state = .used ∨
      ∃ r, (s.proc r).pc.child = some q ∧ (t.proc r).pc.child ≠ some q)
    (hTarget : ∀ p i r np, x = .thread p i (.holding r) → (t.proc p).pc = .adopted np → r = np) : Inv t := by
  have hFits := h.fits hx
  have hLeave : x.leaving ≠ some q := fun hl => hRuns (Exec.runs_iff.mpr (.inr hl))
  have hState := fun r hr => (hRest r hr).1
  have hSame := fun r hr => (hRest r hr).2
  apply h.respects (c := c) (x := x) (y := x)
  constructor <;>
    grind [h.shown c, h.lock c, h.active c, h.leaving c, hFits.loop, hFits.saving, hFits.loading, Exec.runs_iff]

lemma handle (h : Inv s) (hx : (s.cpu c).exec = x) (hy : (t.cpu c).exec = y) (hOthers : ∀ d, d ≠ c → t.cpu d = s.cpu d)
    (hShown : (t.cpu c).proc = y.shown) (hLoop : ∀ q i ph, y = .thread q i ph → i = q)
    (hHeld : x.held = some p ∧ y.held = some p) (hLock : ∀ r, (t.proc r).lock = (s.proc r).lock)
    (hPc : ∀ r, (t.proc r).pc = (s.proc r).pc)
    (hRest : ∀ r, r ≠ p → (t.proc r).state = (s.proc r).state ∧ (t.proc r).saved = (s.proc r).saved)
    (hOnly : ∀ r, x.runs = some r ∨ x.given = some r ∨ y.runs = some r ∨ y.given = some r ∨ y.taken = some r → r = p)
    (hState : (s.proc p).state ≠ .running ∨ x.runs = some p ∨ (t.proc p).state = (s.proc p).state)
    (hUsed : (s.proc p).state ≠ .used) (hRuns : y.runs = some p → x.runs = some p ∨ x.given = some p)
    (hActive : y.active = some p → (t.proc p).state = .running)
    (hLeaving : y.leaving = some p →
      (t.proc p).state = .runnable ∨ (t.proc p).state = .sleeping ∨ (t.proc p).state = .zombie)
    (hGiven : y.given = some p → (t.proc p).state = .running ∧ y.runs = none ∧
      (x.given = some p ∨ (x.runs = none ∧ (s.proc p).state = .runnable)))
    (hTaken : y.taken = some p → (t.proc p).state ≠ .running ∧ y.runs = none ∧ (x.taken = some p ∨ x.leaving = some p))
    (hRunning : (t.proc p).state = .running → y.runs = some p ∨ y.given = some p)
    (hSaved : y.runs ≠ some p → (t.proc p).saved = nregs ∨
      ((t.proc p).saved = (s.proc p).saved ∧ (s.proc p).state ≠ .unused ∧ (s.proc p).state ≠ .zombie ∧ x.runs ≠ some p))
    (hSaving : ∀ i k, y = .thread p i (.saving k) → (t.proc p).saved = k ∧ k ≤ nregs)
    (hLoading : ∀ i k, y = .thread p i (.loading k) → (t.proc p).saved = nregs)
    (hTarget : ∀ q i r, y ≠ .thread q i (.holding r)) : Inv t := by
  apply h.respects (c := c) (x := x) (y := y)
  constructor <;> grind [h.lock c, Exec.runs_iff]

lemma choose (h : Inv s) (hx : (s.cpu c).exec = .sched (.locked p)) (hState : (s.proc p).state = .runnable) :
    Inv ((s.setState p .running).setExec c (.sched (.chosen p))) := by
  apply h.handle hx (p := p) (y := .sched (.chosen p)) <;> grind [h.shown c]

lemma enter {k : Nat} (h : Inv s) (hx : (s.cpu c).exec = .sched (.loading p k)) :
    Inv ((s.setSaved p 0).setExec c (.thread p p .resumed)) := by
  have hState := h.given c p (by rw [hx]; rfl)
  apply h.handle hx (p := p) (y := .thread p p .resumed) <;> grind [h.shown c]

lemma leave {l : Leave} (h : Inv s) (hx : (s.cpu c).exec = .thread p i (.locked l)) {f : Proc n → Proc n}
    (hf : ∀ v, (f v).state = l.state ∧ (f v).saved = 0 ∧ (f v).lock = v.lock ∧ (f v).pc = v.pc) :
    Inv ((s.mapProc p f).setExec c (.thread p i (.saving 0))) := by
  have hLoop := h.loop c p i _ hx
  have hState : (s.proc p).state = .running := h.active c p (by rw [hx]; rfl)
  have hNew : l.state = .runnable ∨ l.state = .sleeping ∨ l.state = .zombie := by cases l <;> simp [Leave.state]
  apply h.handle hx (p := p) (y := .thread p i (.saving 0)) <;> grind [h.shown c]

lemma store {k : Nat} (h : Inv s) (hx : (s.cpu c).exec = .thread p i (.saving k)) (hk : k < nregs) :
    Inv ((s.setSaved p (k + 1)).setExec c (.thread p i (.saving (k + 1)))) := by
  have hLoop := h.loop c p i _ hx
  have hState := h.leaving c p (by rw [hx]; rfl)
  apply h.handle hx (p := p) (y := .thread p i (.saving (k + 1))) <;> grind [h.shown c]

lemma handBack {k : Nat} (h : Inv s) (hx : (s.cpu c).exec = .thread p i (.loading k)) :
    Inv (s.setExec c (.sched (.back i))) := by
  obtain rfl : i = p := h.loop c p i _ hx
  have hState := h.leaving c i (by rw [hx]; rfl)
  have hSaved := h.loading c i i k hx
  apply h.handle hx (p := i) (y := .sched (.back i)) <;> grind [h.shown c]

lemma wake (h : Inv s) (hx : (s.cpu c).exec = x) (hHeld : x.held = some q) (hGiven : x.given = none) (hTaken : x.taken = none)
    (hLeaving : x.leaving = none) (hState : (s.proc q).state = .sleeping) {f : Proc n → Proc n}
    (hf : ∀ v, v.state = .sleeping → (f v).state = .runnable ∧ (f v).saved = v.saved ∧ (f v).lock = v.lock ∧ (f v).pc = v.pc) :
    Inv (s.mapProc q f) := by
  have hTarget := (h.fits hx).target
  have hRuns : x.runs ≠ some q := by grind [Exec.runs_iff, h.active c]
  apply h.change (t := s.mapProc q f) hx hHeld hRuns hGiven hTaken rfl <;> grind

lemma wakeOne {chan : Option Wait.Chan} (h : Inv s) (hx : (s.cpu c).exec = x) (hHeld : x.held = some q) (hGiven : x.given = none)
    (hTaken : x.taken = none) (hLeaving : x.leaving = none) : Inv (s.wakeOne chan q) := by
  unfold Sys.wakeOne
  split
  · rename_i hs
    exact h.wake hx hHeld hGiven hTaken hLeaving hs.1 fun v _ => ⟨rfl, rfl, rfl, rfl⟩
  · exact h

lemma killOne (h : Inv s) (hx : (s.cpu c).exec = x) (hHeld : x.held = some q) (hGiven : x.given = none)
    (hTaken : x.taken = none) (hLeaving : x.leaving = none) : Inv (s.killOne q) := by
  by_cases hs : (s.proc q).state = .sleeping
  · exact h.wake hx hHeld hGiven hTaken hLeaving hs fun v hv => ⟨if_pos hv, rfl, rfl, rfl⟩
  · have hAlike : ∀ r, Alike (s.proc r) ((s.killOne q).proc r) := by
      intro r
      constructor <;> grind
    exact h.congr rfl (by grind) hAlike

section

variable (h : Inv s) (hx : (s.cpu c).exec = .thread p i (.holding q))

include h hx

lemma free {f : Proc n → Proc n} (hState : (s.proc q).state = .unused ∨ (s.proc q).state = .zombie)
    (hf : ∀ v, (f v).state = .unused ∧ (f v).lock = v.lock)
    (hPc : (s.proc q).state = .unused ∧ (f (s.proc q)).pc = .forkret ∨ (f (s.proc q)).pc = (s.proc q).pc) :
    Inv (s.mapProc q f) := by
  have hRun : (s.proc p).state = .running := h.active c p (by rw [hx]; rfl)
  have hTarget := h.target c p i q
  apply h.change (t := s.mapProc q f) hx rfl <;> grind

lemma take (hState : (s.proc q).state = .unused) : Inv ((s.allocSlot q).goto p (.forked q)) := by
  have hRun : (s.proc p).state = .running := h.active c p (by rw [hx]; rfl)
  apply h.change (t := (s.allocSlot q).goto p (.forked q)) hx rfl <;> grind

lemma ready {np : Pid} (hPc : (s.proc p).pc = .adopted np) : Inv ((s.setState q .runnable).goto p .user) := by
  obtain rfl : q = np := h.target c p i q np hx hPc
  have hState : (s.proc q).state = .used := h.child p q (by rw [hPc]; rfl)
  have hRun : (s.proc p).state = .running := h.active c p (by rw [hx]; rfl)
  apply h.change (t := (s.setState q .runnable).goto p .user) hx rfl <;> grind

lemma look (ok : Bool) : Inv (s.look p q ok) := by
  have hActive : (s.cpu c).exec.active = some p := by
    rw [hx]
    rfl
  have hGoto : ∀ {t : Sys n} {k : Pc}, Inv t → t.cpu = s.cpu → k.child = none → Inv (t.goto p k) := by
    intro t k ht hCpu hk
    apply ht.goto (c := c) (by rw [hCpu]; exact hActive)
    · intro r hr
      rw [hk] at hr
      cases hr
    · rintro i r np - rfl
      cases hk
  unfold Sys.look
  split
  · rename_i chan j ret hPc
    have hWake : Inv (s.wakeOne chan q) := h.wakeOne hx rfl rfl rfl rfl
    have hSame : (s.wakeOne chan q).cpu = s.cpu ∧ ((s.wakeOne chan q).proc p).pc = (s.proc p).pc := by
      unfold Sys.wakeOne
      split
      · refine ⟨rfl, ?_⟩
        simp only [Sys.setState, Sys.proc_mapProc]
        split <;> rfl
      · exact ⟨rfl, rfl⟩
    apply hWake.goto (c := c) (by rw [hSame.1]; exact hActive)
    · intro r hr
      rw [hSame.2, hPc]
      exact hr
    · exact nofun
  · split
    · exact hGoto (h.killOne hx rfl rfl rfl rfl) rfl rfl
    · exact hGoto h rfl rfl
  · split
    · rename_i hState
      split
      · exact h.take hx hState
      · have hFree : Inv (s.mapProc q fun v =>
            { v with pid := 0, parent := none, chan := none, killed := false, state := .unused, pc := .forkret, saved := nregs }) :=
          h.free hx (.inl hState) (fun v => ⟨rfl, rfl⟩) (.inl ⟨hState, rfl⟩)
        have hAlloc : Inv ((s.allocSlot q).freeproc q) := by
          apply hFree.congr (t := (s.allocSlot q).freeproc q) rfl
          · intro r
            simp only [Sys.allocSlot, Sys.freeproc, Sys.proc_mapProc]
            split <;> rfl
          · intro r
            simp only [Sys.allocSlot, Sys.freeproc, Sys.proc_mapProc]
            split <;> exact ⟨rfl, rfl, rfl⟩
        exact hGoto hAlloc rfl rfl
    · exact hGoto h rfl rfl
  · rename_i hPc
    exact h.ready hx hPc
  · split
    · rename_i hState
      split
      · have hFree : Inv (s.freeproc q) := h.free hx (.inr hState) (fun v => ⟨rfl, rfl⟩) (.inr rfl)
        have hLock : Inv ((s.freeproc q).setWaitLock none) := hFree.congr rfl (fun _ => rfl) fun _ => Alike.refl
        exact hGoto hLock rfl rfl
      · have hLock : Inv (s.setWaitLock none) := h.congr rfl (fun _ => rfl) fun _ => Alike.refl
        exact hGoto hLock rfl rfl
    · exact hGoto h rfl rfl
  · exact h

end

end Inv

end Xv6K230.Smp
