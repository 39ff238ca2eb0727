import Xv6K230.Lib.Laws
import Xv6K230.Lib.Transition

/-! # Programs in sections

A program is a tree of atomic sections, named by labels with a result type.
-/

/-- A program over the sections `L`. -/
inductive Code (L : Type → Type) (α : Type) : Type 1 where
  | done (a : α)
  | call {β : Type} (l : L β) (k : β → Code L α)

namespace Code

variable {L : Type → Type} {α β γ : Type}

def seq : Code L α → (α → Code L β) → Code L β
  | done a, f => f a
  | call l k, f => call l fun b => (k b).seq f

instance : Monad (Code L) where
  pure := done
  bind := seq

def section_ (l : L α) : Code L α := call l done

/-! ## Alone -/

section

variable {ε σ : Type} (exec : (β : Type) → L β → Prog ε σ β)

def run : Code L α → Prog ε σ α
  | done a => pure a
  | call l k => exec _ l >>= fun b => (k b).run

@[simp] lemma run_pure (a : α) : (pure a : Code L α).run exec = pure a := rfl

@[simp] lemma run_section (l : L α) : (section_ l).run exec = exec _ l := bind_pure _

@[simp] lemma run_bind (c : Code L α) (f : α → Code L β) : (c >>= f).run exec = c.run exec >>= fun a => (f a).run exec := by
  induction c with
  | done a => rfl
  | call l k ih =>
    change exec _ l >>= (fun b => (k b >>= f).run exec) = (exec _ l >>= fun b => (k b).run exec) >>= _
    rw [bind_assoc]
    congr 1
    funext b
    exact ih b

end

/-! ## With others -/

/-- What holds between sections of a process that has a part of a resource, and what a
section may do. -/
structure Contract (L : Type → Type) (ε σ G : Type) where
  inv : σ → G → Prop
  /-- The parts that others may have. -/
  frame : G → Prop
  /-- The sections that a process takes in a state. -/
  allowed : (β : Type) → σ → L β → Prop
  stops : ε → Prop
  does : (β : Type) → L β → σ → σ → Prop

section

variable {ε σ G : Type} [AddCommMonoid G] (exec : (β : Type) → L β → Prog ε σ β) (C : Contract L ε σ G)

/-- With the part `g` of the resource the program keeps the contract through all of its
sections, from states that others have left, and ends with a part as `Q` says. -/
def Safe (Q : α → G → Prop) : Code L α → G → Prop
  | done a, g => Q a g
  | call l k, g => ∀ s f, C.frame f → C.inv s (g + f) → C.allowed _ s l →
      Prog.wp (exec _ l) C.stops (fun b t => C.does _ l s t ∧ ∃ g', C.inv t (g' + f) ∧ Safe Q (k b) g') s

variable {exec C} {Q : α → G → Prop} {R : β → G → Prop} {g : G}

lemma Safe.pure {a : α} (h : Q a g) : Safe exec C Q (pure a) g := h

lemma Safe.bind {c : Code L α} {f : α → Code L β} (h : Safe exec C Q c g) (hf : ∀ a g, Q a g → Safe exec C R (f a) g) :
    Safe exec C R (c >>= f) g := by
  induction c generalizing g with
  | done a => exact hf a g h
  | call l k ih =>
    intro s f' hf' hs hl
    apply Prog.wp_post (h s f' hf' hs hl)
    rintro b t ⟨hDoes, g', ht, hk⟩
    exact ⟨hDoes, g', ht, ih b hk⟩

lemma Safe.section_ {l : L α} (h : ∀ s f, C.frame f → C.inv s (g + f) → C.allowed _ s l →
    Prog.wp (exec _ l) C.stops (fun b t => C.does _ l s t ∧ ∃ g', C.inv t (g' + f) ∧ Q b g') s) :
    Safe exec C Q (Code.section_ l) g := h

lemma Safe.run {c : Code L α} (h : Safe exec C Q c g) (hFrame : C.frame 0) (hAllowed : ∀ (β : Type) s (l : L β), C.allowed β s l)
    {s : σ} (hs : C.inv s g) : Prog.wp (c.run exec) C.stops (fun a t => ∃ g', C.inv t g' ∧ Q a g') s := by
  induction c generalizing g s with
  | done a => exact Prog.wp_val ⟨g, hs, h⟩
  | call l k ih =>
    apply Prog.wp_call (h s 0 hFrame (by rwa [add_zero]) (hAllowed _ s l))
    rintro b t ⟨-, g', ht, hk⟩
    rw [add_zero] at ht
    exact ih b hk ht

end

end Code

/-! ## Pools -/

/-- Processes `P`, each with the rest of its call; a call ends with what the process holds. -/
structure Pool (L : Type → Type) (σ P H : Type) where
  shared : σ
  proc : P → Code L H

/-- A process starts a call, or takes the next section of the one it is in. -/
inductive Pool.Act (P C : Type) where
  | start (p : P) (c : C)
  | step (p : P)

namespace Pool

variable {L : Type → Type} {ε σ P H C : Type} [DecidableEq P]

def set (s : Pool L σ P H) (p : P) (c : Code L H) : Pool L σ P H := { s with proc := Function.update s.proc p c }

variable (exec : (β : Type) → L β → Prog ε σ β) (code : C → H → Code L H)

def next (s : Pool L σ P H) : Act P C → Option (Pool L σ P H)
  | .start p c =>
    match s.proc p with
    | .done h => some (s.set p (code c h))
    | .call _ _ => none
  | .step p =>
    match s.proc p with
    | .done _ => none
    | .call l k =>
      match exec _ l s.shared with
      | .ok (b, t) => some { s.set p (k b) with shared := t }
      | .error _ => none

/-- The condition `allowed` holds of the section that is taken. -/
def Admits (allowed : (β : Type) → σ → L β → Prop) (s : Pool L σ P H) : Act P C → Prop
  | .start _ _ => True
  | .step p =>
    match s.proc p with
    | .done _ => True
    | .call l _ => allowed _ s.shared l

def Idle (s : Pool L σ P H) : Prop := ∀ p, ∃ h, s.proc p = .done h

variable {exec code} in
lemma shared_next {I : σ → Prop} {allowed : (β : Type) → σ → L β → Prop}
    (hExec : ∀ (β : Type) (l : L β) s b t, I s → allowed _ s l → exec _ l s = .ok (b, t) → I t) {s t : Pool L σ P H} {a : Act P C}
    (hs : I s.shared) (hAdmits : Admits allowed s a) (ht : next exec code s a = some t) : I t.shared := by
  cases a with
  | start p c =>
    cases hc : s.proc p with
    | call l k =>
      simp only [next, hc] at ht
      cases ht
    | done h =>
      simp only [next, hc] at ht
      cases ht
      exact hs
  | step p =>
    cases hc : s.proc p with
    | done h =>
      simp only [next, hc] at ht
      cases ht
    | call l k =>
      simp only [next, hc] at ht
      simp only [Admits, hc] at hAdmits
      cases hRun : exec _ l s.shared with
      | error e =>
        rw [hRun] at ht
        cases ht
      | ok r =>
        rw [hRun] at ht
        cases ht
        exact hExec _ l _ r.1 r.2 hs hAdmits hRun

variable {G : Type} [AddCommMonoid G] [Fintype P] (K : Code.Contract L ε σ G) (Own : H → G → Prop)

def Shares (s : Pool L σ P H) : Prop :=
  ∃ g : P → G, K.inv s.shared (∑ p, g p) ∧ ∀ p, Code.Safe exec K Own (s.proc p) (g p)

variable {exec code K Own}

lemma sum_update (g : P → G) (p : P) (v : G) :
    ∑ q, Function.update g p v q = v + ∑ q ∈ Finset.univ.erase p, g q := by
  rw [← Finset.add_sum_erase _ _ (Finset.mem_univ p), Function.update_self]
  congr 1
  apply Finset.sum_congr rfl
  intro q hq
  rw [Function.update_of_ne (Finset.ne_of_mem_erase hq)]

lemma Shares.section_ {s : Pool L σ P H} {p : P} {β : Type} {l : L β} {k : β → Code L H} (h : Shares exec K Own s)
    (hFrame : ∀ f, K.frame f) (hp : s.proc p = .call l k) (hAllowed : K.allowed _ s.shared l) :
    Prog.wp (exec _ l) K.stops (fun b t => K.does _ l s.shared t ∧ Shares exec K Own { s.set p (k b) with shared := t }) s.shared := by
  obtain ⟨g, hInv, hSafe⟩ := h
  have hSafe' := hSafe p
  rw [hp] at hSafe'
  rw [← Finset.add_sum_erase _ _ (Finset.mem_univ p)] at hInv
  apply Prog.wp_post (hSafe' _ _ (hFrame _) hInv hAllowed)
  rintro b t ⟨hDoes, v, ht, hk⟩
  refine ⟨hDoes, Function.update g p v, ?_, fun q => ?_⟩
  · rw [sum_update]
    exact ht
  · unfold set
    by_cases hq : q = p
    · simp only [hq, Function.update_self]
      exact hk
    · simp only [Function.update_of_ne hq]
      exact hSafe q

lemma Shares.next {s t : Pool L σ P H} {a : Act P C} (h : Shares exec K Own s) (hFrame : ∀ f, K.frame f)
    (hCode : ∀ c h g, Own h g → Code.Safe exec K Own (code c h) g) (hAdmits : Admits K.allowed s a)
    (ht : next exec code s a = some t) : Shares exec K Own t := by
  cases a with
  | start p c =>
    obtain ⟨g, hInv, hSafe⟩ := h
    have hp := hSafe p
    cases hc : s.proc p with
    | call l k =>
      simp only [Pool.next, hc] at ht
      cases ht
    | done h =>
      simp only [Pool.next, hc] at ht
      cases ht
      rw [hc] at hp
      refine ⟨g, hInv, fun q => ?_⟩
      unfold set
      by_cases hq : q = p
      · simp only [hq, Function.update_self]
        exact hCode c h (g p) hp
      · simp only [Function.update_of_ne hq]
        exact hSafe q
  | step p =>
    cases hc : s.proc p with
    | done h =>
      simp only [Pool.next, hc] at ht
      cases ht
    | call l k =>
      simp only [Pool.next, hc] at ht
      simp only [Admits, hc] at hAdmits
      have hNext := h.section_ hFrame hc hAdmits
      cases hRun : exec _ l s.shared with
      | error e =>
        rw [hRun] at ht
        cases ht
      | ok r =>
        rw [hRun] at ht
        cases ht
        have hDone := Prog.wp_ok hNext hRun
        exact hDone.2

end Pool
