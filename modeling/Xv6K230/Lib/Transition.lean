import Mathlib

/-! # Labelled transition systems

Reachability by steps that a condition on state and label admits, the invariant rule,
and runs of a system whose steps are computed.
-/

namespace Transition

universe u v

variable {σ : Type u} {ℓ : Type v}

/-- The states reached from `init` by steps that `allowed` admits. -/
inductive Reachable (init : σ → Prop) (step : σ → ℓ → σ → Prop) (allowed : σ → ℓ → Prop) : σ → Prop where
  | start {s : σ} (h : init s) : Reachable init step allowed s
  | next {s t : σ} {l : ℓ} (hs : Reachable init step allowed s) (hl : allowed s l) (h : step s l t) :
      Reachable init step allowed t

variable {init : σ → Prop} {step : σ → ℓ → σ → Prop} {allowed : σ → ℓ → Prop}

lemma Reachable.invariant {I : σ → Prop} (hInit : ∀ s, init s → I s)
    (hStep : ∀ s l t, I s → allowed s l → step s l t → I t) {s : σ} (h : Reachable init step allowed s) : I s := by
  induction h with
  | start h => exact hInit _ h
  | next _ hl h ih => exact hStep _ _ _ ih hl h

lemma Reachable.mono {init' : σ → Prop} {allowed' : σ → ℓ → Prop} (hInit : ∀ s, init s → init' s)
    (hAllowed : ∀ s l, allowed s l → allowed' s l) {s : σ} (h : Reachable init step allowed s) :
    Reachable init' step allowed' s := by
  induction h with
  | start h => exact .start (hInit _ h)
  | next _ hl h ih => exact .next ih (hAllowed _ _ hl) h

/-- The run over a list of labels of a system whose steps are computed. -/
def run (next : σ → ℓ → Option σ) : List ℓ → σ → Option σ
  | [], s => some s
  | l :: ls, s => (next s l).bind (run next ls)

lemma Reachable.of_run {next : σ → ℓ → Option σ} (hNext : ∀ s l t, next s l = some t → step s l t)
    (ls : List ℓ) (hAllowed : ∀ l ∈ ls, ∀ s, allowed s l) :
    ∀ {s t : σ}, Reachable init step allowed s → run next ls s = some t → Reachable init step allowed t := by
  induction ls with
  | nil =>
    intro s t hs ht
    cases ht
    exact hs
  | cons l ls ih =>
    intro s t hs ht
    obtain ⟨u, hu, ht⟩ := Option.bind_eq_some_iff.mp ht
    exact ih (fun l' hl' => hAllowed l' (List.mem_cons_of_mem _ hl'))
      (.next hs (hAllowed l List.mem_cons_self s) (hNext s l u hu)) ht

lemma Reachable.exists_of_run {next : σ → ℓ → Option σ} (hNext : ∀ s l t, next s l = some t → step s l t) (ls : List ℓ)
    (hAllowed : ∀ l ∈ ls, ∀ s, allowed s l) {s : σ} {test : σ → Bool} (hs : Reachable init step allowed s)
    (h : (run next ls s).any test = true) : ∃ t, Reachable init step allowed t ∧ test t = true := by
  cases hRun : run next ls s with
  | none =>
    rw [hRun] at h
    cases h
  | some t =>
    rw [hRun] at h
    exact ⟨t, .of_run hNext ls hAllowed hs hRun, h⟩

lemma Reachable.of_checked_run {next : σ → ℓ → Option σ} (hNext : ∀ s l t, next s l = some t → step s l t)
    {check : σ → ℓ → Bool} (ls : List ℓ) (hCheck : ∀ l ∈ ls, ∀ s, check s l = true → allowed s l) :
    ∀ {s t : σ}, Reachable init step allowed s → run (fun s l => if check s l then next s l else none) ls s = some t →
      Reachable init step allowed t := by
  induction ls with
  | nil =>
    intro s t hs ht
    cases ht
    exact hs
  | cons l ls ih =>
    intro s t hs ht
    obtain ⟨u, hu, ht⟩ := Option.bind_eq_some_iff.mp ht
    dsimp only at hu
    split at hu
    · rename_i hl
      exact ih (fun l' hl' => hCheck l' (.tail _ hl')) (.next hs (hCheck l (.head _) s hl) (hNext s l u hu)) ht
    · cases hu

lemma Reachable.exists_of_checked_run {next : σ → ℓ → Option σ} (hNext : ∀ s l t, next s l = some t → step s l t)
    {check : σ → ℓ → Bool} (ls : List ℓ) (hCheck : ∀ l ∈ ls, ∀ s, check s l = true → allowed s l) {s : σ} {test : σ → Bool}
    (hs : Reachable init step allowed s) (h : (run (fun s l => if check s l then next s l else none) ls s).any test = true) :
    ∃ t, Reachable init step allowed t ∧ test t = true := by
  cases hRun : run (fun s l => if check s l then next s l else none) ls s with
  | none =>
    rw [hRun] at h
    cases h
  | some t =>
    rw [hRun] at h
    exact ⟨t, .of_checked_run hNext ls hCheck hs hRun, h⟩

end Transition
