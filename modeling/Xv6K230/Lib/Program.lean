import Mathlib

/-! # Programs that may stop the machine

A computation reads and rewrites a state and either returns a value or stops with an exception.
-/

/-- A computation over states `σ` that returns an `α` or stops with an `ε`. -/
def Prog (ε σ α : Type) : Type := σ → Except ε (α × σ)

namespace Prog

variable {ε σ τ α β : Type}

def ret (a : α) : Prog ε σ α := fun s => .ok (a, s)

def seq (m : Prog ε σ α) (f : α → Prog ε σ β) : Prog ε σ β := fun s =>
  match m s with
  | .ok (a, s') => f a s'
  | .error e => .error e

instance : Monad (Prog ε σ) where
  pure := ret
  bind := seq

/-- The value of `f` in the present state. -/
def read (f : σ → α) : Prog ε σ α := fun s => .ok (f s, s)

def update (f : σ → σ) : Prog ε σ Unit := fun s => .ok ((), f s)

def stop (e : ε) : Prog ε σ α := fun _ => .error e

def zoom (get : σ → τ) (set : τ → σ → σ) (m : Prog ε τ α) : Prog ε σ α := fun s =>
  match m (get s) with
  | .ok (a, t) => .ok (a, set t s)
  | .error e => .error e

/-- Run `body` on the elements in order until one of them yields a result. -/
def firstM (body : β → Prog ε σ (Option α)) : List β → Prog ε σ (Option α)
  | [] => ret none
  | b :: bs => do
    match ← body b with
    | some a => return some a
    | none => firstM body bs

/-- Run `body` on the elements in order. -/
def eachM (body : β → Prog ε σ Unit) : List β → Prog ε σ Unit
  | [] => ret ()
  | b :: bs => do
    body b
    eachM body bs

/-- `m` run from `s` stops only with exceptions in `E`, and what it returns satisfies `Q`. -/
def wp (m : Prog ε σ α) (E : ε → Prop) (Q : α → σ → Prop) (s : σ) : Prop :=
  match m s with
  | .ok (a, s') => Q a s'
  | .error e => E e

variable {E : ε → Prop} {Q : α → σ → Prop} {s : σ}

@[simp] lemma wp_ret (a : α) : wp (ret a : Prog ε σ α) E Q s ↔ Q a s := Iff.rfl

@[simp] lemma wp_pure (a : α) : wp (pure a : Prog ε σ α) E Q s ↔ Q a s := Iff.rfl

lemma wp_val {a : α} (h : Q a s) : wp (pure a : Prog ε σ α) E Q s := h

lemma wp_seq (m : Prog ε σ β) (f : β → Prog ε σ α) :
    wp (seq m f) E Q s ↔ wp m E (fun b t => wp (f b) E Q t) s := by
  unfold wp seq
  cases m s with
  | ok p => rfl
  | error e => rfl

@[simp] lemma wp_bind (m : Prog ε σ β) (f : β → Prog ε σ α) :
    wp (m >>= f) E Q s ↔ wp m E (fun b t => wp (f b) E Q t) s := wp_seq m f

lemma bind_ok {m : Prog ε σ β} {f : β → Prog ε σ α} {a : α} {t : σ} (h : (m >>= f) s = .ok (a, t)) :
    ∃ b u, m s = .ok (b, u) ∧ f b u = .ok (a, t) := by
  change seq m f s = _ at h
  unfold seq at h
  cases hm : m s with
  | ok p =>
    rw [hm] at h
    exact ⟨p.1, p.2, rfl, h⟩
  | error e =>
    rw [hm] at h
    cases h

@[simp] lemma wp_map (f : β → α) (m : Prog ε σ β) :
    wp (f <$> m) E Q s ↔ wp m E (fun b t => Q (f b) t) s := wp_seq m (fun b => ret (f b))

@[simp] lemma wp_read (f : σ → α) : wp (read f : Prog ε σ α) E Q s ↔ Q (f s) s := Iff.rfl

@[simp] lemma wp_update {R : Unit → σ → Prop} (f : σ → σ) :
    wp (update f : Prog ε σ Unit) E R s ↔ R () (f s) := Iff.rfl

@[simp] lemma wp_stop (e : ε) : wp (stop e : Prog ε σ α) E Q s ↔ E e := Iff.rfl

@[simp] lemma wp_zoom {get : σ → τ} {set : τ → σ → σ} (m : Prog ε τ α) :
    wp (zoom get set m) E Q s ↔ wp m E (fun a t => Q a (set t s)) (get s) := by
  unfold wp zoom
  cases m (get s) with
  | ok p => rfl
  | error e => rfl

lemma wp_ite (c : Prop) [Decidable c] (m m' : Prog ε σ α) :
    wp (if c then m else m') E Q s ↔ (c → wp m E Q s) ∧ (¬c → wp m' E Q s) := by
  by_cases h : c <;> simp [h]

lemma wp_mono {R : α → σ → Prop} {F : ε → Prop} {m : Prog ε σ α} (h : wp m E Q s)
    (hE : ∀ e, E e → F e) (hQ : ∀ a t, Q a t → R a t) : wp m F R s := by
  unfold wp at h ⊢
  cases hm : m s with
  | ok p => rw [hm] at h; exact hQ p.1 p.2 h
  | error e => rw [hm] at h; exact hE e h

lemma wp_post {R : α → σ → Prop} {m : Prog ε σ α} (h : wp m E Q s)
    (hQ : ∀ a t, Q a t → R a t) : wp m E R s :=
  wp_mono h (fun _ he => he) hQ

lemma wp_and {R : α → σ → Prop} {m : Prog ε σ α} (h : wp m E Q s) (h' : wp m E R s) :
    wp m E (fun a t => Q a t ∧ R a t) s := by
  unfold wp at h h' ⊢
  cases hm : m s with
  | ok p => rw [hm] at h h'; exact ⟨h, h'⟩
  | error e => rw [hm] at h; exact h

lemma wp_call {R : β → σ → Prop} {m : Prog ε σ β} {f : β → Prog ε σ α} (h : wp m E R s)
    (hf : ∀ b t, R b t → wp (f b) E Q t) : wp (m >>= f) E Q s :=
  (wp_bind m f).mpr (wp_post h hf)

lemma wp_ok {m : Prog ε σ α} {a : α} {t : σ} (h : wp m E Q s) (hm : m s = .ok (a, t)) : Q a t := by
  unfold wp at h
  rw [hm] at h
  exact h

lemma wp_returns {m : Prog ε σ α} {a : α} {t : σ} (hm : m s = .ok (a, t)) {Q : α → σ → Prop}
    (h : wp m (fun _ => True) Q s) : Q a t := wp_ok h hm

lemma wp_done {m : Prog ε σ Unit} {t : σ} (hm : m s = .ok ((), t)) {P : σ → Prop}
    (h : wp m (fun _ => True) (fun _ u => P u) s) : P t := wp_ok (Q := fun _ u => P u) h hm

lemma wp_error {m : Prog ε σ α} {e : ε} (h : wp m E Q s) (hm : m s = .error e) : E e := by
  unfold wp at h
  rw [hm] at h
  exact h

attribute [irreducible] wp

lemma wp_weaken_stop {F : ε → Prop} {m : Prog ε σ α} (h : wp m E Q s)
    (hE : ∀ e, E e → F e) : wp m F Q s := wp_mono h hE (fun _ _ hQ => hQ)

lemma wp_total {m : Prog ε σ α} (h : wp m (fun _ => False) Q s) : ∃ a t, m s = .ok (a, t) ∧ Q a t := by
  unfold wp at h
  split at h
  · rename_i a t hm
    exact ⟨a, t, hm, h⟩
  · exact h.elim

lemma wp_true (m : Prog ε σ α) (s : σ) : wp m (fun _ => True) (fun _ _ => True) s := by
  unfold wp
  split <;> trivial

lemma wp_firstM {I : List β → σ → Prop} {R : Option α → σ → Prop}
    {body : β → Prog ε σ (Option α)} (hnil : ∀ t, I [] t → R none t)
    (hstep : ∀ b bs t, I (b :: bs) t → wp (body b) E (fun r u =>
      match r with
      | some a => R (some a) u
      | none => I bs u) t) :
    ∀ (l : List β) (t : σ), I l t → wp (firstM body l) E R t := by
  intro l
  induction l with
  | nil => exact fun t ht => (wp_ret _).mpr (hnil t ht)
  | cons b bs ih =>
    intro t ht
    refine wp_call (hstep b bs t ht) ?_
    intro r u hr
    cases r with
    | some a => exact (wp_pure _).mpr hr
    | none => exact ih u hr

lemma wp_eachM {I : List β → σ → Prop} {body : β → Prog ε σ Unit}
    (hstep : ∀ b bs t, I (b :: bs) t → wp (body b) E (fun _ u => I bs u) t) :
    ∀ (l : List β) (t : σ), I l t → wp (eachM body l) E (fun _ u => I [] u) t := by
  intro l
  induction l with
  | nil => exact fun t ht => (wp_ret _).mpr ht
  | cons b bs ih =>
    intro t ht
    exact wp_call (hstep b bs t ht) (fun _ u hu => ih u hu)

lemma wp_eachM_inv {I : σ → Prop} {body : β → Prog ε σ Unit} {l : List β}
    (hstep : ∀ b ∈ l, ∀ t, I t → wp (body b) E (fun _ u => I u) t) (h : I s) :
    wp (eachM body l) E (fun _ u => I u) s := by
  refine wp_post (wp_eachM (I := fun bs t => (∀ b ∈ bs, b ∈ l) ∧ I t) ?_ l s ⟨fun _ hb => hb, h⟩)
    (fun _ u hu => hu.2)
  intro b bs t ht
  refine wp_post (hstep b (ht.1 b List.mem_cons_self) t ht.2) (fun _ u hu => ?_)
  exact ⟨fun c hc => ht.1 c (List.mem_cons_of_mem _ hc), hu⟩

/-! ## Which exceptions are possible at all -/

/-- From every state, `m` stops only with exceptions in `P`. -/
def Within (P : ε → Prop) (m : Prog ε σ α) : Prop := ∀ s, wp m P (fun _ _ => True) s

namespace Within

variable {P : ε → Prop} {m : Prog ε σ α}

lemma pure (a : α) : Within P (Pure.pure a : Prog ε σ α) := fun _ => (wp_pure a).mpr trivial

lemma read (f : σ → α) : Within P (Prog.read f : Prog ε σ α) := fun _ => (wp_read f).mpr trivial

lemma update (f : σ → σ) : Within P (Prog.update f : Prog ε σ Unit) := fun _ => (wp_update f).mpr trivial

lemma stop {e : ε} (h : P e) : Within P (Prog.stop e : Prog ε σ α) := fun _ => (wp_stop e).mpr h

lemma bind {f : α → Prog ε σ β} (hm : Within P m) (hf : ∀ a, Within P (f a)) : Within P (m >>= f) :=
  fun s => wp_call (hm s) (fun a t _ => hf a t)

lemma ite {c : Prop} [Decidable c] {m' : Prog ε σ α} (h : Within P m) (h' : Within P m') :
    Within P (if c then m else m') := by
  split
  · exact h
  · exact h'

lemma firstM {body : β → Prog ε σ (Option α)} {l : List β} (h : ∀ b, Within P (body b)) :
    Within P (Prog.firstM body l) := by
  intro _
  refine wp_firstM (I := fun _ _ => True) (fun _ _ => trivial) (fun b bs t _ => wp_post (h b t) ?_) l _ trivial
  intro r u _
  cases r <;> trivial

lemma eachM {body : β → Prog ε σ Unit} {l : List β} (h : ∀ b, Within P (body b)) :
    Within P (Prog.eachM body l) :=
  fun _ => wp_post (wp_eachM_inv (I := fun _ => True) (fun b _ t _ => wp_post (h b t) (fun _ _ _ => trivial)) trivial)
    (fun _ _ _ => trivial)

end Within

/-! ## Relations between start and end -/

/-- Whenever `m` succeeds, the start and the end of the run are related by `R`. -/
def Moves (R : σ → σ → Prop) (m : Prog ε σ α) : Prop := ∀ s, wp m (fun _ => True) (fun _ t => R s t) s

namespace Moves

variable {R : σ → σ → Prop} {m : Prog ε σ α}

lemma stop (e : ε) : Moves R (Prog.stop e : Prog ε σ α) := fun _ => (wp_stop e).mpr trivial

lemma update {f : σ → σ} (h : ∀ s, R s (f s)) : Moves R (Prog.update f : Prog ε σ Unit) :=
  fun s => (wp_update f).mpr (h s)

lemma of_ok (h : Moves R m) {s t : σ} {a : α} (hm : m s = .ok (a, t)) : R s t :=
  wp_ok (Q := fun _ t => R s t) (h s) hm

lemma mono {R' : σ → σ → Prop} (h : Moves R m) (hR : ∀ s t, R s t → R' s t) : Moves R' m :=
  fun s => wp_post (h s) (fun _ t ht => hR s t ht)

lemma ite {c : Prop} [Decidable c] {m' : Prog ε σ α} (h : Moves R m) (h' : Moves R m') :
    Moves R (if c then m else m') := by
  split
  · exact h
  · exact h'

section

variable [Std.Refl R]

lemma pure (a : α) : Moves R (Pure.pure a : Prog ε σ α) := fun s => (wp_pure a).mpr (Std.Refl.refl s)

lemma read (f : σ → α) : Moves R (Prog.read f : Prog ε σ α) := fun s => (wp_read f).mpr (Std.Refl.refl s)

end

section

variable [IsTrans σ R]

lemma bind {f : α → Prog ε σ β} (hm : Moves R m) (hf : ∀ a, Moves R (f a)) : Moves R (m >>= f) :=
  fun s => wp_call (hm s) (fun a t hst => wp_post (hf a t) (fun _ _ htu => IsTrans.trans s t _ hst htu))

end

variable [Std.Refl R] [IsTrans σ R]

lemma firstM {body : β → Prog ε σ (Option α)} {l : List β} (h : ∀ b, Moves R (body b)) :
    Moves R (Prog.firstM body l) := by
  intro s
  refine wp_firstM (I := fun _ t => R s t) (fun _ h => h) (fun b bs t ht => wp_post (h b t) ?_) l s (Std.Refl.refl s)
  intro r u hu
  cases r <;> exact IsTrans.trans s t u ht hu

lemma eachM {body : β → Prog ε σ Unit} {l : List β} (h : ∀ b, Moves R (body b)) : Moves R (Prog.eachM body l) :=
  fun s => wp_eachM_inv (I := fun t => R s t)
    (fun b _ t ht => wp_post (h b t) (fun _ u hu => IsTrans.trans s t u ht hu)) (Std.Refl.refl s)

end Moves

end Prog
