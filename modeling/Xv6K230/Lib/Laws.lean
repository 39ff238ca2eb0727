import Xv6K230.Lib.Program

/-! # Equations between programs

The monad laws, so that a program can be cut into named parts and put together again.
-/

namespace Prog

variable {ε σ α β γ : Type}

lemma id_map_eq (m : Prog ε σ α) : id <$> m = m := by
  funext s
  change Prog.seq m (fun a => Prog.ret (id a)) s = m s
  unfold Prog.seq
  cases m s with
  | ok p => rfl
  | error e => rfl

lemma bind_bind (m : Prog ε σ α) (f : α → Prog ε σ β) (g : β → Prog ε σ γ) :
    m >>= f >>= g = m >>= fun a => f a >>= g := by
  funext s
  change Prog.seq (Prog.seq m f) g s = Prog.seq m (fun a => Prog.seq (f a) g) s
  unfold Prog.seq
  cases m s with
  | ok p => rfl
  | error e => rfl

instance : LawfulMonad (Prog ε σ) := LawfulMonad.mk' _ id_map_eq (fun _ _ => rfl) bind_bind

lemma ite_bind (c : Prop) [Decidable c] (m m' : Prog ε σ α) (f : α → Prog ε σ β) :
    (if c then m else m') >>= f = if c then m >>= f else m' >>= f := by
  split <;> rfl

lemma stop_bind (e : ε) (f : α → Prog ε σ β) : (stop e : Prog ε σ α) >>= f = stop e := rfl

lemma zoom_bind {τ : Type} {get : σ → τ} {set : τ → σ → σ} (hGet : ∀ t s, get (set t s) = t)
    (hSet : ∀ t t' s, set t' (set t s) = set t' s) (m : Prog ε τ α) (f : α → Prog ε τ β) :
    zoom get set (m >>= f) = zoom get set m >>= fun a => zoom get set (f a) := by
  funext s
  change zoom get set (Prog.seq m f) s = Prog.seq (zoom get set m) (fun a => zoom get set (f a)) s
  unfold zoom Prog.seq
  cases hm : m (get s) with
  | error e => simp only [hm]
  | ok r =>
    grind

lemma wp_self (m : Prog ε σ α) (s : σ) : wp m (fun _ => True) (fun a t => m s = .ok (a, t)) s := by
  unfold wp
  split
  · assumption
  · trivial

lemma wp_both {E F : ε → Prop} {Q R : α → σ → Prop} {m : Prog ε σ α} {s : σ} (h : wp m E Q s) (h' : wp m F R s) :
    wp m (fun e => E e ∧ F e) (fun a t => Q a t ∧ R a t) s := by
  unfold wp at h h' ⊢
  cases hm : m s with
  | ok p =>
    rw [hm] at h h'
    exact ⟨h, h'⟩
  | error e =>
    rw [hm] at h h'
    exact ⟨h, h'⟩

end Prog
