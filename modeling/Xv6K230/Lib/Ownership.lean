import Mathlib.Logic.Function.Basic

/-! # Cells in places

A partial assignment of cells to places together with a set of marked cells.
-/

/-- Every marked cell stands in exactly one place, and no other cell stands anywhere. -/
structure Placement {P B : Type} (loc : P → Option B) (used : B → Prop) : Prop where
  inj : ∀ {p q : P} {b : B}, loc p = some b → loc q = some b → p = q
  used_iff : ∀ b, used b ↔ ∃ p, loc p = some b

namespace Placement

variable {P B : Type} {loc : P → Option B} {used used' : B → Prop} {p q : P} {b : B}

lemma used_of (h : Placement loc used) (hp : loc p = some b) : used b := (h.used_iff b).mpr ⟨p, hp⟩

lemma congr (h : Placement loc used) (hu : ∀ c, used' c ↔ used c) : Placement loc used' where
  inj := h.inj
  used_iff := fun c => (hu c).trans (h.used_iff c)

variable [DecidableEq P]

lemma take (h : Placement loc used) (hp : loc p = none) (hb : ¬ used b) (hu : ∀ c, used' c ↔ used c ∨ c = b) :
    Placement (Function.update loc p (some b)) used' := by
  constructor
  · grind [h.used_of, h.inj]
  · intro c
    rw [hu, h.used_iff]
    constructor
    · rintro (⟨r, hr⟩ | rfl)
      · have hne : r ≠ p := by
          rintro rfl
          rw [hp] at hr
          cases hr
        exact ⟨r, by rw [Function.update_of_ne hne, hr]⟩
      · exact ⟨p, Function.update_self ..⟩
    · grind

lemma drop (h : Placement loc used) (hp : loc p = some b) (hu : ∀ c, used' c ↔ used c ∧ c ≠ b) :
    Placement (Function.update loc p none) used' := by
  have hOther : ∀ {r c}, Function.update loc p none r = some c → r ≠ p ∧ loc r = some c := by
    grind
  constructor
  · intro r r' c hr hr'
    exact h.inj (hOther hr).2 (hOther hr').2
  · grind [h.used_iff, h.inj]

lemma move (h : Placement loc used) (hp : loc p = some b) (hq : loc q = none) :
    Placement (Function.update (Function.update loc p none) q (some b)) used := by
  have hNone : Function.update loc p none q = none := by
    grind
  apply (h.drop hp fun c => Iff.rfl).take hNone
  · exact fun hb => hb.2 rfl
  · intro c
    by_cases hc : c = b
    · simp [hc, h.used_of hp]
    · simp [hc]

end Placement
