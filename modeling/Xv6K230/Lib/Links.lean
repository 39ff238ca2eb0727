import Mathlib.Data.List.Nodup

/-! # Circular doubly linked lists

Nodes of a type `α` and a head, linked by next and prev pointers.
-/

/-- The pointers of a circular list; `none` is its head. -/
structure Links (α : Type) where
  next : Option α → Option α
  prev : Option α → Option α

namespace Links

variable {α : Type}

section

variable {l l' : Links α}

/-- From `x` the pointers follow `L` and arrive at `y`. -/
def Chain (l : Links α) : Option α → List α → Option α → Prop
  | x, [], y => l.next x = y ∧ l.prev y = x
  | x, b :: L, y => (l.next x = some b ∧ l.prev (some b) = x) ∧ Chain l (some b) L y

lemma chain_append {x y : Option α} {b : α} {L M : List α} :
    l.Chain x (L ++ b :: M) y ↔ l.Chain x L (some b) ∧ l.Chain (some b) M y := by
  induction L generalizing x with
  | nil => exact Iff.rfl
  | cons c L ih =>
    rw [List.cons_append, Chain, Chain, ih, ← and_assoc]

/-- A chain depends on the next pointers of its start and its nodes, and on the prev
pointers of its nodes and its end. -/
lemma Chain.congr {x y : Option α} {L : List α} (h : l.Chain x L y)
    (hx : l'.next x = l.next x) (hy : l'.prev y = l.prev y)
    (hL : ∀ b ∈ L, l'.next (some b) = l.next (some b) ∧ l'.prev (some b) = l.prev (some b)) : l'.Chain x L y := by
  induction L generalizing x with
  | nil =>
    obtain ⟨hn, hp⟩ := h
    exact ⟨hx.trans hn, hy.trans hp⟩
  | cons b L ih =>
    obtain ⟨⟨hn, hp⟩, hRest⟩ := h
    obtain ⟨hbNext, hbPrev⟩ := hL b List.mem_cons_self
    refine ⟨⟨hx.trans hn, hbPrev.trans hp⟩, ?_⟩
    exact ih hRest hbNext fun c hc => hL c (List.mem_cons_of_mem _ hc)

lemma Chain.reverse {x y : Option α} {L : List α} (h : l.Chain x L y) :
    Chain ⟨l.prev, l.next⟩ y L.reverse x := by
  induction L generalizing x with
  | nil => exact ⟨h.2, h.1⟩
  | cons b L ih =>
    rw [List.reverse_cons]
    exact chain_append.mpr ⟨ih h.2, h.1.2, h.1.1⟩

lemma Chain.prev_mem {x y : Option α} {L : List α} (h : l.Chain x L y) :
    l.prev y = x ∨ ∃ b ∈ L, l.prev y = some b := by
  induction L generalizing x with
  | nil => exact .inl h.2
  | cons b L ih =>
    rcases ih h.2 with hb | ⟨c, hc, hPrev⟩
    · exact .inr ⟨b, List.mem_cons_self, hb⟩
    · exact .inr ⟨c, List.mem_cons_of_mem _ hc, hPrev⟩

lemma Chain.redirect {x y z : Option α} {L : List α} (h : l.Chain x L y)
    (hNodup : L.Nodup) (hx : ∀ b ∈ L, x ≠ some b)
    (hLast : l'.next (l.prev y) = z) (hz : l'.prev z = l.prev y)
    (hNext : ∀ w, (w = x ∨ ∃ b ∈ L, w = some b) → w ≠ l.prev y → l'.next w = l.next w)
    (hPrev : ∀ b ∈ L, l'.prev (some b) = l.prev (some b)) : l'.Chain x L z := by
  induction L generalizing x with
  | nil =>
    rw [h.2] at hLast hz
    exact ⟨hLast, hz⟩
  | cons b L ih =>
    obtain ⟨⟨hn, hp⟩, hRest⟩ := h
    obtain ⟨hb, hNodup⟩ := List.nodup_cons.mp hNodup
    have hNe : x ≠ l.prev y := by
      grind [hRest.prev_mem]
    refine ⟨⟨(hNext x (.inl rfl) hNe).trans hn, (hPrev b List.mem_cons_self).trans hp⟩, ?_⟩
    refine ih hRest hNodup ?_ ?_ fun c hc => hPrev c (List.mem_cons_of_mem _ hc)
    · rintro c hc hEq
      cases hEq
      exact hb hc
    · grind

end

structure Ring (l : Links α) (L : List α) : Prop where
  nodup : L.Nodup
  chain : l.Chain none L none

section

/-- Follow `step` from a node until one satisfies `p`; the head ends the walk. The outer
`none` is a walk longer than `fuel`. -/
def walk (step : Option α → Option α) (p : α → Bool) : (fuel : Nat) → Option α → Option (Option α)
  | 0, _ => none
  | _ + 1, none => some none
  | fuel + 1, some b => if p b then some (some b) else walk step p fuel (step (some b))

lemma Chain.walk {l : Links α} {p : α → Bool} {x : Option α} {L : List α} (h : l.Chain x L none) :
    ∀ {fuel : Nat}, L.length < fuel → Links.walk l.next p fuel (l.next x) = some (L.find? p) := by
  induction L generalizing x with
  | nil =>
    rintro (_ | fuel) hFuel
    · exact absurd hFuel (Nat.not_lt_zero _)
    · rw [h.1]
      rfl
  | cons b L ih =>
    rintro (_ | fuel) hFuel
    · exact absurd hFuel (Nat.not_lt_zero _)
    · rw [h.1.1, Links.walk, List.find?_cons]
      cases p b with
      | true => rfl
      | false => exact ih h.2 (Nat.lt_of_succ_lt_succ hFuel)

lemma Ring.walk_next {l : Links α} {L : List α} (h : l.Ring L) (p : α → Bool) {fuel : Nat}
    (hFuel : L.length < fuel) : walk l.next p fuel (l.next none) = some (L.find? p) := h.chain.walk hFuel

lemma Ring.walk_prev {l : Links α} {L : List α} (h : l.Ring L) (p : α → Bool) {fuel : Nat}
    (hFuel : L.length < fuel) : walk l.prev p fuel (l.prev none) = some (L.reverse.find? p) := by
  have hBack := h.chain.reverse.walk (p := p) (L.length_reverse.symm ▸ hFuel)
  exact hBack

end

section

variable [DecidableEq α] {l : Links α}

def setNext (l : Links α) (x v : Option α) : Links α := { l with next := fun y => if y = x then v else l.next y }

def setPrev (l : Links α) (x v : Option α) : Links α := { l with prev := fun y => if y = x then v else l.prev y }

/-- The neighbours of `b` point to each other. -/
def unlink (l : Links α) (b : α) : Links α :=
  let l := l.setPrev (l.next (some b)) (l.prev (some b))
  l.setNext (l.prev (some b)) (l.next (some b))

/-- Put `b` after the head. -/
def insertFront (l : Links α) (b : α) : Links α :=
  let l := l.setNext (some b) (l.next none)
  let l := l.setPrev (some b) none
  let l := l.setPrev (l.next none) (some b)
  l.setNext none (some b)

lemma Ring.insertFront {L : List α} {b : α} (h : l.Ring L) (hb : b ∉ L) : (l.insertFront b).Ring (b :: L) := by
  refine ⟨List.nodup_cons.mpr ⟨hb, h.nodup⟩, ?_⟩
  have hChain := h.chain
  cases L with
  | nil =>
    obtain ⟨hn, hp⟩ := hChain
    simp [Chain, Links.insertFront, setNext, setPrev, hn]
  | cons c L =>
    obtain ⟨⟨hn, hp⟩, hRest⟩ := hChain
    obtain ⟨hc, hNodup⟩ := List.nodup_cons.mp h.nodup
    have hbc : b ≠ c := fun hEq => hb (hEq ▸ List.mem_cons_self)
    have hbL : b ∉ L := fun hIn => hb (List.mem_cons_of_mem c hIn)
    refine ⟨?_, ?_, hRest.congr ?_ ?_ ?_⟩
    · simp [Links.insertFront, setNext, setPrev, hn, hbc]
    · simp [Links.insertFront, setNext, setPrev, hn]
    · simp [Links.insertFront, setNext, setPrev, Ne.symm hbc]
    · simp [Links.insertFront, setNext, setPrev, hn]
    · intro d hd
      have hdb : d ≠ b := fun hEq => hbL (hEq ▸ hd)
      have hdc : d ≠ c := fun hEq => hc (hEq ▸ hd)
      simp [Links.insertFront, setNext, setPrev, hn, hdb, hdc]

lemma unlink_next (l : Links α) (b : α) (w : Option α) :
    (l.unlink b).next w = if w = l.prev (some b) then l.next (some b) else l.next w := by
  have hSame : (if some b = l.next (some b) then l.prev (some b) else l.prev (some b)) = l.prev (some b) := ite_self _
  simp only [Links.unlink, setNext, setPrev, hSame]

lemma unlink_prev (l : Links α) (b : α) (w : Option α) :
    (l.unlink b).prev w = if w = l.next (some b) then l.prev (some b) else l.prev w := rfl

lemma Ring.unlink {L M : List α} {b : α} (h : l.Ring (L ++ b :: M)) : (l.unlink b).Ring (L ++ M) := by
  obtain ⟨hBefore, hAfter⟩ := chain_append.mp h.chain
  have hNodup := h.nodup
  rw [List.nodup_append, List.nodup_cons] at hNodup
  obtain ⟨hL, ⟨hbM, hM⟩, hDisj⟩ := hNodup
  refine ⟨h.nodup.sublist ((List.sublist_cons_self b M).append_left L), ?_⟩
  have hFront : ∀ z, l.next (some b) = z → (∀ c ∈ L, z ≠ some c) → (l.unlink b).Chain none L z := by
    intro z hz hzL
    refine hBefore.redirect hL (fun c _ => nofun) ?_ ?_ ?_ ?_
    · rw [unlink_next, if_pos rfl, hz]
    · rw [unlink_prev, if_pos hz.symm]
    · intro w _ hw
      rw [unlink_next, if_neg hw]
    · grind [unlink_prev]
  cases M with
  | nil =>
    rw [List.append_nil]
    exact hFront none hAfter.1 fun c _ => nofun
  | cons c M =>
    obtain ⟨⟨hn, hp⟩, hRest⟩ := hAfter
    obtain ⟨hcM, -⟩ := List.nodup_cons.mp hM
    have hOut : ∀ d ∈ c :: M, d ∉ L := fun d hd hdL => hDisj d hdL d (List.mem_cons_of_mem b hd) rfl
    have hKeep : ∀ d ∈ c :: M, (l.unlink b).next (some d) = l.next (some d) := by
      grind [hBefore.prev_mem, unlink_next]
    refine chain_append.mpr ⟨hFront (some c) hn ?_, hRest.congr ?_ ?_ ?_⟩
    · rintro d hd ⟨rfl⟩
      exact hOut c List.mem_cons_self hd
    · exact hKeep c List.mem_cons_self
    · rw [unlink_prev, if_neg]
      rw [hn]
      exact nofun
    · grind [List.mem_cons_of_mem, unlink_prev]

end

end Links
