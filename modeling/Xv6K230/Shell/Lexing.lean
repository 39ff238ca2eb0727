import Xv6K230.Shell.Grammar

/-! # The cursor of the parser and the tokens ahead of it

`peek` and `gettoken` in terms of the tokens of the rest of the line.
-/

namespace Xv6K230.Shell

open Prog

namespace Token

/-- The character that `peek` sees, with `a` for words. -/
def lead : Token → UInt8
  | word _ => 97
  | less => 60
  | great => 62
  | append => 62
  | bar => 124
  | amp => 38
  | semi => 59
  | lparen => 40
  | rparen => 41

/-- What `gettoken` returns. -/
def kind : Token → UInt8
  | append => 43
  | t => t.lead

end Token

/-- The first token starts with one of `toks`. -/
def lookahead (toks : List UInt8) : List Token → Bool
  | [] => false
  | t :: _ => t.lead ∈ toks

section

variable {line : List UInt8} {p : UInt8 → Bool} {s : Nat} {c : UInt8} {cs : List UInt8}

lemma charAt_of_drop (h : line.drop s = c :: cs) : charAt line s = c ∧ line.drop (s + 1) = cs ∧ s < line.length := by
  have hLt : s < line.length := by
    by_contra hEnd
    rw [List.drop_eq_nil_of_le (not_lt.mp hEnd)] at h
    cases h
  rw [List.drop_eq_getElem_cons hLt] at h
  obtain ⟨hc, hcs⟩ := List.cons.inj h
  refine ⟨?_, hcs, hLt⟩
  rw [charAt, List.getD_eq_getElem _ _ hLt, hc]

lemma charAt_of_end (h : line.drop s = []) : charAt line s = 0 :=
  List.getD_eq_default _ _ (List.drop_eq_nil_iff.mp h)

lemma advanceLoop_eq : ∀ (n : Nat) {s : Nat}, s + n = line.length → advanceLoop line p n s = s + ((line.drop s).takeWhile p).length
  | 0, s, hs => by
    rw [List.drop_eq_nil_of_le (by omega)]
    rfl
  | n + 1, s, hs => by
    have hLt : s < line.length := by omega
    have hDrop := List.drop_eq_getElem_cons hLt
    obtain ⟨hc, -, -⟩ := charAt_of_drop hDrop
    rw [advanceLoop, hDrop, hc, List.takeWhile_cons]
    by_cases hp : p (line)[s] = true
    · rw [if_pos ⟨hLt, hp⟩, if_pos hp, advanceLoop_eq n (by omega), List.length_cons]
      omega
    · rw [if_neg fun h => hp h.2, if_neg hp]
      rfl

lemma advance_eq (hs : s ≤ line.length) : advance line p s = s + ((line.drop s).takeWhile p).length :=
  advanceLoop_eq _ (by omega)

lemma drop_advance (hs : s ≤ line.length) : line.drop (advance line p s) = (line.drop s).dropWhile p := by
  have hSplit : (line.drop s).takeWhile p ++ (line.drop s).dropWhile p = line.drop s := List.takeWhile_append_dropWhile
  rw [advance_eq hs, ← List.drop_drop]
  calc (line.drop s).drop ((line.drop s).takeWhile p).length
      = ((line.drop s).takeWhile p ++ (line.drop s).dropWhile p).drop ((line.drop s).takeWhile p).length := by rw [hSplit]
    _ = (line.drop s).dropWhile p := List.drop_left

lemma advance_le (hs : s ≤ line.length) : advance line p s ≤ line.length := by
  have hLen := (List.takeWhile_sublist p (l := line.drop s)).length_le
  rw [List.length_drop] at hLen
  rw [advance_eq hs]
  omega

def text (line : List UInt8) (w : Span) : List UInt8 := (line.drop w.q).take (w.eq - w.q)

structure IsRun (line : List UInt8) (w : Span) : Prop where
  nonempty : w.q < w.eq
  inside : w.eq ≤ line.length
  word : ∀ i, w.q ≤ i → i < w.eq → isWord (charAt line i) = true
  longest : w.eq < line.length → isWord (charAt line w.eq) = false

lemma text_advance (hs : s ≤ line.length) : text line ⟨s, advance line p s⟩ = (line.drop s).takeWhile p := by
  rw [text, advance_eq hs, Nat.add_sub_cancel_left]
  exact (List.prefix_iff_eq_take.mp (List.takeWhile_prefix p)).symm

lemma isRun_advance (h : line.drop s = c :: cs) (hc : isWord c = true) : IsRun line ⟨s, advance line isWord s⟩ := by
  have hs : s ≤ line.length := (charAt_of_drop h).2.2.le
  refine ⟨?_, advance_le hs, fun i hLow hHigh => ?_, fun hLt => ?_⟩
  · rw [advance_eq hs, h, List.takeWhile_cons, if_pos hc, List.length_cons]
    exact Nat.lt_add_of_pos_right (Nat.succ_pos _)
  · simp only [advance_eq hs] at hLow hHigh
    have hi : i - s < ((line.drop s).takeWhile isWord).length := by omega
    have hPrefix := List.takeWhile_prefix isWord (l := line.drop s)
    have hGet := hPrefix.getElem hi
    have hLine : i < line.length := by
      have := hPrefix.length_le
      rw [List.length_drop] at this
      omega
    have hAll := List.mem_takeWhile_imp (List.getElem_mem hi)
    rw [hGet, List.getElem_drop] at hAll
    rw [charAt, List.getD_eq_getElem _ _ hLine]
    simpa only [Nat.add_sub_cancel' hLow] using hAll
  · have hRest := drop_advance (p := isWord) hs
    rw [List.drop_eq_getElem_cons hLt] at hRest
    have hHead := List.head?_dropWhile_not isWord (line.drop s)
    rw [← hRest, List.head?_cons] at hHead
    rw [charAt, List.getD_eq_getElem _ _ hLt]
    simpa using hHead

end

/-! ## Tokens -/

section

variable {c : UInt8} {cs : List UInt8} {ts : List Token}

lemma tokens_nil : tokens [] = [] := by
  rw [tokens]

lemma tokens_space (h : isSpace c = true) : tokens (c :: cs) = tokens cs := by
  rw [tokens, if_pos h]

lemma tokens_ne_nil (h : isSpace c = false) : tokens (c :: cs) ≠ [] := by
  rw [tokens, if_neg (Bool.eq_false_iff.mp h)]
  split
  · split <;> exact List.cons_ne_nil _ _
  · split <;> exact List.cons_ne_nil _ _

lemma tokens_dropWhile (cs : List UInt8) : tokens (cs.dropWhile isSpace) = tokens cs := by
  induction cs with
  | nil => rfl
  | cons c cs ih =>
    by_cases hc : isSpace c = true
    · rw [List.dropWhile_cons_of_pos hc, ih, tokens_space hc]
    · rw [List.dropWhile_cons_of_neg hc]

lemma tokens_length_le (cs : List UInt8) : (tokens cs).length ≤ cs.length := by
  fun_induction tokens cs with
  | case1 => exact Nat.le_refl _
  | case2 c cs h ih => exact ih.trans (Nat.le_succ _)
  | case3 cs h h' ih =>
    rw [List.length_tail] at ih
    rw [List.length_cons, List.length_cons]
    omega
  | case4 cs h h' ih => exact Nat.succ_le_succ ih
  | case5 c cs h h' t ht ih => exact Nat.succ_le_succ ih
  | case6 c cs h h' ht ih => exact Nat.succ_le_succ (ih.trans (List.dropWhile_sublist _).length_le)

lemma symbolToken_of_mem (h : c ∈ [124, 40, 41, 59, 38, 60]) : ∃ t, symbolToken c = some t ∧ t.lead = c ∧ t.kind = c ∧
    (∀ w, t ≠ .word w) ∧ c ≠ 62 ∧ c ∈ symbols := by
  simp only [List.mem_cons, List.not_mem_nil, or_false] at h
  rcases h with rfl | rfl | rfl | rfl | rfl | rfl
  · exact ⟨.bar, rfl, rfl, rfl, fun _ => Token.noConfusion, by decide, by decide⟩
  · exact ⟨.lparen, rfl, rfl, rfl, fun _ => Token.noConfusion, by decide, by decide⟩
  · exact ⟨.rparen, rfl, rfl, rfl, fun _ => Token.noConfusion, by decide, by decide⟩
  · exact ⟨.semi, rfl, rfl, rfl, fun _ => Token.noConfusion, by decide, by decide⟩
  · exact ⟨.amp, rfl, rfl, rfl, fun _ => Token.noConfusion, by decide, by decide⟩
  · exact ⟨.less, rfl, rfl, rfl, fun _ => Token.noConfusion, by decide, by decide⟩

lemma symbolToken_eq_none (h : c ∉ [124, 40, 41, 59, 38, 60]) : symbolToken c = none := by
  simp only [List.mem_cons, List.not_mem_nil, or_false, not_or] at h
  obtain ⟨h1, h2, h3, h4, h5, h6⟩ := h
  rw [symbolToken, if_neg h6, if_neg h1, if_neg h5, if_neg h4, if_neg h2, if_neg h3]

lemma isWord_of_rest (hSpace : isSpace c = false) (hSymbol : c ∉ [124, 40, 41, 59, 38, 60]) (hc : c ≠ 62) :
    isWord c = true ∧ c ∉ symbols := by
  have hNot : c ∉ symbols := by
    simp only [symbols, List.mem_cons, List.not_mem_nil, or_false, not_or] at hSymbol ⊢
    tauto
  rw [isSpace, decide_eq_false_iff_not] at hSpace
  rw [isWord, decide_eq_true_eq]
  exact ⟨⟨hSpace, hNot⟩, hNot⟩

end

/-! ## The cursor -/

structure At (line : List UInt8) (s : Nat) (ts : List Token) : Prop where
  le : s ≤ line.length
  tokens : Shell.tokens (line.drop s) = ts

section

variable {E : Halt → Prop} {line : List UInt8} {s : Nat} {ts : List Token}

lemma At.length_le (h : At line s ts) : ts.length ≤ line.length := by
  have hLen := tokens_length_le (line.drop s)
  rw [h.tokens, List.length_drop] at hLen
  omega

lemma At.skip (h : At line s ts) : At line (advance line isSpace s) ts :=
  ⟨advance_le h.le, by rw [drop_advance h.le, tokens_dropWhile, h.tokens]⟩

lemma head_skip (hs : s ≤ line.length) {c : UInt8} {cs : List UInt8} (h : line.drop (advance line isSpace s) = c :: cs) :
    isSpace c = false := by
  rw [drop_advance hs] at h
  have hHead := List.head?_dropWhile_not isSpace (line.drop s)
  rw [h, List.head?_cons] at hHead
  simpa using hHead

lemma peek_spec (hNul : ∀ c ∈ line, c ≠ 0) (h : At line s ts) {toks : List UInt8} (hToks : toks ⊆ symbols) :
    wp (peek line toks) E (fun b t => At line t ts ∧ b = lookahead toks ts) s := by
  unfold peek
  rw [wp_bind, wp_update, wp_read]
  refine ⟨h.skip, ?_⟩
  have hAt := h.skip.tokens
  cases hDrop : line.drop (advance line isSpace s) with
  | nil =>
    rw [hDrop, tokens_nil] at hAt
    rw [charAt_of_end hDrop, ← hAt]
    rfl
  | cons c cs =>
    have hSpace := head_skip h.le hDrop
    have hc := (charAt_of_drop hDrop).1
    have hZero : c ≠ 0 := hNul c (List.mem_of_mem_drop (by rw [hDrop]; exact List.mem_cons_self))
    rw [hDrop, tokens, if_neg (Bool.eq_false_iff.mp hSpace)] at hAt
    rw [hc]
    simp only [hZero, ne_eq, not_false_eq_true, true_and]
    by_cases hGreat : c = 62
    · rw [if_pos hGreat] at hAt
      subst hGreat
      split at hAt <;> rw [← hAt] <;> rfl
    rw [if_neg hGreat] at hAt
    by_cases hMem : c ∈ [124, 40, 41, 59, 38, 60]
    · grind [symbolToken_of_mem, lookahead]
    · obtain ⟨-, hNot⟩ := isWord_of_rest hSpace hMem hGreat
      rw [symbolToken_eq_none hMem] at hAt
      rw [← hAt, lookahead, decide_eq_decide]
      refine iff_of_false (fun hIn => hNot (hToks hIn)) fun hIn => ?_
      have hLetter : (97 : UInt8) ∉ symbols := by decide
      exact hLetter (hToks hIn)

def Taken (line : List UInt8) (ts : List Token) (r : UInt8 × Span) (t : Nat) : Prop :=
  match ts with
  | [] => r.1 = 0 ∧ At line t []
  | tok :: rest => r.1 = tok.kind ∧ At line t rest ∧ ∀ w, tok = .word w → text line r.2 = w ∧ IsRun line r.2

lemma gettoken_spec (hNul : ∀ c ∈ line, c ≠ 0) (h : At line s ts) : wp (gettoken line) E (Taken line ts) s := by
  unfold gettoken
  simp only [wp_bind, wp_read, wp_update, wp_pure]
  have hAt := h.skip.tokens
  have hLe := h.skip.le
  generalize hq : advance line isSpace s = q at hAt hLe
  cases hDrop : line.drop q with
  | nil =>
    rw [hDrop, tokens_nil] at hAt
    have hEnd : tokenAt line q = (0, q) := by simp only [tokenAt, charAt_of_end hDrop, if_true]
    rw [← hAt, hEnd]
    exact ⟨rfl, At.skip ⟨hLe, by rw [hDrop, tokens_nil]⟩⟩
  | cons c cs =>
    obtain ⟨hc, hcs, hLt⟩ := charAt_of_drop hDrop
    rw [← hq] at hDrop
    have hSpace := head_skip h.le hDrop
    rw [hq] at hDrop
    have hZero : c ≠ 0 := hNul c (List.mem_of_mem_drop (by rw [hDrop]; exact List.mem_cons_self))
    have hNext : At line (q + 1) (tokens cs) := ⟨hLt, by rw [hcs]⟩
    rw [hDrop, tokens, if_neg (Bool.eq_false_iff.mp hSpace)] at hAt
    simp only [tokenAt, hc]
    rw [if_neg hZero]
    by_cases hMem : c ∈ [124, 40, 41, 59, 38, 60]
    · obtain ⟨t, ht, -, hKind, hWord, hGreat, -⟩ := symbolToken_of_mem hMem
      rw [if_neg hGreat, ht] at hAt
      rw [if_pos hMem, ← hAt]
      exact ⟨hKind.symm, hNext.skip, fun w hw => absurd hw (hWord w)⟩
    rw [if_neg hMem]
    by_cases hGreat : c = 62
    · rw [if_pos hGreat] at hAt
      rw [if_pos hGreat]
      cases cs with
      | nil =>
        rw [if_neg (by simp)] at hAt
        rw [charAt_of_end hcs, if_neg (by decide), ← hAt]
        exact ⟨hGreat, hNext.skip, fun w => Token.noConfusion⟩
      | cons d ds =>
        obtain ⟨hd, hds, hLt'⟩ := charAt_of_drop hcs
        rw [List.head?_cons, List.tail_cons] at hAt
        rw [hd]
        by_cases hPair : d = 62
        · rw [if_pos (by rw [hPair])] at hAt
          rw [if_pos hPair, ← hAt]
          exact ⟨rfl, At.skip ⟨hLt', by rw [hds]⟩, fun w => Token.noConfusion⟩
        · rw [if_neg fun hEq => hPair (Option.some.inj hEq)] at hAt
          rw [if_neg hPair, ← hAt]
          exact ⟨hGreat, hNext.skip, fun w => Token.noConfusion⟩
    · obtain ⟨hWord, -⟩ := isWord_of_rest hSpace hMem hGreat
      rw [if_neg hGreat, symbolToken_eq_none hMem] at hAt
      rw [if_neg hGreat, ← hAt]
      have hRest := drop_advance (p := isWord) hLe
      rw [hDrop, List.dropWhile_cons_of_pos hWord] at hRest
      refine ⟨rfl, At.skip ⟨advance_le hLe, by rw [hRest]⟩, fun w hw => ⟨?_, isRun_advance hDrop hWord⟩⟩
      rw [text_advance hLe, hDrop, List.takeWhile_cons_of_pos hWord]
      exact Token.word.inj hw

end

end Xv6K230.Shell
