import Xv6K230.Shell.Soundness

/-! # What is derived the parser returns

By induction on derivations, each phrase with what may follow it: the parser takes the whole
phrase, no more, and returns the command that it stands for.
-/

namespace Xv6K230.Shell

open List (append_assoc length_append length_cons nil_append)
open Prog

/-! ## What may follow a phrase -/

def follow : Sym → List UInt8
  | .exec => [124, 41, 38, 59]
  | .pipe => [41, 38, 59]
  | .line => [41]

def Ends (sym : Sym) (rest : List Token) : Prop := rest = [] ∨ lookahead (follow sym) rest = true

lemma Ends.not_lookahead {sym : Sym} {rest : List Token} {toks : List UInt8} (h : Ends sym rest) (hToks : toks.all (· ∉ follow sym)) :
    lookahead toks rest = false := by
  cases rest with
  | nil => rfl
  | cons t rest =>
    have hLead := h.resolve_left (List.cons_ne_nil _ _)
    rw [lookahead, decide_eq_true_eq] at hLead
    rw [lookahead, decide_eq_false_iff_not]
    exact fun hIn => of_decide_eq_true (List.all_eq_true.mp hToks _ hIn) hLead

lemma Ends.exec_of_pipe {rest : List Token} (h : Ends .pipe rest) : Ends .exec rest := by
  refine h.imp_right fun hLead => ?_
  cases rest with
  | nil => cases hLead
  | cons t rest =>
    rw [lookahead, decide_eq_true_eq] at hLead ⊢
    exact List.mem_cons_of_mem _ hLead

lemma ends_pipe {rest : List Token} (h : Ends .line rest) (k : Nat) : Ends .pipe (List.replicate k Token.amp ++ rest) := by
  cases k with
  | zero =>
    refine h.imp_right fun hLead => ?_
    obtain ⟨rest', rfl⟩ := lookahead_single (t := .rparen) (by decide) hLead
    rfl
  | succ k => exact .inr rfl

section

variable {E : Halt → Prop} {line : List UInt8} (hNul : ∀ c ∈ line, c ≠ 0)

include hNul

/-! ## Loops -/

lemma redirsLoop_complete {rest : List Token} (hRest : lookahead [60, 62] rest = false) :
    ∀ (rs : List (Redir (List UInt8))) {n s : Nat} {cmd : Cmd Span} {u : Cmd (List UInt8)},
    At line s (rs.flatMap Redir.tokens ++ rest) → (rs.flatMap Redir.tokens ++ rest).length < n → Means line cmd u →
    wp (redirsLoop line n cmd) E (fun c t => At line t rest ∧ Means line c (u.wrap rs)) s
  | _, 0, _, _, _, _, hFuel, _ => absurd hFuel (Nat.not_lt_zero _)
  | [], n + 1, s, cmd, u, h, hFuel, hMeans => by
    rw [redirsLoop]
    apply wp_call (peek_spec hNul h (by decide))
    rintro b s1 ⟨h1, rfl⟩
    rw [List.flatMap_nil, nil_append] at h1
    rw [List.flatMap_nil, nil_append, hRest, if_neg Bool.false_ne_true]
    exact wp_val ⟨h1, hMeans⟩
  | r :: rs, n + 1, s, cmd, u, h, hFuel, hMeans => by
    have hMore : lookahead [60, 62] ((r :: rs).flatMap Redir.tokens ++ rest) = true := by
      obtain ⟨d, file⟩ := r
      cases d <;> rfl
    rw [redirsLoop]
    apply wp_call (peek_spec hNul h (by decide))
    rintro b s1 ⟨h1, rfl⟩
    rw [if_pos hMore]
    apply wp_call (gettoken_spec hNul h1)
    rintro ⟨tok, w0⟩ s2 ⟨hTok, h2, -⟩
    obtain rfl : tok = r.dir.token.kind := hTok
    apply wp_call (gettoken_spec hNul h2)
    rintro ⟨kind, w⟩ s3 ⟨hKind, h3, hText⟩
    obtain rfl : kind = 97 := hKind
    obtain ⟨hFile, hRun⟩ := hText r.file rfl
    simp only [ne_eq, not_true_eq_false, if_false]
    have hLen : (rs.flatMap Redir.tokens ++ rest).length < n := by
      grind [length_append, length_cons, List.length_nil, Redir.tokens]
    have hNext := hMeans.redirect hRun r.dir
    rw [hFile] at hNext
    exact redirsLoop_complete hRest rs h3 hLen hNext

lemma parseredirs_complete {rest : List Token} (hRest : lookahead [60, 62] rest = false) (rs : List (Redir (List UInt8))) {s : Nat}
    {cmd : Cmd Span} {u : Cmd (List UInt8)} (h : At line s (rs.flatMap Redir.tokens ++ rest)) (hMeans : Means line cmd u) :
    wp (parseredirs line cmd) E (fun c t => At line t rest ∧ Means line c (u.wrap rs)) s :=
  redirsLoop_complete hNul hRest rs h (Nat.lt_succ_of_le h.length_le) hMeans

omit hNul in
lemma args_not_redir {rest : List Token} (hRest : Ends .exec rest) (args : List (Arg (List UInt8))) :
    lookahead [60, 62] (args.flatMap Arg.tokens ++ rest) = false := by
  cases args with
  | nil => exact hRest.not_lookahead (by decide)
  | cons a args => rfl

lemma argsLoop_complete {rest : List Token} (hRest : Ends .exec rest) :
    ∀ (args : List (Arg (List UInt8))) {n s : Nat} {cmd : Cmd Span} {argv : List (List UInt8)} {rs : List (Redir (List UInt8))},
    At line s (args.flatMap Arg.tokens ++ rest) → (args.flatMap Arg.tokens ++ rest).length < n →
    argv.length + args.length < maxargs → Means line cmd ((Cmd.exec argv).wrap rs) →
    wp (argsLoop line n argv.length cmd) E (fun c t => At line t rest ∧
      Means line c ((Cmd.exec (argv ++ args.map Prod.fst)).wrap (rs ++ args.flatMap Prod.snd))) s
  | _, 0, _, _, _, _, _, hFuel, _, _ => absurd hFuel (Nat.not_lt_zero _)
  | [], n + 1, s, cmd, argv, rs, h, hFuel, hArgc, hMeans => by
    have hDone : Means line cmd ((Cmd.exec (argv ++ [])).wrap (rs ++ [])) := by simpa using hMeans
    rw [List.flatMap_nil, nil_append] at h
    rw [argsLoop]
    apply wp_call (peek_spec hNul h (by decide))
    rintro b s1 ⟨h1, rfl⟩
    rcases hRest with rfl | hLead
    · rw [if_neg (by decide)]
      apply wp_call (gettoken_spec hNul h1)
      rintro ⟨tok, w⟩ s2 ⟨hTok, h2⟩
      obtain rfl : tok = 0 := hTok
      exact wp_val ⟨h2, hDone⟩
    · rw [if_pos (show lookahead [124, 41, 38, 59] rest = true from hLead)]
      exact wp_val ⟨h1, hDone⟩
  | a :: args, n + 1, s, cmd, argv, rs, h, hFuel, hArgc, hMeans => by
    have hTokens : (a :: args).flatMap Arg.tokens ++ rest =
        .word a.1 :: (a.2.flatMap Redir.tokens ++ (args.flatMap Arg.tokens ++ rest)) := by simp [Arg.tokens]
    rw [hTokens] at h hFuel
    rw [length_cons] at hArgc
    rw [argsLoop]
    apply wp_call (peek_spec hNul h (by decide))
    rintro b s1 ⟨h1, rfl⟩
    rw [if_neg (by simp [lookahead, Token.lead])]
    apply wp_call (gettoken_spec hNul h1)
    rintro ⟨tok, w⟩ s2 ⟨hTok, h2, hText⟩
    obtain rfl : tok = 97 := hTok
    obtain ⟨hWord, hRun⟩ := hText a.1 rfl
    dsimp only at hWord hRun ⊢
    rw [if_neg (by decide), if_neg (by decide), if_neg (by omega)]
    have hArg := hMeans.addArg hRun
    rw [Cmd.addArg_wrap, hWord] at hArg
    apply wp_call (parseredirs_complete hNul (args_not_redir hRest args) a.2 h2 hArg)
    rintro c s3 ⟨h3, hc⟩
    rw [← Cmd.wrap_append] at hc
    have hLen : (args.flatMap Arg.tokens ++ rest).length < n := by
      rw [length_cons, length_append] at hFuel
      omega
    have hNext := argsLoop_complete hRest args h3 hLen (by rw [length_append, List.length_singleton]; omega) hc
    rw [length_append, List.length_singleton] at hNext
    apply wp_post hNext
    rintro c' t ⟨ht, hc'⟩
    exact ⟨ht, by simpa using hc'⟩

lemma backLoop_complete {rest : List Token} (hRest : lookahead [38] rest = false) :
    ∀ (k : Nat) {n s : Nat} {cmd : Cmd Span} {u : Cmd (List UInt8)}, At line s (List.replicate k Token.amp ++ rest) →
    (List.replicate k Token.amp ++ rest).length < n → Means line cmd u →
    wp (backLoop line n cmd) E (fun c t => At line t rest ∧ Means line c (u.backs k)) s
  | _, 0, _, _, _, _, hFuel, _ => absurd hFuel (Nat.not_lt_zero _)
  | 0, n + 1, s, cmd, u, h, hFuel, hMeans => by
    rw [backLoop]
    apply wp_call (peek_spec hNul h (by decide))
    rintro b s1 ⟨h1, rfl⟩
    rw [List.replicate_zero, nil_append] at h1
    rw [List.replicate_zero, nil_append, hRest, if_neg Bool.false_ne_true]
    exact wp_val ⟨h1, hMeans⟩
  | k + 1, n + 1, s, cmd, u, h, hFuel, hMeans => by
    rw [backLoop]
    apply wp_call (peek_spec hNul h (by decide))
    rintro b s1 ⟨h1, rfl⟩
    rw [if_pos (by rfl)]
    apply wp_call (gettoken_skip hNul h1)
    intro _ s2 h2
    rw [List.replicate_succ, List.cons_append, length_cons] at hFuel
    exact backLoop_complete hRest k h2 (by omega) hMeans.back

/-! ## Phrases -/

omit hNul in
def Accepts (line : List UInt8) (sym : Sym) (m : ShM (Cmd Span)) (N : Nat) (ts : List Token) (u : Cmd (List UInt8)) : Prop :=
  ∀ {s : Nat} {rest : List Token}, At line s (ts ++ rest) → Ends sym rest → (ts ++ rest).length < N →
    wp m (fun _ => False) (fun c t => At line t rest ∧ Means line c u) s

omit hNul in
/-- The function for a nonterminal accepts the phrase, at any bound of the recursion that is high enough. -/
def Parses (line : List UInt8) : Sym → List Token → Cmd (List UInt8) → Prop
  | .exec, ts, u => ∀ N, Accepts line .exec (parseexec line (parseline line N)) (N + 1) ts u
  | .pipe, ts, u => ∀ N n, Accepts line .pipe (pipeLoop line (parseline line N) n) (min n (N + 1)) ts u
  | .line, ts, u => ∀ N, Accepts line .line (parseline line N) N ts u

variable {N : Nat} {ts ts' : List Token} {u u' : Cmd (List UInt8)}

lemma parses_simple (rs : List (Redir (List UInt8))) (args : List (Arg (List UInt8))) (hLen : args.length < maxargs) :
    Parses line .exec (rs.flatMap Redir.tokens ++ args.flatMap Arg.tokens)
      ((Cmd.exec (args.map Prod.fst)).wrap (rs ++ args.flatMap Prod.snd)) := by
  intro N s rest h hRest hFuel
  rw [append_assoc] at h
  have hOpen : lookahead [40] (rs.flatMap Redir.tokens ++ (args.flatMap Arg.tokens ++ rest)) = false := by
    cases rs with
    | cons r rs =>
      obtain ⟨d, file⟩ := r
      cases d <;> rfl
    | nil =>
      cases args with
      | cons a args => rfl
      | nil => exact hRest.not_lookahead (by decide)
  unfold parseexec
  apply wp_call (peek_spec hNul h (by decide))
  rintro b s1 ⟨h1, rfl⟩
  rw [hOpen, if_neg Bool.false_ne_true]
  apply wp_call (parseredirs_complete hNul (args_not_redir hRest args) rs h1 means_exec)
  rintro cmd s2 ⟨h2, hMeans⟩
  apply wp_post (argsLoop_complete hNul hRest args h2 (Nat.lt_succ_of_le h2.length_le) (by simpa using hLen) hMeans)
  exact fun c t hc => hc

lemma parses_block (rs : List (Redir (List UInt8))) (hLine : Parses line .line ts u) :
    Parses line .exec (.lparen :: (ts ++ .rparen :: rs.flatMap Redir.tokens)) (u.wrap rs) := by
  intro N s rest h hRest hFuel
  have hTokens : Token.lparen :: (ts ++ .rparen :: rs.flatMap Redir.tokens) ++ rest =
      .lparen :: (ts ++ .rparen :: (rs.flatMap Redir.tokens ++ rest)) := by simp
  rw [hTokens] at h hFuel
  unfold parseexec
  apply wp_call (peek_spec hNul h (by decide))
  rintro b s1 ⟨h1, rfl⟩
  rw [if_pos (by rfl)]
  unfold parseblock
  apply wp_call (peek_spec hNul h1 (by decide))
  rintro b s2 ⟨h2, rfl⟩
  rw [if_pos (by rfl)]
  apply wp_call (gettoken_skip hNul h2)
  intro _ s3 h3
  apply wp_call (hLine N h3 (.inr rfl) (by rw [length_cons] at hFuel; omega))
  rintro cmd s4 ⟨h4, hMeans⟩
  apply wp_call (peek_spec hNul h4 (by decide))
  rintro b s5 ⟨h5, rfl⟩
  rw [if_pos (by rfl)]
  apply wp_call (gettoken_skip hNul h5)
  intro _ s6 h6
  exact parseredirs_complete hNul (hRest.not_lookahead (by decide)) rs h6 hMeans

lemma parses_last (hExec : Parses line .exec ts u) : Parses line .pipe ts u := by
  intro N n s rest h hRest hFuel
  cases n with
  | zero => exact absurd hFuel (by omega)
  | succ n =>
    rw [pipeLoop]
    apply wp_call (hExec N h hRest.exec_of_pipe (by omega))
    rintro cmd s1 ⟨h1, hMeans⟩
    apply wp_call (peek_spec hNul h1 (by decide))
    rintro b s2 ⟨h2, rfl⟩
    rw [hRest.not_lookahead (by decide), if_neg Bool.false_ne_true]
    exact wp_val ⟨h2, hMeans⟩

lemma parses_pipe (hExec : Parses line .exec ts u) (hPipe : Parses line .pipe ts' u') :
    Parses line .pipe (ts ++ .bar :: ts') (.pipe u u') := by
  intro N n s rest h hRest hFuel
  rw [append_assoc, List.cons_append] at h hFuel
  cases n with
  | zero => exact absurd hFuel (by omega)
  | succ n =>
    rw [pipeLoop]
    apply wp_call (hExec N h (.inr rfl) (by omega))
    rintro cmd s1 ⟨h1, hMeans⟩
    apply wp_call (peek_spec hNul h1 (by decide))
    rintro b s2 ⟨h2, rfl⟩
    rw [if_pos (by rfl)]
    apply wp_call (gettoken_skip hNul h2)
    intro _ s3 h3
    rw [length_append, length_cons] at hFuel
    apply wp_call (hPipe N n h3 hRest (by omega))
    rintro right t ⟨ht, hMeans'⟩
    exact wp_val ⟨ht, hMeans.pipe hMeans'⟩

lemma parses_line (k : Nat) (hPipe : Parses line .pipe ts u) : Parses line .line (ts ++ List.replicate k .amp) (u.backs k) := by
  intro N s rest h hRest hFuel
  have hLen := h.length_le
  rw [append_assoc] at h hFuel hLen
  cases N with
  | zero => exact absurd hFuel (Nat.not_lt_zero _)
  | succ N =>
    rw [parseline, parsepipe]
    apply wp_call (hPipe N _ h (ends_pipe hRest k) (by omega))
    rintro cmd s1 ⟨h1, hMeans⟩
    apply wp_call (backLoop_complete hNul (hRest.not_lookahead (by decide)) k h1 (Nat.lt_succ_of_le h1.length_le) hMeans)
    rintro cmd' s2 ⟨h2, hMeans'⟩
    apply wp_call (peek_spec hNul h2 (by decide))
    rintro b s3 ⟨h3, rfl⟩
    rw [hRest.not_lookahead (by decide), if_neg Bool.false_ne_true]
    exact wp_val ⟨h3, hMeans'⟩

lemma parses_list (k : Nat) (hPipe : Parses line .pipe ts u) (hLine : Parses line .line ts' u') :
    Parses line .line (ts ++ List.replicate k .amp ++ .semi :: ts') (.list (u.backs k) u') := by
  intro N s rest h hRest hFuel
  have hLen := h.length_le
  rw [append_assoc, append_assoc, List.cons_append] at h hFuel hLen
  have hEnds : Ends .pipe (List.replicate k Token.amp ++ .semi :: (ts' ++ rest)) := by
    cases k <;> exact .inr rfl
  cases N with
  | zero => exact absurd hFuel (Nat.not_lt_zero _)
  | succ N =>
    rw [parseline, parsepipe]
    apply wp_call (hPipe N _ h hEnds (by omega))
    rintro cmd s1 ⟨h1, hMeans⟩
    apply wp_call (backLoop_complete hNul rfl k h1 (Nat.lt_succ_of_le h1.length_le) hMeans)
    rintro cmd' s2 ⟨h2, hMeans'⟩
    apply wp_call (peek_spec hNul h2 (by decide))
    rintro b s3 ⟨h3, rfl⟩
    rw [if_pos (by rfl)]
    apply wp_call (gettoken_skip hNul h3)
    intro _ s4 h4
    simp only [length_append, length_cons] at hFuel
    apply wp_call (hLine N h4 hRest (by rw [length_append]; omega))
    rintro right t ⟨ht, hMeans''⟩
    exact wp_val ⟨ht, hMeans'.list hMeans''⟩

lemma Derives.parses {sym : Sym} (h : Derives sym ts u) : Parses line sym ts u := by
  induction h with
  | simple rs args hLen => exact parses_simple hNul rs args hLen
  | block rs _ ih => exact parses_block hNul rs ih
  | last _ ih => exact parses_last hNul ih
  | pipe _ _ ih ih' => exact parses_pipe hNul ih ih'
  | line k _ ih => exact parses_line hNul k ih
  | list k _ _ ih ih' => exact parses_list hNul k ih ih'

/-! ## The whole line -/

omit hNul in
lemma at_start (line : List UInt8) : At line 0 (tokens line) := ⟨Nat.zero_le _, by rw [List.drop_zero]⟩

omit hNul in
lemma peek_end {s : Nat} (h : At line s ts) : wp (peek line []) E (fun _ t => t = line.length ↔ ts = []) s := by
  unfold peek
  rw [wp_bind, wp_update, wp_read]
  have hAt := h.skip
  constructor
  · intro hEnd
    rw [← hAt.tokens, hEnd, List.drop_length, tokens_nil]
  · rintro rfl
    cases hDrop : line.drop (advance line isSpace s) with
    | nil => exact Nat.le_antisymm hAt.le (List.drop_eq_nil_iff.mp hDrop)
    | cons c cs =>
      have hNil := hAt.tokens
      rw [hDrop] at hNil
      exact absurd hNil (tokens_ne_nil (head_skip h.le hDrop))

lemma parseAll_sound (hFuel : line.length < N) :
    wp (parseAll N line) (· ≠ .fuel) (fun c _ => ∃ u, Means line c u ∧ Derives .line (tokens line) u) 0 := by
  have hStart := at_start line
  unfold parseAll
  apply wp_call (parseline_sound hNul N hStart (lt_of_le_of_lt hStart.length_le hFuel))
  rintro cmd s1 ⟨used, rest, u, hTokens, h1, hMeans, hDerives⟩
  apply wp_call (peek_end h1)
  intro _ s2 hEnd
  rw [wp_bind, wp_read, id]
  by_cases hAll : s2 = line.length
  · rw [if_neg (not_not.mpr hAll), wp_pure]
    rw [hEnd.mp hAll, List.append_nil] at hTokens
    exact ⟨u, hMeans, hTokens ▸ hDerives⟩
  · rw [if_pos hAll]
    exact (wp_stop _).mpr Halt.noConfusion

lemma parseAll_complete (hFuel : line.length < N) (h : Derives .line (tokens line) u) :
    wp (parseAll N line) (fun _ => False) (fun c _ => Means line c u) 0 := by
  have hStart := at_start line
  rw [← List.append_nil (tokens line)] at hStart
  unfold parseAll
  apply wp_call (h.parses hNul N hStart (.inl rfl) (lt_of_le_of_lt hStart.length_le hFuel))
  rintro cmd s1 ⟨h1, hMeans⟩
  apply wp_call (peek_end h1)
  intro _ s2 hEnd
  rw [wp_bind, wp_read, id, if_neg (not_not.mpr (hEnd.mpr rfl)), wp_pure]
  exact hMeans

end

/-- `parsecmd` returns for every line without NUL characters. It returns a command exactly if the tokens of the line derive
one, and then this one; its words are longest runs of word characters. -/
theorem parsecmd_exact {line : List UInt8} (hNul : ∀ c ∈ line, c ≠ 0) {fuel : Nat} (hFuel : line.length < fuel) :
    parsecmd fuel line ≠ .error .fuel ∧
    (∀ u, (∃ cmd buf, parsecmd fuel line = .ok (cmd, buf) ∧ cmd.map (text line) = u) ↔ Derives .line (tokens line) u) ∧
    ∀ cmd buf, parsecmd fuel line = .ok (cmd, buf) → cmd.All (IsRun line) := by
  have hSound := parseAll_sound hNul hFuel
  have hReturns : ∀ cmd buf, parsecmd fuel line = .ok (cmd, buf) → ∃ u, Means line cmd u ∧ Derives .line (tokens line) u := by
    intro cmd buf hRun
    unfold parsecmd at hRun
    split at hRun
    · rename_i c s hAll
      obtain ⟨rfl, -⟩ := Prod.mk.inj (Except.ok.inj hRun)
      exact wp_ok hSound hAll
    · cases hRun
  refine ⟨?_, fun u => ⟨?_, fun hDerives => ?_⟩, fun cmd buf hRun => ?_⟩
  · intro hRun
    unfold parsecmd at hRun
    split at hRun
    · cases hRun
    · rename_i e hAll
      exact wp_error hSound hAll (Except.error.inj hRun)
  · rintro ⟨cmd, buf, hRun, rfl⟩
    obtain ⟨u, hMeans, hDerives⟩ := hReturns cmd buf hRun
    rw [hMeans.text]
    exact hDerives
  · obtain ⟨cmd, s, hAll, hMeans⟩ := wp_total (parseAll_complete hNul hFuel hDerives)
    exact ⟨cmd, _, by rw [parsecmd, hAll], hMeans.text⟩
  · obtain ⟨u, hMeans, -⟩ := hReturns cmd buf hRun
    exact hMeans.runs

/-- The line `a<b|c&;(d)>>e`. -/
def sampleLine : List UInt8 := [97, 60, 98, 124, 99, 38, 59, 40, 100, 41, 62, 62, 101]

def sampleCmd : Cmd (List UInt8) :=
  .list (.back (.pipe (.redir (.exec [[97]]) [98] oRdonly 0) (.exec [[99]]))) (.redir (.exec [[100]]) [101] (oWronly ||| oCreate) 1)

theorem parsecmd_exact_sample : (∃ cmd buf, parsecmd 14 sampleLine = .ok (cmd, buf) ∧ cmd.map (text sampleLine) = sampleCmd) ∧
    Derives .line (tokens sampleLine) sampleCmd := by
  have hNul : ∀ c ∈ sampleLine, c ≠ 0 := by simp [sampleLine]
  have hFuel : sampleLine.length < 14 := by decide
  have hRun : ∃ cmd buf, parsecmd 14 sampleLine = .ok (cmd, buf) ∧ cmd.map (text sampleLine) = sampleCmd := ⟨_, _, rfl, rfl⟩
  exact ⟨hRun, ((parsecmd_exact hNul hFuel).2.1 sampleCmd).mp hRun⟩

end Xv6K230.Shell
