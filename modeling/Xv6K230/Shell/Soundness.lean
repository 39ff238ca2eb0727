import Xv6K230.Shell.Lexing

/-! # What the parser returns is derived

Each function of the parser consumes tokens that its nonterminal derives, and never runs out of fuel.
-/

namespace Xv6K230.Shell

open List (length_append length_cons)
open Prog

structure Means (line : List UInt8) (cmd : Cmd Span) (u : Cmd (List UInt8)) : Prop where
  text : cmd.map (Shell.text line) = u
  runs : cmd.All (IsRun line)

/-! ## One token -/

section

variable {ts : List Token} {t t' : Token}

lemma lead_injective (ht : t ∈ [Token.bar, .amp, .semi, .lparen, .rparen]) (h : t'.lead = t.lead) : t' = t := by
  simp only [List.mem_cons, List.not_mem_nil, or_false] at ht
  rcases ht with rfl | rfl | rfl | rfl | rfl <;> cases t' <;> first | rfl | simp [Token.lead] at h

lemma lookahead_single (ht : t ∈ [Token.bar, .amp, .semi, .lparen, .rparen]) (h : lookahead [t.lead] ts = true) :
    ∃ rest, ts = t :: rest := by
  cases ts with
  | nil => cases h
  | cons t' rest =>
    rw [lookahead, decide_eq_true_eq, List.mem_singleton] at h
    exact ⟨rest, by rw [lead_injective ht h]⟩

lemma lookahead_redir (h : lookahead [60, 62] ts = true) : ∃ (d : Direction) (rest : List Token), ts = d.token :: rest := by
  cases ts with
  | nil => cases h
  | cons t rest =>
    rw [lookahead, decide_eq_true_eq] at h
    cases t with
    | less => exact ⟨.input, rest, rfl⟩
    | great => exact ⟨.output, rest, rfl⟩
    | append => exact ⟨.append, rest, rfl⟩
    | _ => simp [Token.lead] at h

lemma kind_word (h : t.kind = 97) : ∃ w, t = .word w := by
  cases t with
  | word w => exact ⟨w, rfl⟩
  | _ => simp [Token.kind, Token.lead] at h

lemma kind_ne_zero (t : Token) : t.kind ≠ 0 := by
  cases t <;> simp [Token.kind, Token.lead]

lemma redirect_token (d : Direction) (cmd : Cmd Span) (w : Span) :
    redirect d.token.kind cmd w = .redir cmd w d.mode d.fd := by
  cases d <;> rfl

end

section

variable {line : List UInt8} {cmd : Cmd Span} {u : Cmd (List UInt8)} {w : Span}

lemma Means.redirect (h : Means line cmd u) (hw : IsRun line w) (d : Direction) :
    Means line (redirect d.token.kind cmd w) (u.wrap [⟨d, Shell.text line w⟩]) := by
  rw [redirect_token]
  exact ⟨by rw [← h.text]; rfl, h.runs, hw⟩

lemma Means.addArg (h : Means line cmd u) (hw : IsRun line w) : Means line (cmd.addArg w) (u.addArg (Shell.text line w)) :=
  ⟨by rw [Cmd.map_addArg, h.text], h.runs.addArg hw⟩

lemma Means.back (h : Means line cmd u) : Means line (.back cmd) (.back u) := ⟨by rw [← h.text]; rfl, h.runs⟩

lemma Means.pipe {cmd' : Cmd Span} {u' : Cmd (List UInt8)} (h : Means line cmd u) (h' : Means line cmd' u') :
    Means line (.pipe cmd cmd') (.pipe u u') := ⟨by rw [← h.text, ← h'.text]; rfl, h.runs, h'.runs⟩

lemma Means.list {cmd' : Cmd Span} {u' : Cmd (List UInt8)} (h : Means line cmd u) (h' : Means line cmd' u') :
    Means line (.list cmd cmd') (.list u u') := ⟨by rw [← h.text, ← h'.text]; rfl, h.runs, h'.runs⟩

lemma means_exec : Means line (.exec []) (.exec []) := ⟨rfl, fun _ hw => absurd hw List.not_mem_nil⟩

end

section

variable {E : Halt → Prop} {line : List UInt8} (hNul : ∀ c ∈ line, c ≠ 0)

include hNul

lemma gettoken_skip {s : Nat} {t : Token} {rest : List Token} (h : At line s (t :: rest)) :
    wp (gettoken line) E (fun _ u => At line u rest) s :=
  wp_post (gettoken_spec hNul h) fun _ _ hu => hu.2.1

/-! ## Functions of the parser -/

lemma redirsLoop_sound : ∀ (n : Nat) {s : Nat} {ts : List Token} {cmd : Cmd Span} {u : Cmd (List UInt8)}, At line s ts → ts.length < n →
    Means line cmd u → wp (redirsLoop line n cmd) (· ≠ .fuel) (fun c t => ∃ rs rest, ts = rs.flatMap Redir.tokens ++ rest ∧
      At line t rest ∧ Means line c (u.wrap rs)) s
  | 0, _, _, _, _, _, hFuel, _ => absurd hFuel (Nat.not_lt_zero _)
  | n + 1, s, ts, cmd, u, h, hFuel, hMeans => by
    rw [redirsLoop]
    apply wp_call (peek_spec hNul h (by decide))
    rintro b s1 ⟨h1, rfl⟩
    by_cases hMore : lookahead [60, 62] ts = true
    · rw [if_pos hMore]
      obtain ⟨d, ts1, rfl⟩ := lookahead_redir hMore
      apply wp_call (gettoken_spec hNul h1)
      rintro ⟨tok, w0⟩ s2 ⟨hTok, h2, -⟩
      obtain rfl : tok = d.token.kind := hTok
      apply wp_call (gettoken_spec hNul h2)
      rintro ⟨kind, w⟩ s3 hTaken
      dsimp only
      by_cases hKind : kind = 97
      · rw [if_neg (not_not.mpr hKind)]
        subst hKind
        cases ts1 with
        | nil => exact absurd (show (97 : UInt8) = 0 from hTaken.1) (by decide)
        | cons t ts2 =>
          obtain ⟨hWord, h3, hText⟩ := hTaken
          obtain ⟨v, rfl⟩ := kind_word hWord.symm
          obtain ⟨rfl, hRun⟩ := hText v rfl
          simp only [length_cons] at hFuel
          apply wp_post (redirsLoop_sound n h3 (by omega) (hMeans.redirect hRun d))
          rintro c t ⟨rs, rest, rfl, ht, hc⟩
          exact ⟨⟨d, text line w⟩ :: rs, rest, rfl, ht, hc⟩
      · rw [if_pos hKind]
        exact (wp_stop _).mpr Halt.noConfusion
    · rw [if_neg hMore]
      exact wp_val ⟨[], ts, rfl, h1, hMeans⟩

lemma parseredirs_sound {s : Nat} {ts : List Token} {cmd : Cmd Span} {u : Cmd (List UInt8)} (h : At line s ts) (hMeans : Means line cmd u) :
    wp (parseredirs line cmd) (· ≠ .fuel) (fun c t => ∃ rs rest, ts = rs.flatMap Redir.tokens ++ rest ∧
      At line t rest ∧ Means line c (u.wrap rs)) s :=
  redirsLoop_sound hNul _ h (Nat.lt_succ_of_le h.length_le) hMeans

lemma argsLoop_sound : ∀ (n : Nat) {s : Nat} {ts : List Token} {cmd : Cmd Span} {argv : List (List UInt8)} {rs : List (Redir (List UInt8))},
    At line s ts → ts.length < n → argv.length < maxargs → Means line cmd ((Cmd.exec argv).wrap rs) →
    wp (argsLoop line n argv.length cmd) (· ≠ .fuel) (fun c t => ∃ (args : List (Arg (List UInt8))) (rest : List Token),
      ts = args.flatMap Arg.tokens ++ rest ∧ At line t rest ∧ argv.length + args.length < maxargs ∧
      Means line c ((Cmd.exec (argv ++ args.map Prod.fst)).wrap (rs ++ args.flatMap Prod.snd))) s
  | 0, _, _, _, _, _, _, hFuel, _, _ => absurd hFuel (Nat.not_lt_zero _)
  | n + 1, s, ts, cmd, argv, rs, h, hFuel, hArgc, hMeans => by
    have hDone : ∀ {t : Nat}, At line t ts → ∃ (args : List (Arg (List UInt8))) (rest : List Token),
        ts = args.flatMap Arg.tokens ++ rest ∧ At line t rest ∧ argv.length + args.length < maxargs ∧
        Means line cmd ((Cmd.exec (argv ++ args.map Prod.fst)).wrap (rs ++ args.flatMap Prod.snd)) :=
      fun ht => ⟨[], ts, rfl, ht, hArgc, by simpa using hMeans⟩
    rw [argsLoop]
    apply wp_call (peek_spec hNul h (by decide))
    rintro b s1 ⟨h1, rfl⟩
    by_cases hEnd : lookahead [124, 41, 38, 59] ts = true
    · rw [if_pos hEnd]
      exact wp_val (hDone h1)
    rw [if_neg hEnd]
    apply wp_call (gettoken_spec hNul h1)
    rintro ⟨tok, w⟩ s2 hTaken
    dsimp only
    cases ts with
    | nil =>
      rw [if_pos hTaken.1]
      exact wp_val (hDone hTaken.2)
    | cons t ts1 =>
      obtain ⟨hTok, h2, hText⟩ := hTaken
      obtain rfl : tok = t.kind := hTok
      rw [if_neg (kind_ne_zero t)]
      by_cases hKind : t.kind = 97
      · rw [if_neg (not_not.mpr hKind)]
        obtain ⟨v, rfl⟩ := kind_word hKind
        obtain ⟨hv, hRun⟩ := hText v rfl
        dsimp only at hv hRun
        subst hv
        by_cases hMany : argv.length + 1 ≥ maxargs
        · rw [if_pos hMany]
          exact (wp_stop _).mpr Halt.noConfusion
        rw [if_neg hMany]
        have hArg := hMeans.addArg hRun
        rw [Cmd.addArg_wrap] at hArg
        apply wp_call (parseredirs_sound hNul h2 hArg)
        rintro c s3 ⟨rs', ts2, rfl, h3, hc⟩
        rw [← Cmd.wrap_append] at hc
        simp only [length_cons, length_append] at hFuel
        have hNext := argsLoop_sound n h3 (by omega) (by rw [length_append, List.length_singleton]; omega) hc
        rw [length_append, List.length_singleton] at hNext
        apply wp_post hNext
        rintro c' t ⟨args, rest, rfl, ht, hLen, hc'⟩
        refine ⟨(text line w, rs') :: args, rest, ?_, ht, ?_, ?_⟩
        · simp [Arg.tokens]
        · rw [length_cons]
          omega
        · simpa using hc'
      · rw [if_pos hKind]
        exact (wp_stop _).mpr Halt.noConfusion

omit hNul in
/-- On fewer than `N` tokens `m` does not run out of fuel, and what it returns is derived from the nonterminal. -/
def Sound (line : List UInt8) (sym : Sym) (m : ShM (Cmd Span)) (N : Nat) : Prop :=
  ∀ {s : Nat} {ts : List Token}, At line s ts → ts.length < N → wp m (· ≠ .fuel) (fun c t => ∃ used rest u,
    ts = used ++ rest ∧ At line t rest ∧ Means line c u ∧ Derives sym used u) s

variable {parseLine : ShM (Cmd Span)} {N : Nat}

lemma parseblock_sound (hLine : Sound line .line parseLine N) : Sound line .exec (parseblock line parseLine) (N + 1) := by
  intro s ts h hFuel
  unfold parseblock
  apply wp_call (peek_spec hNul h (by decide))
  rintro b s1 ⟨h1, rfl⟩
  by_cases hOpen : lookahead [40] ts = true
  · rw [if_pos hOpen]
    obtain ⟨ts1, rfl⟩ := lookahead_single (t := .lparen) (by decide) hOpen
    rw [length_cons] at hFuel
    apply wp_call (gettoken_skip hNul h1)
    intro _ s2 h2
    apply wp_call (hLine h2 (by omega))
    rintro cmd s3 ⟨used, ts2, u, rfl, h3, hMeans, hDerives⟩
    apply wp_call (peek_spec hNul h3 (by decide))
    rintro b s4 ⟨h4, rfl⟩
    by_cases hClose : lookahead [41] ts2 = true
    · rw [if_pos hClose]
      obtain ⟨ts3, rfl⟩ := lookahead_single (t := .rparen) (by decide) hClose
      apply wp_call (gettoken_skip hNul h4)
      intro _ s5 h5
      apply wp_post (parseredirs_sound hNul h5 hMeans)
      rintro c t ⟨rs, rest, rfl, ht, hc⟩
      exact ⟨_, rest, _, by simp, ht, hc, .block rs hDerives⟩
    · rw [if_neg hClose]
      exact (wp_stop _).mpr Halt.noConfusion
  · rw [if_neg hOpen]
    exact (wp_stop _).mpr Halt.noConfusion

lemma parseexec_sound (hLine : Sound line .line parseLine N) : Sound line .exec (parseexec line parseLine) (N + 1) := by
  intro s ts h hFuel
  unfold parseexec
  apply wp_call (peek_spec hNul h (by decide))
  rintro b s1 ⟨h1, rfl⟩
  by_cases hOpen : lookahead [40] ts = true
  · rw [if_pos hOpen]
    exact parseblock_sound hNul hLine h1 hFuel
  · rw [if_neg hOpen]
    apply wp_call (parseredirs_sound hNul h1 means_exec)
    rintro cmd s2 ⟨rs, ts1, rfl, h2, hMeans⟩
    apply wp_post (argsLoop_sound hNul _ h2 (Nat.lt_succ_of_le h2.length_le) (by decide) hMeans)
    rintro c t ⟨args, rest, rfl, ht, hLen, hc⟩
    rw [List.length_nil, Nat.zero_add] at hLen
    exact ⟨_, rest, _, (List.append_assoc ..).symm, ht, hc, .simple rs args hLen⟩

lemma pipeLoop_sound (hLine : Sound line .line parseLine N) : ∀ n, Sound line .pipe (pipeLoop line parseLine n) (min n (N + 1))
  | 0, _, _, _, hFuel => absurd hFuel (by omega)
  | n + 1, s, ts, h, hFuel => by
    rw [pipeLoop]
    apply wp_call (parseexec_sound hNul hLine h (by omega))
    rintro cmd s1 ⟨used, ts1, u, rfl, h1, hMeans, hDerives⟩
    apply wp_call (peek_spec hNul h1 (by decide))
    rintro b s2 ⟨h2, rfl⟩
    by_cases hBar : lookahead [124] ts1 = true
    · rw [if_pos hBar]
      obtain ⟨ts2, rfl⟩ := lookahead_single (t := .bar) (by decide) hBar
      apply wp_call (gettoken_skip hNul h2)
      intro _ s3 h3
      rw [length_append, length_cons] at hFuel
      apply wp_call (pipeLoop_sound hLine n h3 (by omega))
      rintro right t ⟨used', rest, u', rfl, ht, hMeans', hDerives'⟩
      exact wp_val ⟨used ++ .bar :: used', rest, _, by simp, ht, hMeans.pipe hMeans', .pipe hDerives hDerives'⟩
    · rw [if_neg hBar]
      exact wp_val ⟨used, ts1, u, rfl, h2, hMeans, .last hDerives⟩

lemma backLoop_sound : ∀ (n : Nat) {s : Nat} {ts : List Token} {cmd : Cmd Span} {u : Cmd (List UInt8)}, At line s ts → ts.length < n →
    Means line cmd u → wp (backLoop line n cmd) (· ≠ .fuel) (fun c t => ∃ k rest, ts = List.replicate k Token.amp ++ rest ∧
      At line t rest ∧ Means line c (u.backs k)) s
  | 0, _, _, _, _, _, hFuel, _ => absurd hFuel (Nat.not_lt_zero _)
  | n + 1, s, ts, cmd, u, h, hFuel, hMeans => by
    rw [backLoop]
    apply wp_call (peek_spec hNul h (by decide))
    rintro b s1 ⟨h1, rfl⟩
    by_cases hAmp : lookahead [38] ts = true
    · rw [if_pos hAmp]
      obtain ⟨ts1, rfl⟩ := lookahead_single (t := .amp) (by decide) hAmp
      rw [length_cons] at hFuel
      apply wp_call (gettoken_skip hNul h1)
      intro _ s2 h2
      apply wp_post (backLoop_sound n h2 (by omega) hMeans.back)
      rintro c t ⟨k, rest, rfl, ht, hc⟩
      exact ⟨k + 1, rest, rfl, ht, hc⟩
    · rw [if_neg hAmp]
      exact wp_val ⟨0, ts, rfl, h1, hMeans⟩

lemma parseline_sound : ∀ N, Sound line .line (parseline line N) N
  | 0, _, _, _, hFuel => absurd hFuel (Nat.not_lt_zero _)
  | N + 1, s, ts, h, hFuel => by
    have hLen := h.length_le
    rw [parseline, parsepipe]
    apply wp_call (pipeLoop_sound hNul (parseline_sound N) _ h (by omega))
    rintro cmd s1 ⟨used, ts1, u, rfl, h1, hMeans, hDerives⟩
    apply wp_call (backLoop_sound hNul _ h1 (Nat.lt_succ_of_le h1.length_le) hMeans)
    rintro cmd' s2 ⟨k, ts2, rfl, h2, hMeans'⟩
    apply wp_call (peek_spec hNul h2 (by decide))
    rintro b s3 ⟨h3, rfl⟩
    by_cases hSemi : lookahead [59] ts2 = true
    · rw [if_pos hSemi]
      obtain ⟨ts3, rfl⟩ := lookahead_single (t := .semi) (by decide) hSemi
      apply wp_call (gettoken_skip hNul h3)
      intro _ s4 h4
      simp only [length_append, length_cons] at hFuel
      apply wp_call (parseline_sound N h4 (by omega))
      rintro right t ⟨used', rest, u', rfl, ht, hMeans'', hDerives'⟩
      exact wp_val ⟨_, rest, _, by simp, ht, hMeans'.list hMeans'', .list k hDerives hDerives'⟩
    · rw [if_neg hSemi]
      exact wp_val ⟨_, ts2, _, (List.append_assoc ..).symm, h3, hMeans', .line k hDerives⟩

end

end Xv6K230.Shell
