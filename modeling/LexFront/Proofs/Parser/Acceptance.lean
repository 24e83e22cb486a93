import LexFront.CMake.Lexicon
import LexFront.Proofs.Parser.Session

/-!
# What it takes to be accepted

The verdict on a parse falls at the first call of `finish`, whoever makes it and whatever came
before: the parse is accepted exactly if it is not aborted at that moment, nothing but trivia is
left, and no token has been reported as unexpected. This is the only way to be accepted, and it
cannot be undone.

`Judged` is the invariant behind it. Before the first call of `finish` a session is nothing but an
effect on its parser. After it the session consists of three parts: what came before, what was
skipped before the outcome was settled, and what came after.

Key facts:

* `Concludes.accepted_iff`: the verdict, in terms of the parser that is finished.
* `Judged.moves`: the invariant is kept by every move.
* `verdict_of_session`: what a session comes to.
-/

set_option autoImplicit false

namespace LexFront

namespace Parser

variable {σ T δ : Type} [LexemeSource σ T] [Terminal T]

/-- Nothing but trivia is left up to the end of the input. -/
def OnlyTriviaLeft (p : Parser σ T δ) : Prop :=
  ∃ xs s, p.tokens.Yields xs s ∧ s.isAtEnd = true ∧ ∀ x ∈ xs, x.isTrivia = true

/-- Where nothing but trivia is left, skipping trivia gets to the end. -/
theorem isAtEnd_of_skips {p q : Parser σ T δ} (h : Skips p q) (hp : p.OnlyTriviaLeft) :
    q.isAtEnd = true := by
  obtain ⟨xs, s, hxs, hend, htrivia⟩ := hp
  induction h generalizing xs with
  | stop hstop =>
    cases hxs with
    | nil => exact hend
    | cons _ _ => rw [htrivia _ List.mem_cons_self] at hstop; cases hstop
  | @take p q htake _ ih =>
    have hopen : p.tokens.isAtEnd = false := (Lexeme.of_isTrivia htake).2
    cases hxs with
    | nil => rw [hopen] at hend; cases hend
    | cons _ hrest => exact ih _ hrest fun x hx ↦ htrivia x (List.mem_cons_of_mem _ hx)

variable [DiagnosticSink δ]

theorem isAtEnd_skips_iff {p q : Parser σ T δ} (h : Skips p q) :
    q.isAtEnd = true ↔ p.OnlyTriviaLeft := by
  refine ⟨fun hend ↦ ?_, isAtEnd_of_skips h⟩
  obtain ⟨-, xs, he, hxs⟩ := h.effect
  exact ⟨xs, q.tokens, he.tokens, hend, hxs⟩

/-- **The verdict on a parse**, in terms of the parser that is finished. -/
theorem Concludes.accepted_iff {p q : Parser σ T δ} (h : Concludes p q) :
    q.verdict.accepted = true ↔ p.aborted = false ∧ p.OnlyTriviaLeft ∧ p.errorCount = 0 := by
  cases h with
  | aborted ha => simp [verdict, ha]
  | skips ha hskip =>
    obtain ⟨-, xs, he, -⟩ := hskip.effect
    have haborted : q.aborted = false := hskip.aborted.trans ha
    have hcount : q.errorCount = p.errorCount := he.errorCount
    simp [verdict, haborted, hcount, ha, isAtEnd_skips_iff hskip]

namespace Session

variable [DecidableEq T]

/-- What has become of a parser in a session: it has only been used, or it was used, finished, and
used again. -/
inductive Judged (p : Parser σ T δ) (s : Session σ T δ) : Prop where
  | running {xs : List (Lexeme T)} {ds : List Diagnostic} : s.finishes = [] →
      Effect p xs ds s.parser → Judged p s
  | settled {m q : Parser σ T δ} {ms : List (Parser σ T δ)} {xs ys : List (Lexeme T)}
      {ds es : List Diagnostic} : s.finishes = m :: ms → Effect p xs ds m → Concludes m q →
      Effect q.settle.2 ys es s.parser → Judged p s

omit [DecidableEq T] in
/-- A parser that is finished stays so. -/
theorem Moves.outcome {s s' : Session σ T δ} {o : Outcome} (h : Moves s s')
    (ho : s.parser.outcome = some o) : s'.parser.outcome = some o := by
  cases h with
  | on he _ => exact he.outcome.trans ho
  | closes he hfinish _ =>
    have hm := he.outcome.trans ho
    rw [hfinish.eq_of_finished hm]
    exact hm

theorem outcome_of_reaches {s s' : Session σ T δ} {o : Outcome} (h : Reaches s s')
    (ho : s.parser.outcome = some o) : s'.parser.outcome = some o := by
  induction h with
  | refl => exact ho
  | tail _ h ih => exact (moves_of_does h).outcome ih

variable {p : Parser σ T δ}

omit [DecidableEq T] in
/-- **Every move keeps the judgement.** -/
theorem Judged.moves {s s' : Session σ T δ} (hp : p.outcome = none) (h : Judged p s)
    (hm : Moves s s') : Judged p s' := by
  cases h with
  | running hlog he =>
    cases hm with
    | on he' hlog' => exact .running (hlog'.trans hlog) (he.trans he')
    | @closes m _ _ he' hfinish hlog' =>
      -- Nothing has been settled so far, so that this call is the first.
      have hem := he.trans he'
      obtain ⟨q, hconclude, hq⟩ := hfinish.exists_concludes (hem.outcome.trans hp)
      have hnext : Effect q.settle.2 [] [] s'.parser := by
        rw [hq]
        exact .refl _
      rw [hlog] at hlog'
      exact .settled hlog' hem hconclude hnext
  | @settled m q ms xs ys ds es hlog he hconclude he' =>
    cases hm with
    | on he'' hlog' => exact .settled (hlog'.trans hlog) he hconclude (he'.trans he'')
    | @closes m' _ _ he'' hfinish hlog' =>
      -- A later call finds the outcome settled and leaves it.
      have hafter := he'.trans he''
      have hm' : m'.outcome = some q.verdict := hafter.outcome
      rw [hlog] at hlog'
      exact .settled hlog' he hconclude (hfinish.eq_of_finished hm' ▸ hafter)

theorem judged_of_reaches {s : Session σ T δ} (hp : p.outcome = none)
    (h : Reaches { parser := p } s) : Judged p s := by
  induction h with
  | refl => exact .running rfl (.refl p)
  | tail _ h ih => exact ih.moves hp (moves_of_does h)

omit [DecidableEq T] in
/-- What is accepted has been consumed to the end, without an invalid lexeme, and whatever is done
after that consumes nothing any more. -/
theorem exists_yields_of_accepted {m q r : Parser σ T δ} {xs ys : List (Lexeme T)}
    {ds es : List Diagnostic} (he : Effect p xs ds m) (hconclude : Concludes m q)
    (hafter : Effect q.settle.2 ys es r) (ho : q.verdict.accepted = true) :
    ∃ zs, p.tokens.Yields zs r.tokens ∧ r.isAtEnd = true ∧ (∀ z ∈ zs, z.isInvalid = false) ∧
      q.consumed = p.consumed + zs.length := by
  obtain ⟨zs, hskip⟩ := exists_effect_of_concludes hconclude
  have hall := he.trans hskip
  obtain ⟨⟨haborted, hend⟩, -⟩ : (q.aborted = false ∧ q.isAtEnd = true) ∧ q.errorCount = 0 := by
    simpa [verdict] using ho
  -- At the end there is nothing to take, whatever is called.
  obtain ⟨-, htokens⟩ := hafter.tokens.of_isAtEnd hend
  have hr : r.tokens = q.tokens := htokens
  refine ⟨xs ++ zs, hr ▸ hall.tokens, ?_, hall.sound haborted, hall.consumed⟩
  show r.tokens.isAtEnd = true
  rw [hr]
  exact hend

/-- **The sole acceptance rule.** In a session on a source the parser is running until `finish` is
called for the first time, by whomever. Then the outcome is recorded: the parse is accepted exactly
if at that moment it was not aborted, nothing but trivia was left, and no unexpected token had been
reported. What is accepted has been consumed to the end, without an invalid lexeme. The outcome and
the phase are the same in every session that goes on from there. -/
theorem verdict_of_session (source : σ) (sink : δ) (skipLimit : Nat) (logExpectations : Bool)
    {s : Session σ T (δ × Recorder)}
    (h : Reaches (start source (sink, {}) skipLimit logExpectations) s) :
    (s.finishes = [] → s.parser.outcome = none ∧ s.parser.phase = .running) ∧
      ∀ m ms, s.finishes = m :: ms → ∃ o, s.parser.outcome = some o ∧
        s.parser.phase = (if o.accepted then .accepted else .rejected) ∧
        (o.accepted = true ↔ m.aborted = false ∧ m.OnlyTriviaLeft ∧
          ∀ d ∈ m.sink.2.diagnostics, d.kind ≠ .unexpectedToken) ∧
        (o.accepted = true → ∃ xs, (LexemeStream.ofSource source).Yields xs s.parser.tokens ∧
          s.parser.isAtEnd = true ∧ (∀ x ∈ xs, x.isInvalid = false) ∧
          o.tokensConsumed = xs.length) ∧
        ∀ s', Reaches s s' →
          s'.parser.outcome = some o ∧ s'.parser.phase = s.parser.phase := by
  cases judged_of_reaches rfl h with
  | running hlog he =>
    have ho : s.parser.outcome = none := he.outcome
    refine ⟨fun _ ↦ ⟨ho, by rw [phase, ho]⟩, fun m ms hm ↦ ?_⟩
    rw [hlog] at hm
    cases hm
  | @settled m q ms xs ys ds es hlog he hconclude hafter =>
    have ho : s.parser.outcome = some q.verdict := hafter.outcome
    have hphase : s.parser.phase = if q.verdict.accepted then .accepted else .rejected := by
      rw [phase, ho]
    refine ⟨fun hnil ↦ absurd (hlog.symm.trans hnil) (List.cons_ne_nil m ms), fun m' ms' hm ↦ ?_⟩
    obtain ⟨rfl, -⟩ : m = m' ∧ ms = ms' := by simpa [hlog] using hm
    refine ⟨_, ho, hphase, ?_, fun haccepted ↦ ?_, fun s' hs' ↦ ?_⟩
    · -- The count of errors and the record begin together, and every report goes to both.
      have hcount : m.errorCount = 0 ↔
          ∀ d ∈ m.sink.2.diagnostics, d.kind ≠ .unexpectedToken := by
        rw [he.errorCount, he.recorded]
        simp [ofSource, Diagnostic.count, tell, say]
      rw [hconclude.accepted_iff, hcount]
    · obtain ⟨zs, hzs, hend, hvalid, hconsumed⟩ :=
        exists_yields_of_accepted he hconclude hafter haccepted
      exact ⟨zs, hzs, hend, hvalid, hconsumed.trans (Nat.zero_add _)⟩
    · have ho' := outcome_of_reaches hs' ho
      exact ⟨ho', by rw [hphase, phase, ho']⟩

/-- An identifier that was expected, and a blank behind it when the parse is finished. -/
theorem verdict_of_session_blank :
    let source := LexemeList.ofPairs "u" [(CMake.Kind.identifier, ['x']), (.whitespace, [' '])]
    let p := (start source ((), ({} : Recorder)) 3 false).parser
    let m := (p.expect .identifier).2
    Reaches (start source ((), {}) 3 false) ⟨m.finish.2, [], [m]⟩ ∧
      m.finish.2.phase = .accepted ∧ m.finish.2.isAtEnd = true := by
  intro source p m
  have hreach : Reaches (start source ((), {}) 3 false) ⟨m.finish.2, [], [m]⟩ :=
    .tail (.single (.call (calls_expect p .identifier))) (.finish (closes_finish _))
  have hm : m = (p.expectNext (· = .identifier)).2 := by
    show (p.expectWhere (· = .identifier)).2 = _
    rw [expectWhere, if_neg (show ¬ p.aborted = true from Bool.false_ne_true),
      skipTrivia_of_not_isTrivia rfl]
  have hleft : m.OnlyTriviaLeft := by
    rw [hm]
    exact ⟨_, _, .single rfl, rfl, by decide⟩
  obtain ⟨o, -, hphase, hiff, hall, -⟩ := (verdict_of_session source () 3 false hreach).2 m [] rfl
  have haccepted : o.accepted = true := hiff.2 ⟨hm ▸ rfl, hleft, hm ▸ by decide⟩
  obtain ⟨-, -, hend, -⟩ := hall haccepted
  exact ⟨hreach, by rw [hphase, haccepted]; rfl, hend⟩

end Session

end Parser

end LexFront
