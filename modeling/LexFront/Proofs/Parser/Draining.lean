import LexFront.Proofs.Parser.Driving

/-!
# Parsing without a grammar

`Parser.parse` consumes all lexemes and compares them with nothing, so that all it can find fault
with is an invalid lexeme. Without one it consumes every lexeme and says nothing to the sink; else
it reports the first one, and no more, and is aborted there.

Key facts:

* `drains_drive`: what the driver consumes and reports.
* `parses_parse`: what the parse comes to.
-/

set_option autoImplicit false

namespace LexFront

theorem Lexeme.invalid?_eq_none_iff {T : Type} {x : Lexeme T} :
    x.invalid? = none ↔ x.isInvalid = false := by
  cases x <;> simp [invalid?, isInvalid]

namespace Parser

variable {σ T δ : Type} [FiniteSource σ T] [Terminal T] [DiagnosticSink δ]

/-- The driver that consumes whatever comes. -/
def drain (_ : Unit) (p : Parser σ T δ) : Unit × Parser σ T δ := ((), p.advance.2)

omit [Terminal T] in
theorem isForward_drain : IsForward (drain (σ := σ) (T := T) (δ := δ)) :=
  fun _ p ↦ ⟨_, (advance_spec p).2.1.tokens⟩

omit [Terminal T] in
/-- Before its end a parser is not idle if it consumes whatever comes. -/
theorem isIdle_drain {p : Parser σ T δ} (h : p.isAtEnd = false) :
    (drain () p).2.isIdle p.consumed = false := by
  have hone : (drain () p).2.consumed = p.consumed + p.upcoming.length :=
    (advance_spec p).2.1.consumed
  simp [isIdle, hone, upcoming, h]

omit [Terminal T] in
/-- What comes before the next lexeme that is no trivia, and that lexeme, are the front of the
rest. -/
theorem rest_of_effect {p q : Parser σ T δ} {xs : List (Lexeme T)} {ds : List Diagnostic}
    (h : Effect p xs ds q) : p.tokens.rest.1 = xs ++ q.tokens.rest.1 := by
  rw [LexemeStream.rest_of_yields h.tokens]

omit [FiniteSource σ T] in
theorem findSome?_invalid?_of_isTrivia {xs : List (Lexeme T)} (h : ∀ x ∈ xs, x.isTrivia = true) :
    xs.findSome? Lexeme.invalid? = none := by
  rw [List.findSome?_eq_none_iff]
  exact fun x hx ↦ Lexeme.invalid?_eq_none_iff.2 (Lexeme.of_isTrivia (h x hx)).1

/-- What consuming whatever comes leads to: everything is consumed and nothing is reported, or the
first invalid token is reported and nothing else. -/
inductive Drains (p : Parser σ T δ) : Parser σ T δ → Prop where
  | valid {q : Parser σ T δ} : p.tokens.rest.1.findSome? Lexeme.invalid? = none →
      Effect p p.tokens.rest.1 [] q → q.aborted = false → q.isAtEnd = true → Drains p q
  | invalid {q : Parser σ T δ} {xs : List (Lexeme T)} {i : InvalidToken} :
      p.tokens.rest.1.findSome? Lexeme.invalid? = some i → Effect p xs [.invalidToken i] q →
      q.aborted = true → Drains p q

omit [Terminal T] in
/-- What is consumed first and is not invalid makes no difference. -/
theorem Drains.prepend {p q r : Parser σ T δ} {xs : List (Lexeme T)} (he : Effect p xs [] q)
    (hxs : xs.findSome? Lexeme.invalid? = none) (h : Drains q r) : Drains p r := by
  have hrest := rest_of_effect he
  have hfirst : p.tokens.rest.1.findSome? Lexeme.invalid? =
      q.tokens.rest.1.findSome? Lexeme.invalid? := by
    rw [hrest, List.findSome?_append, hxs, Option.none_or]
  cases h with
  | valid hnone heffect ha hend =>
    exact .valid (hfirst.trans hnone) (hrest ▸ he.trans heffect) ha hend
  | invalid hsome heffect ha => exact .invalid (hfirst.trans hsome) (he.trans heffect) ha

/-- **Consuming whatever comes** consumes all, or stops at the first invalid token. -/
theorem drains_drive (forced : Nat) (g : Unit) (p : Parser σ T δ) (ha : p.aborted = false) :
    Drains p (drive drain forced g p).2 := by
  have hforward : IsForward (drain (σ := σ) (T := T) (δ := δ)) := isForward_drain
  induction forced, g, p using drive_induction hforward with
  | ended forced g p ho =>
    obtain ⟨-, xs, he, hxs⟩ := (skips_skipTrivia p).effect
    have haborted : p.skipTrivia.2.aborted = false := (aborted_skipTrivia p).trans ha
    have hend : p.skipTrivia.2.isAtEnd = true := by
      rcases Bool.or_eq_true_iff.1 ho with h | h
      · rw [haborted] at h; cases h
      · exact h
    have hrest : p.skipTrivia.2.tokens.rest.1 = [] := by rw [LexemeStream.rest_of_isAtEnd hend]
    rw [drive_of_isOver ho]
    refine .prepend he (findSome?_invalid?_of_isTrivia hxs) (.valid ?_ ?_ haborted hend)
    · rw [hrest]
      rfl
    · rw [hrest]
      exact .refl _
  | stalled forced g p ho hi hl =>
    rw [isIdle_drain (of_not_isOver ho).2] at hi
    cases hi
  | idle forced g p ho hi hl ih =>
    rw [isIdle_drain (of_not_isOver ho).2] at hi
    cases hi
  | busy forced g p ho hi ih =>
    obtain ⟨-, xs, he, hxs⟩ := (skips_skipTrivia p).effect
    have haborted : p.skipTrivia.2.aborted = false := (aborted_skipTrivia p).trans ha
    rw [drive_of_busy hforward ho hi]
    refine .prepend he (findSome?_invalid?_of_isTrivia hxs) ?_
    generalize p.skipTrivia.2 = q at ho haborted ih ⊢
    have hopen : q.isAtEnd = false := (of_not_isOver ho).2
    obtain ⟨-, he', ha'⟩ := advance_spec q
    have hstep : drain g q = ((), q.advance.2) := rfl
    rw [hstep] at ih ⊢
    generalize q.advance.2 = r at he' ha' ih ⊢
    rw [upcoming, objections, if_neg (by simp [hopen])] at he'
    cases hl : q.tokens.lookahead with
    | endOfInput => rw [isAtEnd_of_lookahead hl] at hopen; cases hopen
    | valid t =>
      rw [hl, Lexeme.objections_eq_nil rfl, ite_self] at he'
      rw [hl] at ha'
      exact .prepend he' rfl (ih (ha'.trans ((Bool.or_false _).trans haborted)))
    | invalid i =>
      rw [hl, haborted] at he' ha'
      -- The trivia behind the invalid token is skipped before the abort is seen.
      obtain ⟨-, ys, hskip, -⟩ := (skips_skipTrivia r).effect
      rw [drive_of_isOver (by simp [isOver, ha', Lexeme.isInvalid])]
      refine .invalid ?_ (he'.trans hskip) ((aborted_skipTrivia r).trans ha')
      rw [rest_of_effect he']
      rfl

omit [DiagnosticSink δ] in
/-- Settling the outcome takes over the counts, and tells the sink nothing. -/
theorem finish_spec {p : Parser σ T δ} (h : p.outcome = none) (ho : p.isOver = true) :
    p.finish.1 = p.verdict ∧ p.finish.2.sink = p.sink := by
  rw [finish, h]
  rcases Bool.or_eq_true_iff.1 ho with ha | he
  · simp only [ha, if_true]
    exact ⟨rfl, rfl⟩
  · simp only [skipTrivia_of_isAtEnd he, ite_self]
    exact ⟨rfl, rfl⟩

/-- What a parse without a grammar comes to: the outcome that it records, and the sink after it. -/
inductive Parses (p : Parser σ T δ) (o : Outcome) (sink : δ) : Prop where
  | accepted : p.tokens.rest.1.findSome? Lexeme.invalid? = none → o.accepted = true →
      o.errorCount = p.errorCount → o.tokensConsumed = p.consumed + p.tokens.rest.1.length →
      sink = p.sink → Parses p o sink
  | rejected {i : InvalidToken} : p.tokens.rest.1.findSome? Lexeme.invalid? = some i →
      o.accepted = false → o.aborted = true → o.errorCount = p.errorCount →
      sink = DiagnosticSink.receive p.sink (.invalidToken i) → Parses p o sink

/-- **A parse without a grammar** is accepted unless a lexeme is invalid. -/
theorem parses_parse {p : Parser σ T δ} (hp : p.outcome = none) (ha : p.aborted = false)
    (he : p.errorCount = 0) :
    Parses p p.parse.2.finish.1 p.parse.2.finish.2.sink := by
  have hparse : p.parse.2 = (drive drain 0 () p).2.finish.2 := by
    show (p.parseWith drain ()).2.2 = _
    rw [parseWith_eq isForward_drain hp]
  have hdrains := drains_drive 0 () p ha
  generalize (drive drain 0 () p).2 = q at hparse hdrains
  rw [hparse, finish_finish]
  cases hdrains with
  | valid hnone heffect haborted hend =>
    obtain ⟨hverdict, hsink⟩ := finish_spec (heffect.outcome.trans hp) (by simp [isOver, hend])
    have hcount : q.errorCount = p.errorCount := heffect.errorCount
    rw [hverdict, hsink]
    refine .accepted hnone ?_ hcount heffect.consumed heffect.sink
    simp [verdict, haborted, hend, hcount, he]
  | invalid hsome heffect haborted =>
    obtain ⟨hverdict, hsink⟩ :=
      finish_spec (heffect.outcome.trans hp) (by simp [isOver, haborted])
    rw [hverdict, hsink]
    refine .rejected hsome ?_ haborted heffect.errorCount heffect.sink
    simp [verdict, haborted]

end Parser

end LexFront
