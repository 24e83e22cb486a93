import LexFront.Parser.Run
import LexFront.Proofs.Lexeme.Yielding

/-!
# What the operations of a parser do

Every operation but `finish` consumes some lexemes and reports some diagnostics, and what it does to
the rest of the parser follows from these two. `Effect p xs ds q` says so once and for all: it lists
the lexemes and the diagnostics between two states of a parser, and the count of errors, the abort
and the sink in terms of them. Effects compose, so a run has the effect of its operations together.

Trivia is skipped as long as there is any, which over a source without an end may be for ever.
`Skips` relates a parser to the one behind the trivia and takes no finite source for granted; over a
finite source `skipTrivia` gets there (`skips_skipTrivia`).

Key facts:

* `Effect.trans`: effects compose.
* `Skips.effect`: skipping trivia consumes trivia and reports nothing.
* `advance_spec`, `exists_effect_expectNext`, `effect_reportError`, `exists_effect_force`,
  `effect_stall`: what the operations do.
-/

set_option autoImplicit false

namespace LexFront

namespace Diagnostic

/-- How many of some diagnostics are of a kind. -/
def count (k : Kind) (ds : List Diagnostic) : Nat := ds.countP (·.kind == k)

@[simp] theorem count_nil (k : Kind) : count k [] = 0 := rfl

@[simp] theorem count_append (k : Kind) (ds es : List Diagnostic) :
    count k (ds ++ es) = count k ds + count k es := List.countP_append

end Diagnostic

/-- The sink that remembers everything, for a parser to be asked afterwards what it reported. -/
structure Recorder where
  diagnostics : List Diagnostic := []

instance : DiagnosticSink Recorder where
  receive r d := ⟨r.diagnostics ++ [d]⟩

theorem Recorder.foldl_receive {δ : Type} [DiagnosticSink δ] (s : δ × Recorder)
    (ds : List Diagnostic) :
    (ds.foldl DiagnosticSink.receive s).2.diagnostics = s.2.diagnostics ++ ds := by
  induction ds generalizing s with
  | nil => exact (List.append_nil _).symm
  | cons d ds ih =>
    rw [List.foldl_cons, ih]
    exact List.append_assoc _ [d] ds

/-- The invalid token that a lexeme is, if it is one. -/
def Lexeme.invalid? {T : Type} : Lexeme T → Option InvalidToken
  | .invalid i => some i
  | _ => none

/-- What there is to report of a lexeme as it is. -/
def Lexeme.objections {T : Type} (x : Lexeme T) : List Diagnostic :=
  (x.invalid?.map Diagnostic.invalidToken).toList

theorem Lexeme.objections_eq_nil {T : Type} {x : Lexeme T} (h : x.isInvalid = false) :
    x.objections = [] := by
  cases x with
  | invalid i => cases h
  | _ => rfl

/-- What is reported of a lexeme that does not suit. -/
inductive Lexeme.Reports {T : Type} : Lexeme T → Diagnostic → Prop where
  | unexpected (t : Token T) :
      Reports (.valid t) (.unexpectedToken t.text (.ordered t.span.start t.span.stop))
  | invalid (i : InvalidToken) : Reports (.invalid i) (.invalidToken i)

/-- Trivia is neither invalid nor the end of the input. -/
theorem Lexeme.of_isTrivia {T : Type} [Terminal T] {x : Lexeme T} (h : x.isTrivia = true) :
    x.isInvalid = false ∧ x.isEnd = false := by
  cases x with
  | endOfInput => cases h
  | invalid i => cases h
  | valid t => exact ⟨rfl, rfl⟩

namespace Parser

variable {σ T δ : Type} [LexemeSource σ T] [DiagnosticSink δ]

/-- What happened to a parser between two of its states: the lexemes that were consumed and the
diagnostics that were reported. -/
structure Effect (p : Parser σ T δ) (xs : List (Lexeme T)) (ds : List Diagnostic)
    (q : Parser σ T δ) : Prop where
  tokens : p.tokens.Yields xs q.tokens
  sink : q.sink = ds.foldl DiagnosticSink.receive p.sink
  errorCount : q.errorCount = p.errorCount + Diagnostic.count .unexpectedToken ds
  /-- An invalid token is not consumed without an abort. -/
  sound : q.aborted = false → ∀ x ∈ xs, x.isInvalid = false
  /-- An invalid token is reported only by the abort that it causes, and nothing takes an abort
  back. -/
  aborts : Diagnostic.count .invalidToken ds + p.aborted.toNat ≤ q.aborted.toNat
  outcome : q.outcome = p.outcome
  skipLimit : q.skipLimit = p.skipLimit

namespace Effect

variable {p q r : Parser σ T δ} {xs ys : List (Lexeme T)} {ds es : List Diagnostic}

theorem refl (p : Parser σ T δ) : Effect p [] [] p where
  tokens := .nil
  sink := rfl
  errorCount := rfl
  sound := by simp
  aborts := by simp
  outcome := rfl
  skipLimit := rfl

/-- What was not aborted in the end was not aborted before. -/
theorem aborted_of_aborted (h : Effect p xs ds q) (hq : q.aborted = false) :
    p.aborted = false := by
  have := h.aborts
  cases hp : p.aborted with
  | false => rfl
  | true => simp [hq, hp] at this

/-- **Effects compose.** -/
theorem trans (h : Effect p xs ds q) (h' : Effect q ys es r) :
    Effect p (xs ++ ys) (ds ++ es) r where
  tokens := h.tokens.trans h'.tokens
  sink := by rw [h'.sink, h.sink, List.foldl_append]
  errorCount := by
    rw [h'.errorCount, h.errorCount, Diagnostic.count_append]
    omega
  sound := by
    intro hr x hx
    rcases List.mem_append.1 hx with hx | hx
    · exact h.sound (h'.aborted_of_aborted hr) x hx
    · exact h'.sound hr x hx
  aborts := by
    have := h.aborts
    have := h'.aborts
    rw [Diagnostic.count_append]
    omega
  outcome := h'.outcome.trans h.outcome
  skipLimit := h'.skipLimit.trans h.skipLimit

theorem consumed (h : Effect p xs ds q) : q.consumed = p.consumed + xs.length :=
  h.tokens.consumed

/-- A recorder next to any other sink knows what was reported. -/
theorem recorded {δ : Type} [DiagnosticSink δ] {p q : Parser σ T (δ × Recorder)}
    (h : Effect p xs ds q) : q.sink.2.diagnostics = p.sink.2.diagnostics ++ ds := by
  rw [h.sink, Recorder.foldl_receive]

end Effect

/-! ### The operations -/

section

variable {p : Parser σ T δ}

/-- What a parser says is no effect. -/
theorem effect_say (p : Parser σ T δ) (es : List Emission) : Effect p [] [] (p.say es) where
  tokens := .nil
  sink := rfl
  errorCount := rfl
  sound := by simp
  aborts := by simp [say]
  outcome := rfl
  skipLimit := rfl

theorem effect_announce (p : Parser σ T δ) (what expected : String) :
    Effect p [] [] (p.announce what expected) := by
  rw [announce]
  split
  · exact effect_say p _
  · exact .refl p

omit [LexemeSource σ T] [DiagnosticSink δ] in
theorem aborted_announce (p : Parser σ T δ) (what expected : String) :
    (p.announce what expected).aborted = p.aborted := by
  rw [announce]
  split <;> rfl

omit [DiagnosticSink δ] in
/-- The lexeme that is consumed is the one that was next. -/
theorem take_fst (p : Parser σ T δ) : p.take.1 = p.tokens.lookahead :=
  LexemeStream.next_fst p.tokens

omit [LexemeSource σ T] [DiagnosticSink δ] in
theorem isAtEnd_of_lookahead (h : p.tokens.lookahead = .endOfInput) : p.isAtEnd = true :=
  congrArg Lexeme.isEnd h

theorem take_of_isAtEnd (h : p.isAtEnd = true) :
    p.take.1 = .endOfInput ∧ Effect p [] [] p.take.2 := by
  have hn : p.tokens.next = (.endOfInput, p.tokens) := LexemeStream.next_of_isAtEnd h
  refine ⟨congrArg Prod.fst hn, ?_⟩
  have ht : p.take.2.tokens = p.tokens := congrArg Prod.snd hn
  exact {
    tokens := by rw [ht]; exact .nil
    sink := rfl
    errorCount := rfl
    sound := by simp
    aborts := by simp [take, say]
    outcome := rfl
    skipLimit := rfl }

/-- Consuming a lexeme that is not invalid has no other effect. -/
theorem effect_take (h : p.isAtEnd = false) (hx : p.tokens.lookahead.isInvalid = false) :
    Effect p [p.tokens.lookahead] [] p.take.2 where
  tokens := .single h
  sink := rfl
  errorCount := rfl
  sound := by simp [hx]
  aborts := by simp [take, say]
  outcome := rfl
  skipLimit := rfl

theorem effect_report {d : Diagnostic} (h : d.kind = .noMoreToken) :
    Effect p [] [d] (p.report d) where
  tokens := .nil
  sink := rfl
  errorCount := by simp [report, say, Diagnostic.count, h]
  sound := by simp
  aborts := by simp [report, say, Diagnostic.count, h]
  outcome := rfl
  skipLimit := rfl

/-- **A report of an error is counted.** -/
theorem effect_reportError (p : Parser σ T δ) (text : Text) (span : Span) :
    Effect p [] [.unexpectedToken text (.ordered span.start span.stop)]
      (p.reportError text span) where
  tokens := .nil
  sink := rfl
  errorCount := rfl
  sound := by simp
  aborts := by simp [reportError, report, tell, say, Diagnostic.count, Diagnostic.kind]
  outcome := rfl
  skipLimit := rfl

/-- **Giving up on an invalid token** is reported if it is the first. -/
theorem effect_take_abort {i : InvalidToken} (hx : p.tokens.lookahead = .invalid i) :
    Effect p [.invalid i] (if p.aborted then [] else [.invalidToken i]) (p.take.2.abort i) ∧
      (p.take.2.abort i).aborted = true := by
  have ho : p.isAtEnd = false := by simp [isAtEnd, LexemeStream.isAtEnd, hx, Lexeme.isEnd]
  have hy : p.tokens.Yields [.invalid i] p.tokens.next.2 := hx ▸ .single ho
  have ha : p.take.2.aborted = p.aborted := rfl
  cases hp : p.aborted with
  | true =>
    rw [abort, ha, if_pos (show p.aborted = true from hp)]
    refine ⟨?_, ha.trans hp⟩
    exact {
      tokens := hy
      sink := rfl
      errorCount := rfl
      sound := by simp [ha, hp]
      aborts := by simp [ha, hp]
      outcome := rfl
      skipLimit := rfl }
  | false =>
    rw [abort, ha, if_neg (show ¬ p.aborted = true by simp [hp])]
    refine ⟨?_, rfl⟩
    exact {
      tokens := hy
      sink := rfl
      errorCount := rfl
      sound := by simp [report, tell, say]
      aborts := by simp [report, tell, say, Diagnostic.count, Diagnostic.kind, hp]
      outcome := rfl
      skipLimit := rfl }

/-- What advancing consumes: the next lexeme, if there is one. -/
def upcoming (p : Parser σ T δ) : List (Lexeme T) :=
  if p.isAtEnd then [] else [p.tokens.lookahead]

/-- What advancing reports: an invalid token, unless the parse is aborted already. -/
def objections (p : Parser σ T δ) : List Diagnostic :=
  if p.aborted then [] else p.tokens.lookahead.objections

/-- **The effect of advancing**, by the next lexeme. -/
theorem advance_spec (p : Parser σ T δ) :
    p.advance.1 = p.tokens.lookahead ∧ Effect p p.upcoming p.objections p.advance.2 ∧
      p.advance.2.aborted = (p.aborted || p.tokens.lookahead.isInvalid) := by
  have hfst := take_fst p
  rw [advance, upcoming, objections]
  cases hl : p.tokens.lookahead with
  | endOfInput =>
    have hend : p.isAtEnd = true := isAtEnd_of_lookahead hl
    obtain ⟨hx, he⟩ := take_of_isAtEnd hend
    have hp : p.take = (.endOfInput, p.take.2) := Prod.ext hx rfl
    rw [hp, if_pos hend, Lexeme.objections_eq_nil rfl, ite_self]
    exact ⟨rfl, he, (Bool.or_false _).symm⟩
  | invalid i =>
    have ho : ¬ p.isAtEnd = true := by simp [isAtEnd, LexemeStream.isAtEnd, hl, Lexeme.isEnd]
    have hp : p.take = (.invalid i, p.take.2) := Prod.ext (hfst.trans hl) rfl
    obtain ⟨he, ha⟩ := effect_take_abort hl
    rw [hp, if_neg ho]
    exact ⟨rfl, he, ha.trans (Bool.or_true _).symm⟩
  | valid t =>
    have ho : p.isAtEnd = false := by simp [isAtEnd, LexemeStream.isAtEnd, hl, Lexeme.isEnd]
    have hp : p.take = (.valid t, p.take.2) := Prod.ext (hfst.trans hl) rfl
    have he := effect_take ho (by rw [hl]; rfl)
    rw [hl] at he
    rw [hp, if_neg (by simp [ho]), Lexeme.objections_eq_nil rfl, ite_self]
    exact ⟨rfl, he, (Bool.or_false _).symm⟩

/-- An expectation consumes a lexeme as `advance` does, and reports what it is not content with. -/
theorem expectNext_eq (p : Parser σ T δ) (accept : T → Bool) :
    p.expectNext accept =
      match p.advance with
      | (.valid t, q) =>
        if accept t.terminal then (.matched t, q)
        else (.mismatched t, q.reportError t.text t.span)
      | (.endOfInput, q) => (.endOfInput q.endLocation, q.report (.noMoreToken q.endLocation))
      | (.invalid i, q) => (.invalid i, q) := by
  rw [expectNext, advance]
  generalize p.take = r
  obtain ⟨_ | i | t, q⟩ := r <;> rfl

/-- The effect of an expectation behind trivia. -/
theorem exists_effect_expectNext (p : Parser σ T δ) (accept : T → Bool) :
    ∃ xs ds, Effect p xs ds (p.expectNext accept).2 := by
  obtain ⟨-, he, -⟩ := advance_spec p
  rw [expectNext_eq]
  generalize p.advance = r at he ⊢
  obtain ⟨_ | i | t, q⟩ := r
  · exact ⟨_, _, he.trans (effect_report rfl)⟩
  · exact ⟨_, _, he⟩
  · show ∃ xs ds, Effect p xs ds
      (if accept t.terminal then (Expected.matched t, q)
        else (.mismatched t, q.reportError t.text t.span)).2
    split
    · exact ⟨_, _, he⟩
    · exact ⟨_, _, he.trans (effect_reportError q t.text t.span)⟩

/-- The effect of consuming a lexeme on behalf of a driver. -/
theorem exists_effect_force (p : Parser σ T δ) : ∃ ds, Effect p p.upcoming ds p.force := by
  obtain ⟨-, he, -⟩ := advance_spec p
  rw [force]
  generalize p.advance = r at he ⊢
  obtain ⟨_ | i | t, q⟩ := r
  · exact ⟨_, he⟩
  · exact ⟨_, he⟩
  · exact ⟨_, List.append_nil p.upcoming ▸ he.trans (effect_reportError q t.text t.span)⟩

/-- A driver that does nothing is stopped without a report to the sink. -/
theorem effect_stall (p : Parser σ T δ) (forced : Nat) :
    Effect p [] [] (p.stall forced) ∧ (p.stall forced).aborted = true := by
  refine ⟨?_, rfl⟩
  exact {
    tokens := .nil
    sink := rfl
    errorCount := rfl
    sound := by simp
    aborts := by cases h : p.aborted <;> simp [stall, tell, say]
    outcome := rfl
    skipLimit := rfl }

end

/-! ### Trivia -/

variable [Terminal T]

/-- Trivia is consumed up to the next lexeme that is none. -/
inductive Skips : Parser σ T δ → Parser σ T δ → Prop where
  | stop {p : Parser σ T δ} : p.tokens.lookahead.isTrivia = false → Skips p p
  | take {p q : Parser σ T δ} : p.tokens.lookahead.isTrivia = true → Skips p.take.2 q → Skips p q

/-- **Skipping trivia consumes trivia and reports nothing.** -/
theorem Skips.effect {p q : Parser σ T δ} (h : Skips p q) :
    q.tokens.lookahead.isTrivia = false ∧
      ∃ xs, Effect p xs [] q ∧ ∀ x ∈ xs, x.isTrivia = true := by
  induction h with
  | stop h => exact ⟨h, [], .refl _, by simp⟩
  | @take p q h _ ih =>
    obtain ⟨hq, xs, he, hxs⟩ := ih
    obtain ⟨hinvalid, hopen⟩ := Lexeme.of_isTrivia h
    refine ⟨hq, _, (effect_take hopen hinvalid).trans he, ?_⟩
    simpa using ⟨h, hxs⟩

omit [DiagnosticSink δ] in
theorem Skips.aborted {p q : Parser σ T δ} (h : Skips p q) : q.aborted = p.aborted := by
  induction h with
  | stop _ => rfl
  | take _ _ ih => exact ih

end Parser

end LexFront
