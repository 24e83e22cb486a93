import LexFront.CMake.Lexicon
import LexFront.Proofs.Parser.Driving

/-!
# What an expectation owes its caller

Grammars are built from expectations, so what an expectation does has to be known exactly: which
lexemes it consumes, what it answers, what it reports, and that it leaves everything else alone.
`Contract` says so by the lexeme behind the trivia, one field for each way out, and `IsAhead` says
what that lexeme is. An aborted parser does nothing at all.

A parser may be used over a source that never ends, where skipping trivia may go on for ever. There
an expectation is a relation, `Awaits`, which holds of an answer if there is one; and there is one
as soon as some lexeme is no trivia.

Two expectations that accept the same terminals differ in what they tell the journal beforehand,
and in nothing else. To see this a parser is given a longer past (`behind`), which no operation
looks at.

Key facts:

* `contract_of_skips`: the contract, from in front of the lexeme.
* `Awaits.unique`, `exists_awaits`: the answer over any source.
* `expectWhere_behind`: an expectation does not look at the past.
* `expectAny_contract`: the contract of the operations.
-/

set_option autoImplicit false

namespace LexFront

namespace Parser

variable {σ T δ : Type}

/-! ### The contract -/

section

variable [LexemeSource σ T] [Terminal T]

/-- The trivia `ms` is ahead, and behind it the stream is `s`, where the next lexeme is no trivia.
It may be the end of the input. -/
structure IsAhead (p : Parser σ T δ) (ms : List (Lexeme T)) (s : LexemeStream σ T) : Prop where
  yields : p.tokens.Yields ms s
  trivia : ∀ m ∈ ms, m.isTrivia = true
  stop : s.lookahead.isTrivia = false

/-- What is owed to whoever expects a token where the trivia `ms` and then the stream `s` are ahead,
from the parser `p` before the expectation to the answer `e` and the parser `q` after it. -/
structure Contract [DiagnosticSink δ] (p : Parser σ T δ) (accept : T → Bool) (ms : List (Lexeme T))
    (s : LexemeStream σ T) (e : Expected T) (q : Parser σ T δ) : Prop where
  matched : ∀ t, s.lookahead = .valid t → accept t.terminal = true →
    e = .matched t ∧ p.tokens.Yields (ms ++ [.valid t]) q.tokens ∧ q.sink = p.sink ∧
      q.errorCount = p.errorCount ∧ q.aborted = p.aborted
  mismatched : ∀ t, s.lookahead = .valid t → accept t.terminal = false →
    e = .mismatched t ∧ p.tokens.Yields (ms ++ [.valid t]) q.tokens ∧
      q.sink = DiagnosticSink.receive p.sink
        (.unexpectedToken t.text (.ordered t.span.start t.span.stop)) ∧
      q.errorCount = p.errorCount + 1 ∧ q.aborted = p.aborted
  invalid : ∀ i, s.lookahead = .invalid i →
    e = .invalid i ∧ p.tokens.Yields (ms ++ [.invalid i]) q.tokens ∧
      q.sink = DiagnosticSink.receive p.sink (.invalidToken i) ∧
      q.errorCount = p.errorCount ∧ q.aborted = true
  ended : s.lookahead = .endOfInput →
    e = .endOfInput s.endLocation ∧ q.tokens = s ∧
      q.sink = DiagnosticSink.receive p.sink (.noMoreToken s.endLocation) ∧
      q.errorCount = p.errorCount ∧ q.aborted = p.aborted
  outcome : q.outcome = p.outcome
  skipLimit : q.skipLimit = p.skipLimit
  logExpectations : q.logExpectations = p.logExpectations

theorem IsAhead.unique {p : Parser σ T δ} {ms ns : List (Lexeme T)} {s t : LexemeStream σ T}
    (h : p.IsAhead ms s) (h' : p.IsAhead ns t) : ms = ns ∧ s = t := by
  obtain ⟨hy, htrivia, hstop⟩ := h
  obtain ⟨hy', htrivia', hstop'⟩ := h'
  generalize p.tokens = u at hy hy'
  induction hy generalizing ns with
  | nil =>
    cases hy' with
    | nil => exact ⟨rfl, rfl⟩
    | cons _ _ => rw [htrivia' _ List.mem_cons_self] at hstop; cases hstop
  | cons _ _ ih =>
    cases hy' with
    | nil => rw [htrivia _ List.mem_cons_self] at hstop'; cases hstop'
    | cons _ hy' =>
      obtain ⟨rfl, rfl⟩ := ih (fun m hm ↦ htrivia m (List.mem_cons_of_mem _ hm)) hstop
        (fun m hm ↦ htrivia' m (List.mem_cons_of_mem _ hm)) hy'
      exact ⟨rfl, rfl⟩

variable [DiagnosticSink δ]

omit [DiagnosticSink δ] in
theorem Skips.logExpectations {p q : Parser σ T δ} (h : Skips p q) :
    q.logExpectations = p.logExpectations := by
  induction h with
  | stop _ => rfl
  | take _ _ ih => exact ih

omit [Terminal T] in
/-- A token is met by an expectation of it, and by any other with a report. -/
theorem expectNext_of_valid {p : Parser σ T δ} {t : Token T} (h : p.tokens.lookahead = .valid t)
    (accept : T → Bool) :
    p.expectNext accept =
      if accept t.terminal then (.matched t, p.take.2)
      else (.mismatched t, p.take.2.reportError t.text t.span) := by
  have hp : p.take = (.valid t, p.take.2) := Prod.ext ((take_fst p).trans h) rfl
  rw [expectNext, hp]

omit [Terminal T] in
theorem expectNext_of_invalid {p : Parser σ T δ} {i : InvalidToken}
    (h : p.tokens.lookahead = .invalid i) (accept : T → Bool) :
    p.expectNext accept = (.invalid i, p.take.2.abort i) := by
  have hp : p.take = (.invalid i, p.take.2) := Prod.ext ((take_fst p).trans h) rfl
  rw [expectNext, hp]

omit [Terminal T] in
/-- At the end of the input nothing is consumed. -/
theorem expectNext_of_end {p : Parser σ T δ} (h : p.tokens.lookahead = .endOfInput)
    (accept : T → Bool) :
    p.expectNext accept =
      (.endOfInput p.endLocation, p.take.2.report (.noMoreToken p.endLocation)) := by
  have hp : p.take = (.endOfInput, p.take.2) := Prod.ext ((take_fst p).trans h) rfl
  have htokens : p.take.2.tokens = p.tokens :=
    congrArg Prod.snd (LexemeStream.next_of_isAtEnd (isAtEnd_of_lookahead h))
  have hend : p.take.2.endLocation = p.endLocation := congrArg LexemeStream.endLocation htokens
  rw [expectNext, hp]
  simp only [hend]

omit [Terminal T] in
theorem logExpectations_expectNext (p : Parser σ T δ) (accept : T → Bool) :
    (p.expectNext accept).2.logExpectations = p.logExpectations := by
  cases hl : p.tokens.lookahead with
  | valid t =>
    rw [expectNext_of_valid hl]
    split <;> rfl
  | invalid i =>
    rw [expectNext_of_invalid hl, abort]
    split <;> rfl
  | endOfInput =>
    rw [expectNext_of_end hl]
    rfl

/-- **The contract of an expectation**, from behind the trivia. -/
theorem contract_of_skips {p q : Parser σ T δ} (hskip : Skips p q) (ha : p.aborted = false)
    (accept : T → Bool) {ms : List (Lexeme T)} {s : LexemeStream σ T} (h : p.IsAhead ms s) :
    p.Contract accept ms s (q.expectNext accept).1 (q.expectNext accept).2 := by
  obtain ⟨hstop, ns, he, hns⟩ := hskip.effect
  obtain ⟨rfl, rfl⟩ := h.unique ⟨he.tokens, hns, hstop⟩
  have haq : q.aborted = p.aborted := hskip.aborted
  obtain ⟨xs, ds, hnext⟩ := exists_effect_expectNext q accept
  have hall := he.trans hnext
  refine ⟨fun t hl haccept ↦ ?_, fun t hl haccept ↦ ?_, fun i hl ↦ ?_, fun hl ↦ ?_, hall.outcome,
    hall.skipLimit, (logExpectations_expectNext q accept).trans hskip.logExpectations⟩
  · have hopen : q.isAtEnd = false := congrArg Lexeme.isEnd hl
    have htake := he.trans (effect_take hopen (congrArg Lexeme.isInvalid hl))
    rw [hl] at htake
    rw [expectNext_of_valid hl, if_pos haccept]
    exact ⟨rfl, htake.tokens, htake.sink, htake.errorCount, haq⟩
  · have hopen : q.isAtEnd = false := congrArg Lexeme.isEnd hl
    have htake := he.trans (effect_take hopen (congrArg Lexeme.isInvalid hl))
    have hreport := htake.trans (effect_reportError q.take.2 t.text t.span)
    rw [expectNext_of_valid hl, if_neg (by simp [haccept])]
    exact ⟨rfl, hl ▸ htake.tokens, hreport.sink, hreport.errorCount, haq⟩
  · obtain ⟨habort, haborted⟩ := effect_take_abort hl
    rw [haq, ha] at habort
    have hinvalid := he.trans habort
    rw [expectNext_of_invalid hl]
    exact ⟨rfl, hinvalid.tokens, hinvalid.sink, hinvalid.errorCount, haborted⟩
  · obtain ⟨-, htake⟩ := take_of_isAtEnd (isAtEnd_of_lookahead hl)
    have hreport := (he.trans htake).trans (effect_report (d := .noMoreToken q.endLocation) rfl)
    obtain ⟨-, htokens⟩ := htake.tokens.of_isAtEnd (isAtEnd_of_lookahead hl)
    rw [expectNext_of_end hl]
    exact ⟨rfl, htokens, hreport.sink, hreport.errorCount, haq⟩

/-! ### The answer, over any source -/

/-- What an expectation answers, and the parser after it. Where trivia goes on for ever there is no
answer. -/
inductive Awaits (p : Parser σ T δ) (accept : T → Bool) : Expected T → Parser σ T δ → Prop where
  | aborted : p.aborted = true → Awaits p accept (.endOfInput p.endLocation) p
  | next {q : Parser σ T δ} : p.aborted = false → Skips p q →
      Awaits p accept (q.expectNext accept).1 (q.expectNext accept).2

omit [DiagnosticSink δ] in
theorem Skips.unique {p q r : Parser σ T δ} (h : Skips p q) (h' : Skips p r) : q = r := by
  induction h with
  | stop hstop =>
    cases h' with
    | stop _ => rfl
    | take htake _ => rw [hstop] at htake; cases htake
  | take htake _ ih =>
    cases h' with
    | stop hstop => rw [hstop] at htake; cases htake
    | take _ h' => exact ih h'

/-- There is one answer at most. -/
theorem Awaits.unique {p q q' : Parser σ T δ} {accept : T → Bool} {e e' : Expected T}
    (h : Awaits p accept e q) (h' : Awaits p accept e' q') : e = e' ∧ q = q' := by
  cases h with
  | aborted ha =>
    cases h' with
    | aborted _ => exact ⟨rfl, rfl⟩
    | next ha' _ => rw [ha] at ha'; cases ha'
  | next ha hskip =>
    cases h' with
    | aborted ha' => rw [ha] at ha'; cases ha'
    | next _ hskip' =>
      obtain rfl := hskip.unique hskip'
      exact ⟨rfl, rfl⟩

omit [DiagnosticSink δ] in
/-- Trivia that comes to an end can be skipped. -/
theorem IsAhead.exists_skips {p : Parser σ T δ} {ms : List (Lexeme T)} {s : LexemeStream σ T}
    (h : p.IsAhead ms s) : ∃ q, Skips p q := by
  obtain ⟨hy, htrivia, hstop⟩ := h
  induction ms generalizing p with
  | nil =>
    cases hy with
    | nil => exact ⟨p, .stop hstop⟩
  | cons m ms ih =>
    cases hy with
    | cons _ hrest =>
      obtain ⟨q, hq⟩ := ih (p := p.take.2) hrest fun x hx ↦ htrivia x (List.mem_cons_of_mem _ hx)
      exact ⟨q, .take (htrivia _ List.mem_cons_self) hq⟩

/-- **There is an answer** as soon as some lexeme is no trivia, and it keeps the contract. -/
theorem exists_awaits {p : Parser σ T δ} (ha : p.aborted = false) (accept : T → Bool)
    {ms : List (Lexeme T)} {s : LexemeStream σ T} (h : p.IsAhead ms s) :
    ∃ e q, Awaits p accept e q ∧ p.Contract accept ms s e q := by
  obtain ⟨q, hskip⟩ := h.exists_skips
  exact ⟨_, _, .next ha hskip, contract_of_skips hskip ha accept h⟩

end

/-! ### A longer past -/

/-- A parser that said something else before all that it said. -/
def behind (p : Parser σ T δ) (past : List Emission) : Parser σ T δ :=
  { p with trace := p.trace ++ past }

theorem announce_eq_behind (p : Parser σ T δ) (what expected : String) :
    p.announce what expected = { p with trace := [] }.behind (p.announce what expected).trace := by
  rw [announce]
  split <;> rfl

/-- Only the past tells whether something was announced. -/
theorem announce_eq (p : Parser σ T δ) (what expected : String) :
    p.announce what expected = { p with trace := (p.announce what expected).trace } := by
  rw [announce]
  split <;> rfl

section

variable [LexemeSource σ T]

theorem take_behind (p : Parser σ T δ) (past : List Emission) :
    (p.behind past).take = (p.take.1, p.take.2.behind past) := by
  simp [take, say, behind]

variable [DiagnosticSink δ]

omit [LexemeSource σ T] in
theorem report_behind (p : Parser σ T δ) (past : List Emission) (d : Diagnostic) :
    (p.behind past).report d = (p.report d).behind past := by
  simp [report, say, behind]

theorem reportError_behind (p : Parser σ T δ) (past : List Emission) (text : Text) (span : Span) :
    (p.behind past).reportError text span = (p.reportError text span).behind past := by
  simp [reportError, report, tell, say, behind, unit]

theorem abort_behind (p : Parser σ T δ) (past : List Emission) (i : InvalidToken) :
    (p.behind past).abort i = (p.abort i).behind past := by
  cases ha : p.aborted <;> simp [abort, report, tell, say, behind, unit, ha]

theorem expectNext_behind (p : Parser σ T δ) (past : List Emission) (accept : T → Bool) :
    (p.behind past).expectNext accept =
      ((p.expectNext accept).1, (p.expectNext accept).2.behind past) := by
  rw [expectNext, take_behind, expectNext]
  generalize p.take = r
  obtain ⟨_ | i | t, q⟩ := r
  · exact Prod.ext rfl (report_behind q past _)
  · exact Prod.ext rfl (abort_behind q past i)
  · simp only
    split
    · rfl
    · exact Prod.ext rfl (reportError_behind q past t.text t.span)

end

section

variable [FiniteSource σ T] [Terminal T]

theorem skipTrivia_behind (p : Parser σ T δ) (past : List Emission) :
    (p.behind past).skipTrivia = (p.skipTrivia.1, p.skipTrivia.2.behind past) := by
  fun_induction skipTrivia p with
  | case1 p h n q hr ih =>
    rw [hr] at ih
    rw [skipTrivia, if_pos (show (p.behind past).tokens.lookahead.isTrivia = true from h),
      take_behind]
    simp only [ih]
  | case2 p h =>
    rw [skipTrivia, if_neg (show ¬ (p.behind past).tokens.lookahead.isTrivia = true from h)]

variable [DiagnosticSink δ]

/-- **An expectation does not look at the past.** -/
theorem expectWhere_behind (p : Parser σ T δ) (past : List Emission) (accept : T → Bool) :
    (p.behind past).expectWhere accept =
      ((p.expectWhere accept).1, (p.expectWhere accept).2.behind past) := by
  rw [expectWhere, expectWhere, show (p.behind past).aborted = p.aborted from rfl]
  split
  · rfl
  · rw [skipTrivia_behind, expectNext_behind]

/-- Over a finite source the operation answers what there is to answer. -/
theorem awaits_expectWhere (p : Parser σ T δ) (accept : T → Bool) :
    Awaits p accept (p.expectWhere accept).1 (p.expectWhere accept).2 := by
  rw [expectWhere]
  split
  · next h => exact .aborted h
  · next h => exact .next (by simpa using h) (skips_skipTrivia p)

variable [DecidableEq T]

/-- Expecting a token of one kind, and of one of a single kind, differ in what is said before. -/
theorem exists_expect_eq (p : Parser σ T δ) (t : T) :
    ∃ (e : Expected T) (q : Parser σ T δ),
      p.expect t = (e, q.behind (p.announce "Expecting token" (Terminal.name t)).trace) ∧
      p.expectAny [t] = (e, q.behind (p.announce "Expecting one of" (Terminal.name t)).trace) := by
  have haccept : (fun x ↦ decide (x = t)) = fun x ↦ [t].contains x := by
    funext x
    simp
  let r := ({ p with trace := [] } : Parser σ T δ).expectWhere fun x ↦ [t].contains x
  refine ⟨r.1, r.2, ?_, ?_⟩
  · rw [expect, announce_eq_behind, expectWhere_behind, haccept]
    rfl
  · rw [expectAny, announce_eq_behind, expectWhere_behind]
    rfl

/-- **What an expectation owes its caller.** An aborted parser answers that the input has ended, and
only the journal may hear of it. Any other parser keeps the contract: it consumes the trivia and the
lexeme behind it, and answers by what that lexeme is. A token that is expected is handed out, any
other one is reported and counted, an invalid one is reported and aborts the parse, and of the end
of the input there is a complaint that does not count. Expecting one terminal is expecting one of a
single terminal, but for the words in which the journal is told beforehand if it wants to be told.
Over a source that may never end there is an answer as well, and one only, and it keeps the
contract. -/
theorem expectAny_contract {ω : Type} [LexemeSource ω T] (ts : List T) :
    (∀ p : Parser σ T δ,
      (p.aborted = true → (p.expectAny ts).1 = .endOfInput p.endLocation ∧
        { (p.expectAny ts).2 with trace := p.trace } = p) ∧
      (p.aborted = false → ∀ ms s, p.IsAhead ms s →
        p.Contract (ts.contains ·) ms s (p.expectAny ts).1 (p.expectAny ts).2) ∧
      ∀ t, (p.expect t).1 = (p.expectAny [t]).1 ∧
        { (p.expect t).2 with trace := (p.expectAny [t]).2.trace } = (p.expectAny [t]).2 ∧
        (p.logExpectations = false → p.expect t = p.expectAny [t])) ∧
    ∀ p : Parser ω T δ,
      (p.aborted = true → ∀ e q, Awaits p (ts.contains ·) e q →
        e = .endOfInput p.endLocation ∧ q = p) ∧
      (p.aborted = false → ∀ ms s, p.IsAhead ms s → ∃ e q, Awaits p (ts.contains ·) e q ∧
        p.Contract (ts.contains ·) ms s e q ∧
        ∀ e' q', Awaits p (ts.contains ·) e' q' → e' = e ∧ q' = q) := by
  refine ⟨fun p ↦ ⟨fun ha ↦ ?_, fun ha ms s h ↦ ?_, fun t ↦ ?_⟩, fun p ↦ ⟨?_, fun ha ms s h ↦ ?_⟩⟩
  · rw [expectAny, announce_eq, expectWhere, if_pos ha]
    exact ⟨rfl, rfl⟩
  · rw [expectAny, announce_eq]
    let announced : Parser σ T δ := { p with trace := (p.announce "Expecting one of"
      (String.intercalate ", " (ts.map Terminal.name))).trace }
    obtain ⟨e, q, hawaits, hcontract⟩ := exists_awaits (p := announced) ha (ts.contains ·)
      ⟨h.yields, h.trivia, h.stop⟩
    obtain ⟨rfl, rfl⟩ := hawaits.unique (awaits_expectWhere announced _)
    -- The contract does not speak of the past, so that it is one of `p` as well.
    obtain ⟨hm, hu, hi, he, ho, hs, hl⟩ := hcontract
    exact ⟨hm, hu, hi, he, ho, hs, hl⟩
  · obtain ⟨e, q, hexpect, hany⟩ := exists_expect_eq p t
    rw [hexpect, hany]
    refine ⟨rfl, rfl, fun hquiet ↦ ?_⟩
    rw [announce, announce, hquiet]
    rfl
  · rintro ha e q (_ | ⟨ha', _⟩)
    · exact ⟨rfl, rfl⟩
    · rw [ha] at ha'; cases ha'
  · obtain ⟨e, q, hawaits, hcontract⟩ := exists_awaits ha (ts.contains ·) h
    exact ⟨e, q, hawaits, hcontract, fun e' q' h' ↦ h'.unique hawaits⟩

end

/-- A keyword that is expected behind a blank, where a name stands. -/
theorem expectAny_contract_blank :
    let blank : Token CMake.Kind := .covering .whitespace [' '] [' '] (.start "u")
    let name : Token CMake.Kind := .covering .identifier ['x'] ['x'] blank.span.stop
    let source : LexemeList CMake.Kind := .ofList "u" [.valid blank, .valid name]
    let p : Parser (LexemeList CMake.Kind) CMake.Kind Recorder := ofSource source {}
    let q := (p.expectAny [.keyword]).2
    p.aborted = false ∧ p.IsAhead [.valid blank] p.tokens.next.2 ∧
      (p.expectAny [.keyword]).1 = .mismatched name ∧ q.consumed = 2 ∧ q.errorCount = 1 ∧
      q.sink.diagnostics = [.unexpectedToken ['x'] name.span] := by
  intro blank name source p q
  have hahead : p.IsAhead [.valid blank] p.tokens.next.2 := ⟨.single rfl, by decide, rfl⟩
  have hcontract := ((expectAny_contract (ω := LexemeList CMake.Kind) [.keyword]).1 p).2.1 rfl _ _
    hahead
  obtain ⟨he, htokens, hsink, hcount, -⟩ := hcontract.mismatched name rfl rfl
  exact ⟨rfl, hahead, he, htokens.consumed, hcount, congrArg Recorder.diagnostics hsink⟩

end Parser

end LexFront
