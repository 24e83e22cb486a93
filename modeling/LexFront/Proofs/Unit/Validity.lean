import LexFront.Pipeline
import LexFront.Proofs.Parser.Draining

/-!
# Parsing and listing agree on what is valid

A unit may be parsed without a grammar, or its lexemes may be listed. The two run over the same
lexemes in different ways: the listing looks at them one by one, the parse skips trivia, looks ahead
and may be aborted. They agree: a parse is accepted exactly if no record of the listing is invalid,
and else the one diagnostic of the parse is the first invalid record.

Key facts:

* `find?_records`: the first invalid record is that of the first invalid lexeme.
* `parseUnit_agrees_with_tokenizeUnit`: the parse of a unit in terms of its records.
-/

set_option autoImplicit false

namespace LexFront

namespace TokenRecord

variable {T : Type} [Terminal T]

/-- The records of some lexemes. -/
def ofLexemes (xs : List (Lexeme T)) : List TokenRecord := xs.filterMap ofLexeme?

/-- The record of an invalid token. -/
def ofInvalid (i : InvalidToken) : TokenRecord where
  terminal := "invalid"
  category := none
  text := i.text
  value := none
  span := i.span
  reason := some i.error.message

/-- **The first invalid record** is the record of the first invalid lexeme. -/
theorem find?_records (xs : List (Lexeme T)) :
    (ofLexemes xs).find? isInvalid = (xs.findSome? Lexeme.invalid?).map ofInvalid := by
  induction xs with
  | nil => rfl
  | cons x xs ih =>
    cases x with
    | endOfInput => exact ih
    | invalid i => rfl
    | valid t => exact ih

/-- Every lexeme but the end of the input has a record. -/
theorem length_records {xs : List (Lexeme T)} (h : ∀ x ∈ xs, x.isEnd = false) :
    (ofLexemes xs).length = xs.length := by
  induction xs with
  | nil => rfl
  | cons x xs ih =>
    obtain ⟨hx, hxs⟩ := List.forall_mem_cons.1 h
    have hrest := ih hxs
    cases x with
    | endOfInput => cases hx
    | invalid i => exact congrArg Nat.succ hrest
    | valid t => exact congrArg Nat.succ hrest

end TokenRecord

namespace Pipeline

/-- What the parse of a unit comes to, in terms of the records of the unit and of its first invalid
token: the outcome, and the sink before and after it. -/
structure Agrees {δ : Type} [DiagnosticSink δ] (records : List TokenRecord)
    (first : Option InvalidToken) (o : Outcome) (before after : δ) : Prop where
  accepted_iff : o.accepted = true ↔ ∀ r ∈ records, r.isInvalid = false
  accepted : o.accepted = true →
    o.errorCount = 0 ∧ after = before ∧ o.tokensConsumed = records.length
  rejected : o.accepted = false → o.aborted = true ∧ o.errorCount = 0 ∧
    ∃ i, first = some i ∧ records.find? TokenRecord.isInvalid = some (.ofInvalid i) ∧
      after = DiagnosticSink.receive before (.invalidToken i)

/-- The lexemes of a unit, as a stream before its first. -/
def lexemesOf {T : Type} [Terminal T] (lexicon : Lexicon T) (unit : SourceUnit)
    (preferences : LexicalPreferences) : LexemeStream (Lexer T) T :=
  .ofSource (Lexer.ofDecoder lexicon preferences unit.name unit.decoder)

/-- The first invalid token of a unit. -/
def firstInvalid (unit : SourceUnit) (language : Language) (preferences : LexicalPreferences) :
    Option InvalidToken :=
  match language with
  | .cmake => (lexemesOf CMake.lexicon unit preferences).rest.1.findSome? Lexeme.invalid?
  | .cpp => (lexemesOf Cpp.lexicon unit preferences).rest.1.findSome? Lexeme.invalid?

theorem recordsWithLexicon_eq {T : Type} [Terminal T] (lexicon : Lexicon T) (unit : SourceUnit)
    (preferences : LexicalPreferences) :
    (recordsWithLexicon lexicon unit preferences).1 =
      TokenRecord.ofLexemes (lexemesOf lexicon unit preferences).rest.1 := by
  rw [lexemesOf, LexemeStream.rest_eq_drain]
  rfl

/-- The parse of a unit with a lexicon agrees with the records of the lexicon. -/
theorem agrees_parseWithLexicon {T δ : Type} [Terminal T] [DiagnosticSink δ]
    (lexicon : Lexicon T) (unit : SourceUnit) (sink : δ) (preferences : Preferences) :
    Agrees (recordsWithLexicon lexicon unit preferences.lexical).1
      ((lexemesOf lexicon unit preferences.lexical).rest.1.findSome? Lexeme.invalid?)
      (parseWithLexicon lexicon unit sink preferences).1 sink
      (parseWithLexicon lexicon unit sink preferences).2.1 := by
  let p : Parser (Lexer T) T δ :=
    { Parser.ofSource (Lexer.ofDecoder lexicon preferences.lexical unit.name unit.decoder) sink with
      logExpectations := preferences.syntactic.logExpectations }
  have hp : p.tokens = lexemesOf lexicon unit preferences.lexical := rfl
  have hparses : Parser.Parses p p.parse.2.finish.1 p.parse.2.finish.2.sink :=
    Parser.parses_parse rfl rfl rfl
  have hrecords := TokenRecord.find?_records p.tokens.rest.1
  have hlength := TokenRecord.length_records (p.tokens.yields_rest.1.isEnd_of_mem)
  rw [recordsWithLexicon_eq, ← hp]
  show Agrees (TokenRecord.ofLexemes p.tokens.rest.1) (p.tokens.rest.1.findSome? Lexeme.invalid?)
    p.parse.2.finish.1 sink p.parse.2.finish.2.sink
  generalize p.parse.2.finish.1 = o at hparses ⊢
  generalize p.parse.2.finish.2.sink = after at hparses ⊢
  cases hparses with
  | accepted hnone ho hcount hconsumed hsink =>
    rw [hnone, Option.map_none, List.find?_eq_none] at hrecords
    refine ⟨⟨fun _ r hr ↦ by simpa using hrecords r hr, fun _ ↦ ho⟩, fun _ ↦ ?_, ?_⟩
    · refine ⟨hcount, hsink, ?_⟩
      rw [hconsumed, hlength]
      exact Nat.zero_add _
    · rw [ho]
      simp
  | @rejected i hsome ho haborted hcount hsink =>
    rw [hsome, Option.map_some] at hrecords
    refine ⟨⟨by rw [ho]; simp, fun hall ↦ ?_⟩, by rw [ho]; simp, fun _ ↦ ?_⟩
    · have hmem := List.mem_of_find?_eq_some hrecords
      have hinvalid := List.find?_some hrecords
      rw [hall _ hmem] at hinvalid
      cases hinvalid
    · exact ⟨haborted, hcount, i, hsome, hrecords, hsink⟩

/-- The parse of a unit agrees with the records of the unit, whatever is in the journals. -/
theorem agrees_parseUnit {δ : Type} [DiagnosticSink δ] (j j' : Journal) (unit : SourceUnit)
    (language : Language) (sink : δ) (preferences : Preferences) :
    Agrees (tokenizeUnit j' unit language preferences.lexical).1
      (firstInvalid unit language preferences.lexical)
      (parseUnit j unit language sink preferences).1 sink
      (parseUnit j unit language sink preferences).2.1 := by
  cases language with
  | cmake => exact agrees_parseWithLexicon CMake.lexicon unit sink preferences
  | cpp => exact agrees_parseWithLexicon Cpp.lexicon unit sink preferences

/-- A collector with room keeps the first diagnostic. -/
theorem receive_collector (capacity : Nat) (i : InvalidToken) :
    DiagnosticSink.receive ({ capacity := capacity + 1 } : Collector) (.invalidToken i) =
      { capacity := capacity + 1, diagnostics := [.invalidToken i] } := by
  show Collector.receive _ _ = _
  simp [Collector.receive, Diagnostic.kind, Diagnostic.Kind.isCounted]

/-- **Parsing and listing agree on what is valid.** A unit is accepted exactly if no record of it is
invalid, and then the sink hears nothing and as many lexemes are consumed as there are records. Else
the parse is aborted without an error, and the sink hears of the first invalid record and of nothing
else, which is what a collector with any room at all holds in the end. -/
theorem parseUnit_agrees_with_tokenizeUnit {δ : Type} [DiagnosticSink δ] (j j' : Journal)
    (unit : SourceUnit) (language : Language) (sink : δ) (preferences : Preferences) :
    let records := (tokenizeUnit j' unit language preferences.lexical).1
    let o := (parseUnit j unit language sink preferences).1
    let after := (parseUnit j unit language sink preferences).2.1
    (o.accepted = true ↔ ∀ r ∈ records, r.isInvalid = false) ∧
      (o.accepted = true →
        o.errorCount = 0 ∧ after = sink ∧ o.tokensConsumed = records.length) ∧
      (o.accepted = false → o.aborted = true ∧ o.errorCount = 0 ∧
        ∃ r d, records.find? TokenRecord.isInvalid = some r ∧
          d.kind = .invalidToken ∧ d.text = r.text ∧ d.span = r.span ∧ d.reason? = r.reason ∧
          after = DiagnosticSink.receive sink d ∧
          ∀ capacity, (parseUnit j unit language ({ capacity := capacity + 1 } : Collector)
            preferences).2.1 = { capacity := capacity + 1, diagnostics := [d] }) := by
  intro records o after
  have h : Agrees records _ o sink after := agrees_parseUnit j j' unit language sink preferences
  refine ⟨h.accepted_iff, h.accepted, fun hrejected ↦ ?_⟩
  obtain ⟨haborted, hcount, i, hfirst, hfind, hafter⟩ := h.rejected hrejected
  refine ⟨haborted, hcount, _, .invalidToken i, hfind, rfl, rfl, rfl, rfl, hafter, fun n ↦ ?_⟩
  -- A collector is a sink like any other, and its parse is judged by the same records.
  have hc := agrees_parseUnit j j' unit language ({ capacity := n + 1 } : Collector) preferences
  have hinvalid : (parseUnit j unit language ({ capacity := n + 1 } : Collector)
      preferences).1.accepted = false := by
    rw [Bool.eq_false_iff] at hrejected ⊢
    exact fun haccepted ↦ hrejected (h.accepted_iff.2 (hc.accepted_iff.1 haccepted))
  obtain ⟨-, -, i', hfirst', -, hcollected⟩ := hc.rejected hinvalid
  obtain rfl : i' = i := Option.some.inj (hfirst'.symm.trans hfirst)
  rw [hcollected, receive_collector]

end Pipeline

end LexFront
