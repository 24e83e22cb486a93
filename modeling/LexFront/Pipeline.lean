import LexFront.CMake.Lexicon
import LexFront.Cpp.Lexicon
import LexFront.Language
import LexFront.Parser.Run
import LexFront.Unit.Basic
import LexFront.Unit.Record

/-!
# Working on a unit

A unit is parsed or listed with the lexicon of its language. Every unit that is worked on gets the
next number, and all that is said on the way goes into the journal under its name.

Key facts:

* `all_isRegistered`: every failure of the lexer and the parser has an entry in the register.
-/

set_option autoImplicit false

namespace LexFront

/-- The report on a file that was parsed. -/
structure UnitReport where
  language : Language
  outcome : Outcome
  diagnostics : List Diagnostic
  /-- How many diagnostics were not kept. -/
  dropped : Nat
  deriving DecidableEq, Repr

namespace Outcome

/-- The name of the phase that a finished parse is in. -/
def stateName (o : Outcome) : String := if o.accepted then "Accepted" else "Rejected"

/-- An outcome as a JSON object. -/
def toJson (o : Outcome) : Json :=
  .obj [("unit", .str o.unit), ("state", .str o.stateName), ("accepted", .bool o.accepted),
    ("error_count", .nat o.errorCount), ("aborted", .bool o.aborted),
    ("tokens_consumed", .nat o.tokensConsumed)]

end Outcome

namespace UnitReport

/-- The parts of a report as the fields of a JSON object. -/
def fields (r : UnitReport) : List (String × Json) :=
  [("language", .str r.language.name), ("outcome", r.outcome.toJson),
    ("diagnostics", .arr (r.diagnostics.map Diagnostic.toJson)), ("dropped", .nat r.dropped)]

end UnitReport

namespace Pipeline

/-- Parses a unit with a lexicon: the outcome, the sink after it and what was said on the way. -/
def parseWithLexicon {T δ : Type} [Terminal T] [DiagnosticSink δ] (lexicon : Lexicon T)
    (unit : SourceUnit) (sink : δ) (preferences : Preferences) : Outcome × δ × List Emission :=
  let lexer := Lexer.ofDecoder lexicon preferences.lexical unit.name unit.decoder
  let p : Parser (Lexer T) T δ :=
    { Parser.ofSource lexer sink with logExpectations := preferences.syntactic.logExpectations }
  let (_, p) := p.parse
  let (o, p) := p.finish
  (o, p.sink, p.trace.reverse)

/-- Lists the lexemes of a unit, with what the journal is told on the way. -/
def recordsWithLexicon {T : Type} [Terminal T] (lexicon : Lexicon T) (unit : SourceUnit)
    (preferences : LexicalPreferences) : List TokenRecord × List Event :=
  let lexer := Lexer.ofDecoder lexicon preferences unit.name unit.decoder
  let (lexemes, events, s) := (LexemeStream.ofSource lexer).drain
  let tally := s.source.tally
  (lexemes.filterMap TokenRecord.ofLexeme?,
    LexemeStream.openingEvents lexer ++ events ++
      [(Event.debug "Unit tokenized").withContext
        [("unit", unit.name), ("tokens", toString tally.total),
          ("invalid", toString tally.invalid), ("lines", toString tally.lines)]])

/-- Does some work on a unit, under the next number. -/
def onUnit {α : Type} (j : Journal) (unit : String) (work : α × List Emission) : α × Journal :=
  let j := { j.enter unit j.nextUnit with nextUnit := j.nextUnit + 1 }
  (work.1, (j.absorb work.2).leave)

/-- Parses a unit. -/
def parseUnit {δ : Type} [DiagnosticSink δ] (j : Journal) (unit : SourceUnit)
    (language : Language) (sink : δ) (preferences : Preferences) : Outcome × δ × Journal :=
  let start := (Event.info "Parsing unit").withContext
    [("unit", unit.name), ("language", language.name)]
  let (o, sink, said) := match language with
    | .cmake => parseWithLexicon CMake.lexicon unit sink preferences
    | .cpp => parseWithLexicon Cpp.lexicon unit sink preferences
  let ((o, sink), j) := onUnit j unit.name ((o, sink), .entry start :: said)
  (o, sink, j)

/-- Lists the lexemes of a unit. -/
def tokenizeUnit (j : Journal) (unit : SourceUnit) (language : Language)
    (preferences : LexicalPreferences) : List TokenRecord × Journal :=
  let (records, events) := match language with
    | .cmake => recordsWithLexicon CMake.lexicon unit preferences
    | .cpp => recordsWithLexicon Cpp.lexicon unit preferences
  onUnit j unit.name (records, events.map .entry)

/-- Opens the file at a path. -/
def openUnit (j : Journal) (path : String) (found : Lookup) :
    Except SourceError SourceUnit × Journal :=
  let (unit, events) := SourceUnit.openFile path found
  (unit, j.absorb (events.map .entry))

/-- Parses the file at a path. Its diagnostics are collected, and handed to another sink too. -/
def processFile {δ : Type} [DiagnosticSink δ] (j : Journal) (path : String) (found : Lookup)
    (language : Option Language) (echo : δ) (preferences : Preferences) :
    Except PipelineError UnitReport × Journal :=
  match Language.resolve path language with
  | .error e => (.error e, j)
  | .ok language =>
    match openUnit j path found with
    | (.error e, j) => (.error (.source e), j)
    | (.ok unit, j) =>
      let (outcome, (collector, _), j) :=
        parseUnit j unit language (({} : Collector), echo) preferences
      let j := j.write <| (Event.debug "Unit processed").withContext
        [("unit", outcome.unit), ("accepted", toString outcome.accepted),
          ("diagnostics", toString collector.diagnostics.length)]
      (.ok ⟨language, outcome, collector.diagnostics, collector.dropped⟩, j)

/-- Lists the lexemes of the file at a path. -/
def tokenizeFile (j : Journal) (path : String) (found : Lookup) (language : Option Language)
    (preferences : LexicalPreferences) : Except PipelineError (List TokenRecord) × Journal :=
  match Language.resolve path language with
  | .error e => (.error e, j)
  | .ok language =>
    match openUnit j path found with
    | (.error e, j) => (.error (.source e), j)
    | (.ok unit, j) =>
      let (records, j) := tokenizeUnit j unit language preferences
      (.ok records, j)

/-- The codes of the failures that the lexer and the parser report. -/
def failureCodes : List Code :=
  [.unrecognizedInput, .unterminatedConstruct, .lineTooLong, .tokenTooLong, .tooManyTokens,
    .sourceFault, .noMoreToken, .unexpectedToken, .parseAborted, .noProgress, .parseRejected]

/-- Whether every failure has an entry in the register. -/
def isValid : Bool := failureCodes.all (·.metadata?.isSome)

theorem all_isRegistered : isValid = true := by decide

end Pipeline

end LexFront
