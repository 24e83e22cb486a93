import LexFront.Proofs.Checked.CMake
import LexFront.Proofs.Checked.Cpp
import LexFront.Proofs.Checked.Windows
import LexFront.Proofs.Parser.Tracking
import LexFront.Proofs.Source.Answers
import LexFront.Proofs.Unit.Validity

/-!
# No step is refused on any unit

Parsing and listing a unit with every step checked: whatever the bytes of the unit are, in whatever
chunks they come and wherever they fail, no slice leaves its text or cuts a character, no place in a
table or buffer is missed, no difference is below zero, and every location is 1-based and fits. The
answers are those of the plain pipeline.

The reason for the last part is the limit on the size of a unit. Each character read raises a line
or column number by one at most, and there are fewer bytes in a unit than numbers.

A checked lexer is a source like any other to a parser. The first step that it is refused ends its
lexemes, and stays on record (`GuardedLexer`), to be asked for when the work is done. So the parser
is the same in both pipelines. What it counts, lexemes and reports, are numbers of the size of a
memory; these, the journal and the sink are not checked.

Key facts:

* `Pipeline.mirrors_ofDecoder`: a checked lexer at the start of a unit stands for the plain one.
* `GuardedLexer.matches_mirrors`: and does so to the end.
* `Pipeline.checked_pipeline_eq`: parsing and listing a unit.
-/

set_option autoImplicit false

namespace LexFront

open Checked

/-- A checked lexer as a source: the lexer as it was before it stopped, and why it did. -/
structure GuardedLexer (T : Type) where
  lexer : CheckedLexer T
  panic : Option Panic := none

namespace GuardedLexer

variable {T : Type}

/-- What was worked out from a source, unless the source was refused a step. -/
def settle {α : Type} (g : GuardedLexer T) (a : α) : Checked α :=
  match g.panic with
  | none => .ok a
  | some e => .error e

variable [Terminal T]

/-- Hands out the next lexeme, and nothing any more after a step that was refused. -/
def next (g : GuardedLexer T) : Lexeme T × GuardedLexer T :=
  match g.panic with
  | some _ => (.endOfInput, g)
  | none =>
    match g.lexer.next? with
    | .ok (x, lexer) => (x, { lexer })
    | .error e => (.endOfInput, { g with panic := some e })

theorem remaining_next_lt (g : GuardedLexer T) (h : g.next.1 ≠ .endOfInput) :
    g.next.2.lexer.remaining < g.lexer.remaining := by
  rw [next] at h ⊢
  cases hp : g.panic with
  | some e =>
    rw [hp] at h
    exact absurd rfl h
  | none =>
    simp only [hp] at h ⊢
    cases hn : g.lexer.next? with
    | error e =>
      simp only [hn] at h
      exact absurd rfl h
    | ok r =>
      simp only [hn] at h ⊢
      exact CheckedLexer.remaining_next?_lt hn h

instance : FiniteSource (GuardedLexer T) T where
  next := next
  endLocation g := g.lexer.location
  unit g := g.lexer.lines.unit
  remaining g := g.lexer.remaining
  remaining_next_lt := remaining_next_lt

/-- A checked lexer that has been refused nothing, the lexer it stands for, and numbers for both. -/
structure Mirrors (g : GuardedLexer T) (l : Lexer T) : Prop where
  panic : g.panic = none
  views : g.lexer.Views l
  keepsBreaks : Lexicon.KeepsBreaks l.lexicon.rules
  hasNumbers : ∃ read, l.HasNumbers read

/-- **A checked lexer is refused nothing to the end.** -/
theorem matches_mirrors : LexemeSource.Matches (Mirrors (T := T)) where
  next := by
    rintro g l ⟨hpanic, hviews, hbreaks, read, hroom⟩
    obtain ⟨c', hnext, hviews'⟩ := hviews.next hroom
    obtain ⟨hroom', hbreaks'⟩ := hroom.next hbreaks
    have hguarded : g.next = (l.next.1, { lexer := c' }) := by rw [next, hpanic, hnext]
    show g.next.1 = l.next.1 ∧ Mirrors g.next.2 l.next.2
    rw [hguarded]
    exact ⟨rfl, rfl, hviews', hbreaks', _, hroom'⟩
  unit h := by
    cases h.views
    rfl

omit [Terminal T] in
theorem Mirrors.settle_eq {α : Type} {g : GuardedLexer T} {l : Lexer T} (h : g.Mirrors l)
    (a : α) : g.settle a = .ok a := by
  rw [settle, h.panic]

end GuardedLexer

/-- There are as many characters as lines at least. -/
theorem Line.Consecutive.length_le {unit : String} {n : Nat} {ls : List Line}
    (h : Consecutive unit n ls) : ls.length ≤ (ls.flatMap raw).length := by
  induction ls generalizing n with
  | nil => exact Nat.le_refl 0
  | cons l ls ih =>
    have hpos := List.length_pos_iff.2 h.heads.raw_ne_nil
    have hrest := ih h.heads.rest
    rw [List.length_cons, List.flatMap_cons, List.length_append]
    omega

namespace Pipeline

/-- A unit has fewer characters and lines than there are line and column numbers. -/
theorem length_lines_lt (unit : SourceUnit) (limit : Nat) :
    let splitter : Splitter := { unit := unit.name, decoder := unit.decoder, limit }
    (splitter.rest.1.flatMap Line.raw).length + 1 < Location.maxOrdinal ∧ splitter.HasNumbers := by
  intro splitter
  have hsize : 0 + Text.size unit.decoder.text ≤ Limits.unitSize :=
    Decoder.offset_add_size_text_le (d := unit.decoder) ⟨rfl, rfl⟩ (Nat.zero_le _)
  have hlength := Text.length_le_size unit.decoder.text
  have htaken : (splitter.rest.1.flatMap Line.raw).length ≤ unit.decoder.text.length := by
    rw [splitter.flatMap_raw_rest]
    exact (Text.uptoOverlong_prefix limit limit unit.decoder.text).length_le
  have hlines := splitter.consecutive_rest.length_le
  have hnumbers : Limits.unitSize + 1 < Location.maxOrdinal := by decide
  refine ⟨by omega, Nat.le_refl 1, fun _ ↦ ?_⟩
  show 1 + _ < _
  omega

variable {T δ : Type} [Terminal T] [DiagnosticSink δ]

omit [Terminal T] in
/-- **At the start of a unit a checked lexer stands for the plain one**, and there are
numbers. -/
theorem mirrors_ofDecoder {checked : CheckedLexicon T} {lexicon : Lexicon T}
    (h : checked.Agrees lexicon) (hbreaks : Lexicon.KeepsBreaks lexicon.rules) (unit : SourceUnit)
    (preferences : LexicalPreferences) :
    ∃ c, CheckedLexer.ofDecoder? checked preferences unit.name unit.decoder = .ok c ∧
      GuardedLexer.Mirrors { lexer := c }
        (Lexer.ofDecoder lexicon preferences unit.name unit.decoder) := by
  obtain ⟨hlength, hsplitter⟩ := length_lines_lt unit Limits.lineLength
  obtain ⟨hlines, hroom⟩ := LineStream.ofSplitter?_eq preferences.eagerLines hsplitter
  have hpending := (Lexer.ofDecoder_spec lexicon preferences unit.name unit.decoder
    Limits.lineLength Limits.tokenLength Limits.tokenCount).1
  have hlocated := Lexer.located_ofDecoder lexicon preferences unit.name unit.decoder
    Limits.lineLength Limits.tokenLength Limits.tokenCount
  refine ⟨_, by rw [CheckedLexer.ofDecoder?, hlines]; rfl, ?_⟩
  exact {
    panic := rfl
    views := .intro h (Text.hasRest_zero [])
    keepsBreaks := hbreaks
    hasNumbers := ⟨[], {
      located := hlocated
      lines := hroom
      length_lt := (congrArg (fun t : Text ↦ t.length + 1) hpending).trans_lt hlength
      tally := Nat.le_refl 0 }⟩ }

/-- Parses a unit with a checked lexicon: the outcome and the sink after it. -/
def parseWithLexicon? (lexicon : CheckedLexicon T) (unit : SourceUnit) (sink : δ)
    (preferences : Preferences) : Checked (Outcome × δ) := do
  let lexer ← CheckedLexer.ofDecoder? lexicon preferences.lexical unit.name unit.decoder
  let source : GuardedLexer T := { lexer }
  let p : Parser (GuardedLexer T) T δ :=
    { Parser.ofSource source sink with logExpectations := preferences.syntactic.logExpectations }
  let (_, p) := p.parse
  let (o, p) := p.finish
  p.tokens.source.settle (o, p.sink)

/-- Lists the lexemes of a unit with a checked lexicon. -/
def recordsWithLexicon? (lexicon : CheckedLexicon T) (unit : SourceUnit)
    (preferences : LexicalPreferences) : Checked (List TokenRecord) := do
  let lexer ← CheckedLexer.ofDecoder? lexicon preferences unit.name unit.decoder
  let source : GuardedLexer T := { lexer }
  let (lexemes, s) := (LexemeStream.ofSource source).rest
  s.source.settle (lexemes.filterMap TokenRecord.ofLexeme?)

/-- **Parsing with a lexicon is refused no step.** -/
theorem parseWithLexicon?_eq {checked : CheckedLexicon T} {lexicon : Lexicon T}
    (h : checked.Agrees lexicon) (hbreaks : Lexicon.KeepsBreaks lexicon.rules) (unit : SourceUnit)
    (sink : δ) (preferences : Preferences) :
    parseWithLexicon? checked unit sink preferences =
      .ok ((parseWithLexicon lexicon unit sink preferences).1,
        (parseWithLexicon lexicon unit sink preferences).2.1) := by
  obtain ⟨c, hc, hmirrors⟩ := mirrors_ofDecoder h hbreaks unit preferences.lexical
  rw [parseWithLexicon?, hc, ok_bind]
  have hmatch := GuardedLexer.matches_mirrors (T := T)
  let p : Parser (GuardedLexer T) T δ :=
    { Parser.ofSource { lexer := c } sink with
      logExpectations := preferences.syntactic.logExpectations }
  let q : Parser (Lexer T) T δ :=
    { Parser.ofSource (Lexer.ofDecoder lexicon preferences.lexical unit.name unit.decoder) sink with
      logExpectations := preferences.syntactic.logExpectations }
  have hp : Parser.Tracks GuardedLexer.Mirrors p q :=
    ⟨.ofSource hmatch hmirrors, rfl, rfl, rfl, rfl, rfl⟩
  obtain ⟨houtcome, hafter⟩ := (hp.parse hmatch).2.finish hmatch
  show p.parse.2.finish.2.tokens.source.settle (p.parse.2.finish.1, p.parse.2.finish.2.sink) =
    .ok (q.parse.2.finish.1, q.parse.2.finish.2.sink)
  rw [hafter.tokens.source.settle_eq, houtcome, hafter.sink]

/-- **Listing with a lexicon is refused no step.** -/
theorem recordsWithLexicon?_eq {checked : CheckedLexicon T} {lexicon : Lexicon T}
    (h : checked.Agrees lexicon) (hbreaks : Lexicon.KeepsBreaks lexicon.rules) (unit : SourceUnit)
    (preferences : LexicalPreferences) :
    recordsWithLexicon? checked unit preferences =
      .ok (recordsWithLexicon lexicon unit preferences).1 := by
  obtain ⟨c, hc, hmirrors⟩ := mirrors_ofDecoder h hbreaks unit preferences
  have hmatch := GuardedLexer.matches_mirrors (T := T)
  have hstream := LexemeStream.Tracks.ofSource hmatch hmirrors
  obtain ⟨hlexemes, hafter⟩ := hstream.rest hmatch
  rw [recordsWithLexicon?, hc, ok_bind, recordsWithLexicon_eq]
  simp only [hafter.source.settle_eq, hlexemes]
  rfl

/-- Parses a unit with every step checked. -/
def parseUnit? (unit : SourceUnit) (language : Language) (sink : δ) (preferences : Preferences) :
    Checked (Outcome × δ) :=
  match language with
  | .cmake => parseWithLexicon? CMake.checkedLexicon unit sink preferences
  | .cpp => parseWithLexicon? Cpp.checkedLexicon unit sink preferences

/-- Lists the lexemes of a unit with every step checked. -/
def tokenizeUnit? (unit : SourceUnit) (language : Language) (preferences : LexicalPreferences) :
    Checked (List TokenRecord) :=
  match language with
  | .cmake => recordsWithLexicon? CMake.checkedLexicon unit preferences
  | .cpp => recordsWithLexicon? Cpp.checkedLexicon unit preferences

/-- **No step is refused on any unit.** Parsing and listing with every step checked answer as the
plain pipeline does, for any bytes, both languages and all preferences. Neither is a scanner or a
decoder of the two languages refused a step on any text, whether or not it ever comes to it. -/
theorem checked_pipeline_eq (j : Journal) (unit : SourceUnit) (language : Language) (sink : δ)
    (preferences : Preferences) :
    parseUnit? unit language sink preferences =
        .ok ((parseUnit j unit language sink preferences).1,
          (parseUnit j unit language sink preferences).2.1) ∧
      tokenizeUnit? unit language preferences.lexical =
        .ok (tokenizeUnit j unit language preferences.lexical).1 ∧
      CMake.checkedLexicon.Agrees CMake.lexicon ∧ Cpp.checkedLexicon.Agrees Cpp.lexicon := by
  refine ⟨?_, ?_, CMake.agrees_checkedLexicon, Cpp.agrees_checkedLexicon⟩
  · cases language with
    | cmake => exact parseWithLexicon?_eq CMake.agrees_checkedLexicon CMake.keepsBreaks unit sink _
    | cpp => exact parseWithLexicon?_eq Cpp.agrees_checkedLexicon Cpp.keepsBreaks unit sink _
  · cases language with
    | cmake => exact recordsWithLexicon?_eq CMake.agrees_checkedLexicon CMake.keepsBreaks unit _
    | cpp => exact recordsWithLexicon?_eq Cpp.agrees_checkedLexicon Cpp.keepsBreaks unit _

end Pipeline

end LexFront
