import LexFront.Proofs.Journal.Recording
import LexFront.Proofs.Lexer.Endings
import LexFront.Proofs.Unit.Validity

/-!
# What the work on a unit tells the journal

The journal hears of the work on a unit from the splitter, the lexer and the parser. They never
warn, and they report a failure only for a reason: a line or a source that could not be read to its
end, an invalid lexeme, the abort that one leads to, a rejected parse. All of these go back to an
invalid lexeme, so that no failure is told of a unit without one, whether it is parsed or listed,
and of a unit with one at least the rejection is.

`Mild flawed` is the bound for what may be said of a unit that has an invalid lexeme, or has none.

Key facts:

* `Lexer.mild_stepEvents`, `LexemeStream.mild_drain`: what a lexer says is within the bound.
* `Parser.IsMild.drive`: so is what a parser says that consumes whatever comes.
* `told_parseWithLexicon`, `told_recordsWithLexicon`: a parse tells of a failure exactly if a lexeme
  is invalid, a listing only if one is.
* `Journal.Stands.parseUnit`: what the entries of a unit tell in the end.
-/

set_option autoImplicit false

namespace LexFront

/-! ### The bound -/

/-- No warning, and no failure either unless something is flawed. -/
def Event.Mild (flawed : Bool) (e : Event) : Prop :=
  e.isWarning = false ∧ (flawed = false → e.isError = false)

/-- An entry that is neither failure nor warning is within any bound. -/
theorem Event.mild_of_level {flawed : Bool} {e : Event} (h : e.level = .info ∨ e.level = .debug) :
    e.Mild flawed := by
  rw [Mild, isWarning, isError]
  rcases h with h | h <;> rw [h] <;> exact ⟨rfl, fun _ ↦ rfl⟩

/-- A failure is within the bound of what is flawed. -/
theorem Event.mild_of_flawed {flawed : Bool} {e : Event} (h : e.level = .error)
    (hf : flawed = true) : e.Mild flawed := by
  refine ⟨?_, fun hf' ↦ ?_⟩
  · rw [isWarning, h]
    rfl
  · rw [hf] at hf'
    cases hf'

/-- An emission whose entry is within the bound. -/
def Emission.Mild (flawed : Bool) : Emission → Prop
  | .entry e => e.Mild flawed
  | .line _ => True

theorem Emission.Mild.isWarning_eq {flawed : Bool} {em : Emission} (h : em.Mild flawed) :
    em.isWarning = false := by
  cases em with
  | entry e => exact h.1
  | line text => rfl

theorem Emission.Mild.isFailure_eq {em : Emission} (h : em.Mild false) : em.isFailure = false := by
  cases em with
  | entry e => exact h.2 rfl
  | line text => rfl

theorem Emission.mild_map_entry {flawed : Bool} {es : List Event} (h : ∀ e ∈ es, e.Mild flawed) :
    ∀ em ∈ es.map Emission.entry, em.Mild flawed := by
  intro em hem
  obtain ⟨e, he, rfl⟩ := List.mem_map.1 hem
  exact h e he

/-- With one entry that is a failure just if something is flawed, and else what is within the bound,
a failure is said exactly if something is flawed. -/
theorem Emission.any_isFailure_of_level {flawed : Bool} {e : Event} {ems : List Emission}
    (he : e.level = if !flawed then .info else .error) (h : ∀ em ∈ ems, em.Mild flawed) :
    (∀ em ∈ entry e :: ems, em.isWarning = false) ∧
      (entry e :: ems).any isFailure = flawed := by
  have hmild : ∀ em ∈ entry e :: ems, em.Mild flawed := by
    refine List.forall_mem_cons.2 ⟨?_, h⟩
    cases flawed with
    | false => exact Event.mild_of_level (.inl he)
    | true => exact Event.mild_of_flawed he rfl
  refine ⟨fun em hem ↦ (hmild em hem).isWarning_eq, ?_⟩
  cases flawed with
  | false =>
    rw [List.any_eq_false]
    intro em hem
    rw [(hmild em hem).isFailure_eq]
    exact Bool.false_ne_true
  | true =>
    have hfailure : e.isError = true := by
      rw [Event.isError, he]
      rfl
    rw [List.any_cons, isFailure, hfailure, Bool.true_or]

/-! ### Splitter and lexer -/

theorem LineStream.mild_readingEvents (flawed : Bool) (before after : LineStream) :
    ∀ e ∈ readingEvents before after, e.Mild flawed := by
  rw [readingEvents]
  split
  · split
    · exact List.forall_mem_singleton.2 (Event.mild_of_level (.inr rfl))
    · simp
  · simp

theorem Splitter.mild_closingEvents {flawed : Bool} {s : Splitter}
    (h : flawed = false → s.fault = none) : ∀ e ∈ s.closingEvents, e.Mild flawed := by
  rw [closingEvents]
  refine List.forall_mem_cons.2 ⟨Event.mild_of_level (.inr rfl), List.forall_mem_singleton.2 ?_⟩
  cases hf : s.fault with
  | none => exact Event.mild_of_level (.inl rfl)
  | some e =>
    refine Event.mild_of_flawed rfl (Bool.of_not_eq_false fun hsound ↦ ?_)
    rw [h hsound] at hf
    cases hf

/-- A splitter that has read all lines has reported a failure if it had one. -/
theorem LineStream.mild_openingEvents {flawed isEager : Bool} {splitter : Splitter}
    (h : flawed = false → splitter.rest.2.fault = none) :
    ∀ e ∈ (ofSplitter isEager splitter).openingEvents, e.Mild flawed := by
  have hsupply : (∃ lines, (ofSplitter isEager splitter).supply = .eager lines splitter.rest.2) ∨
      ∃ splitter', (ofSplitter isEager splitter).supply = .onDemand splitter' := by
    cases isEager with
    | true =>
      left
      rw [ofSplitter, if_pos rfl, eager]
      cases hr : splitter.rest with
      | mk lines made => cases lines <;> exact ⟨_, rfl⟩
    | false =>
      right
      simp only [ofSplitter, Bool.false_eq_true, if_false, onDemand, refill]
      split <;> exact ⟨_, rfl⟩
  rw [openingEvents]
  rcases hsupply with ⟨lines, hs⟩ | ⟨splitter', hs⟩
  · rw [hs]
    exact Splitter.mild_closingEvents h
  · rw [hs]
    simp only
    split
    · exact List.forall_mem_singleton.2 (Event.mild_of_level (.inr rfl))
    · simp

namespace Lexer

variable {T : Type}

theorem mild_closingEvents (flawed : Bool) (l : Lexer T) :
    ∀ e ∈ l.closingEvents, e.Mild flawed := by
  refine List.forall_mem_cons.2 ⟨Event.mild_of_level (.inl rfl), fun e he ↦ ?_⟩
  obtain ⟨p, -, rfl⟩ := List.mem_map.1 he
  exact Event.mild_of_level (.inr rfl)

theorem level_event (unit : String) (i : InvalidToken) : (i.event unit).level = .error := by
  rw [InvalidToken.event]
  split <;> rfl

/-- A step reports a failure only with an invalid lexeme. -/
theorem mild_stepEvents {flawed : Bool} {x : Lexeme T} (h : flawed = false → x.isInvalid = false)
    (before after : Lexer T) : ∀ e ∈ stepEvents before x after, e.Mild flawed := by
  intro e he
  unfold stepEvents at he
  rw [List.mem_append, List.mem_append] at he
  rcases he with (he | he) | he
  · exact LineStream.mild_readingEvents flawed _ _ e he
  · cases x with
    | invalid i =>
      obtain rfl : e = i.event after.unit := List.mem_singleton.1 he
      exact Event.mild_of_flawed (level_event _ i) (Bool.of_not_eq_false fun hsound ↦
        nomatch h hsound)
    | valid t => cases he
    | endOfInput => cases he
  · split at he
    · exact mild_closingEvents flawed after e he
    · cases he

end Lexer

namespace LexemeStream

variable {T : Type} [Terminal T] {flawed : Bool}

/-- Unless something is flawed, no lexeme to come is invalid. -/
def Within (flawed : Bool) (s : LexemeStream (Lexer T) T) : Prop :=
  flawed = false → ∀ x ∈ s.rest.1, x.isInvalid = false

theorem Within.lookahead {s : LexemeStream (Lexer T) T} (h : s.Within flawed) :
    flawed = false → s.lookahead.isInvalid = false := by
  intro hf
  cases ho : s.isAtEnd with
  | true =>
    cases hl : s.lookahead with
    | invalid i => simp [isAtEnd, hl, Lexeme.isEnd] at ho
    | _ => rfl
  | false => exact h hf _ (by rw [rest_of_open ho]; exact List.mem_cons_self)

theorem Within.next {s : LexemeStream (Lexer T) T} (h : s.Within flawed) :
    s.next.2.Within flawed := by
  cases ho : s.isAtEnd with
  | true => rwa [next_of_isAtEnd ho]
  | false =>
    intro hf x hx
    exact h hf x (by rw [rest_of_open ho]; exact List.mem_cons_of_mem _ hx)

theorem mild_stepEvents {s : LexemeStream (Lexer T) T} (h : s.Within flawed) :
    ∀ e ∈ stepEvents s s.next.2, e.Mild flawed := by
  rw [stepEvents]
  split
  · simp
  · exact Lexer.mild_stepEvents h.next.lookahead _ _

/-- **What a lexer says on the way to its end is within the bound.** -/
theorem mild_drain {s : LexemeStream (Lexer T) T} (h : s.Within flawed) :
    ∀ e ∈ s.drain.2.1, e.Mild flawed := by
  fun_induction drain s with
  | case1 s _ => simp
  | case2 s _ lexemes events s' hr ih =>
    intro e he
    rcases List.mem_append.1 he with he | he
    · exact mild_stepEvents h e he
    · rw [hr] at ih
      exact ih h.next e he

end LexemeStream

/-! ### The parser -/

/-- A sink that says lines at most, and nothing to the journal. -/
def DiagnosticSink.SaysLines (δ : Type) [DiagnosticSink δ] : Prop :=
  ∀ (s : δ) (d : Diagnostic), ∀ em ∈ emissions s d, ∃ text, em = .line text

theorem DiagnosticSink.saysLines_unit : SaysLines Unit := fun _ _ _ h ↦ nomatch h

theorem DiagnosticSink.saysLines_collector : SaysLines Collector := fun _ _ _ h ↦ nomatch h

theorem DiagnosticSink.saysLines_echo : SaysLines Echo :=
  fun _ d _ h ↦ ⟨d.render, List.mem_singleton.1 h⟩

theorem DiagnosticSink.SaysLines.prod {α β : Type} [DiagnosticSink α] [DiagnosticSink β]
    (hα : SaysLines α) (hβ : SaysLines β) : SaysLines (α × β) := by
  intro s d em hem
  rcases List.mem_append.1 hem with hem | hem
  · exact hα s.1 d em hem
  · exact hβ s.2 d em hem

namespace Parser

variable {T δ : Type} [Terminal T] {flawed : Bool} {p : Parser (Lexer T) T δ}

/-- What a parser said is within the bound, and what it will find too. -/
structure IsMild (flawed : Bool) (p : Parser (Lexer T) T δ) : Prop where
  trace : ∀ em ∈ p.trace, em.Mild flawed
  within : p.tokens.Within flawed

theorem IsMild.say (h : p.IsMild flawed) {ems : List Emission} (hems : ∀ em ∈ ems, em.Mild flawed) :
    (p.say ems).IsMild flawed where
  trace em hem := by
    rcases List.mem_append.1 hem with hem | hem
    · exact hems em (List.mem_reverse.1 hem)
    · exact h.trace em hem
  within := h.within

theorem IsMild.take (h : p.IsMild flawed) : p.take.2.IsMild flawed := by
  have hnext : { p with tokens := p.tokens.next.2 }.IsMild flawed := ⟨h.trace, h.within.next⟩
  exact hnext.say (Emission.mild_map_entry (LexemeStream.mild_stepEvents h.within))

theorem IsMild.skipTrivia (h : p.IsMild flawed) : p.skipTrivia.2.IsMild flawed := by
  fun_induction Parser.skipTrivia p with
  | case1 p _ n p' hr ih =>
    rw [hr] at ih
    exact ih h.take
  | case2 p _ => exact h

variable [DiagnosticSink δ]

/-- An abort is reported, and comes of an invalid lexeme. -/
theorem IsMild.abort (h : p.IsMild flawed) (hδ : DiagnosticSink.SaysLines δ)
    (hf : flawed = true) (i : InvalidToken) : (p.abort i).IsMild flawed := by
  rw [Parser.abort]
  split
  · exact h
  · have haborted : { p with aborted := true }.IsMild flawed := ⟨h.trace, h.within⟩
    have hsink : ∀ em ∈ DiagnosticSink.emissions p.sink (.invalidToken i), em.Mild flawed := by
      intro em hem
      obtain ⟨text, rfl⟩ := hδ p.sink _ em hem
      trivial
    have hreport : ({ p with aborted := true }.report (.invalidToken i)).IsMild flawed :=
      ⟨(haborted.say hsink).trace, h.within⟩
    exact hreport.say (List.forall_mem_singleton.2 (Event.mild_of_flawed rfl hf))

theorem IsMild.advance (h : p.IsMild flawed) (hδ : DiagnosticSink.SaysLines δ) :
    p.advance.2.IsMild flawed := by
  have hfst := take_fst p
  rw [Parser.advance]
  cases hl : p.tokens.lookahead with
  | invalid i =>
    have hp : p.take = (.invalid i, p.take.2) := Prod.ext (hfst.trans hl) rfl
    have hf : flawed = true := Bool.of_not_eq_false fun hsound ↦ by
      have hvalid := h.within.lookahead hsound
      rw [hl] at hvalid
      cases hvalid
    rw [hp]
    exact h.take.abort hδ hf i
  | endOfInput =>
    have hp : p.take = (.endOfInput, p.take.2) := Prod.ext (hfst.trans hl) rfl
    rw [hp]
    exact h.take
  | valid t =>
    have hp : p.take = (.valid t, p.take.2) := Prod.ext (hfst.trans hl) rfl
    rw [hp]
    exact h.take

/-- **What is said while whatever comes is consumed is within the bound.** -/
theorem IsMild.drive (hδ : DiagnosticSink.SaysLines δ) (forced : Nat) (g : Unit)
    (p : Parser (Lexer T) T δ) (h : p.IsMild flawed) :
    (drive drain forced g p).2.IsMild flawed := by
  have hforward : IsForward (drain (σ := Lexer T) (T := T) (δ := δ)) := isForward_drain
  induction forced, g, p using drive_induction hforward with
  | ended forced g p ho =>
    rw [drive_of_isOver ho]
    exact h.skipTrivia
  | stalled forced g p ho hi hl =>
    rw [isIdle_drain (of_not_isOver ho).2] at hi
    cases hi
  | idle forced g p ho hi hl ih =>
    rw [isIdle_drain (of_not_isOver ho).2] at hi
    cases hi
  | busy forced g p ho hi ih =>
    rw [drive_of_busy hforward ho hi]
    exact ih (h.skipTrivia.advance hδ)

omit [DiagnosticSink δ] in
/-- A parse that is finished for the first time is settled behind what is said so far. -/
theorem IsMild.exists_trace_finish (h : p.IsMild flawed) (ho : p.outcome = none) :
    ∃ atEnd rest, p.finish.2.trace = .entry (outcomeEvent p.finish.1 atEnd) :: rest ∧
      ∀ em ∈ rest, em.Mild flawed := by
  have hfinish : p.finish = (if p.aborted then p else p.skipTrivia.2).settle := by
    rw [finish, ho]
  rw [hfinish]
  split
  · exact ⟨_, _, rfl, h.trace⟩
  · exact ⟨_, _, rfl, h.skipTrivia.trace⟩

end Parser

/-! ### A unit -/

/-- Some lexeme is invalid exactly if there is a first that is. -/
theorem Lexeme.any_isInvalid {T : Type} (xs : List (Lexeme T)) :
    xs.any isInvalid = (xs.findSome? invalid?).isSome := by
  induction xs with
  | nil => rfl
  | cons x xs ih =>
    rw [List.any_cons, List.findSome?_cons, ih]
    cases x with
    | invalid i => rfl
    | valid t => rfl
    | endOfInput => rfl

/-- The entry for the outcome of a parse is a failure just if the parse was rejected. -/
theorem Parser.level_outcomeEvent (o : Outcome) (atEnd : Bool) :
    (outcomeEvent o atEnd).level = if o.accepted then .info else .error := by
  rw [outcomeEvent]
  split <;> rfl

namespace Pipeline

section

variable {T : Type} [Terminal T] (lexicon : Lexicon T) (unit : SourceUnit)
  (preferences : LexicalPreferences)

/-- Whether some lexeme of a unit is invalid. -/
def isFlawed : Bool := (lexemesOf lexicon unit preferences).rest.1.any Lexeme.isInvalid

theorem within_lexemesOf :
    (lexemesOf lexicon unit preferences).Within (isFlawed lexicon unit preferences) :=
  fun hf x hx ↦ Bool.eq_false_iff.2 (List.any_eq_false.1 hf x hx)

/-- What is said when the lexer of a unit is opened is within the bound: it had no failure if none
of its lexemes is one. -/
theorem mild_openingEvents :
    ∀ e ∈ LexemeStream.openingEvents
      (Lexer.ofDecoder lexicon preferences unit.name unit.decoder),
      e.Mild (isFlawed lexicon unit preferences) := by
  let l := Lexer.ofDecoder lexicon preferences unit.name unit.decoder
  let splitter : Splitter := { unit := unit.name, decoder := unit.decoder }
  have hwithin := within_lexemesOf lexicon unit preferences
  have hfault : isFlawed lexicon unit preferences = false → splitter.rest.2.fault = none := by
    intro hf
    obtain ⟨-, hl, live⟩ := Lexer.ofDecoder_spec lexicon preferences unit.name unit.decoder
      Limits.lineLength Limits.tokenLength Limits.tokenCount
    have hvalid : ∀ x ∈ l.lexemes, x.isInvalid = false := by
      rw [← Lexer.rest_ofSource_fst]
      exact hwithin hf
    exact (LineStream.ending_ofSplitter preferences.eagerLines splitter).symm.trans
      (Lexer.ending_eq_none_of_valid live hl hvalid).1
  intro e he
  rcases List.mem_append.1 he with he | he
  · rcases List.mem_append.1 he with he | he
    · exact LineStream.mild_openingEvents hfault e he
    · obtain rfl := List.mem_singleton.1 he
      exact Event.mild_of_level (.inr rfl)
  · exact Lexer.mild_stepEvents hwithin.lookahead _ _ e he

/-- **A listing tells of a failure only if a lexeme is invalid.** -/
theorem told_recordsWithLexicon :
    ∀ e ∈ (recordsWithLexicon lexicon unit preferences).2,
      e.Mild (isFlawed lexicon unit preferences) := by
  intro e he
  rcases List.mem_append.1 he with he | he
  · rcases List.mem_append.1 he with he | he
    · exact mild_openingEvents lexicon unit preferences e he
    · exact LexemeStream.mild_drain (within_lexemesOf lexicon unit preferences) e he
  · obtain rfl := List.mem_singleton.1 he
    exact Event.mild_of_level (.inr rfl)

end

/-- A parse without a grammar is accepted just if nothing is flawed. -/
theorem accepted_parseWithLexicon {T δ : Type} [Terminal T] [DiagnosticSink δ]
    (lexicon : Lexicon T) (unit : SourceUnit) (sink : δ) (preferences : Preferences) :
    (parseWithLexicon lexicon unit sink preferences).1.accepted =
      !isFlawed lexicon unit preferences.lexical := by
  let p : Parser (Lexer T) T δ :=
    { Parser.ofSource (Lexer.ofDecoder lexicon preferences.lexical unit.name unit.decoder) sink with
      logExpectations := preferences.syntactic.logExpectations }
  have hparses : Parser.Parses p p.parse.2.finish.1 p.parse.2.finish.2.sink :=
    Parser.parses_parse rfl rfl rfl
  have hflawed : isFlawed lexicon unit preferences.lexical =
      (p.tokens.rest.1.findSome? Lexeme.invalid?).isSome := Lexeme.any_isInvalid _
  show p.parse.2.finish.1.accepted = _
  rw [hflawed]
  generalize p.parse.2.finish.1 = o at hparses ⊢
  cases hparses with
  | accepted hnone ho =>
    rw [hnone, ho]
    rfl
  | rejected hsome ho =>
    rw [hsome, ho]
    rfl

/-- **A parse tells of a failure exactly if a lexeme is invalid**: of the rejection at least. -/
theorem told_parseWithLexicon {T δ : Type} [Terminal T] [DiagnosticSink δ]
    (hδ : DiagnosticSink.SaysLines δ) (lexicon : Lexicon T) (unit : SourceUnit) (sink : δ)
    (preferences : Preferences) :
    let said := (parseWithLexicon lexicon unit sink preferences).2.2
    (∀ em ∈ said, em.isWarning = false) ∧
      said.any Emission.isFailure = isFlawed lexicon unit preferences.lexical := by
  intro said
  let flawed := isFlawed lexicon unit preferences.lexical
  let lexer := Lexer.ofDecoder lexicon preferences.lexical unit.name unit.decoder
  let p : Parser (Lexer T) T δ :=
    { Parser.ofSource lexer sink with logExpectations := preferences.syntactic.logExpectations }
  let q := (Parser.drive Parser.drain 0 () p).2
  have hmild : q.IsMild flawed := by
    have hnew : ({ tokens := .ofSource lexer, sink } : Parser (Lexer T) T δ).IsMild flawed :=
      ⟨by simp, within_lexemesOf lexicon unit preferences.lexical⟩
    have hopened := hnew.say (Emission.mild_map_entry
      (mild_openingEvents lexicon unit preferences.lexical))
    have hcreated := hopened.say (List.forall_mem_singleton.2
      (show (Emission.entry ((Event.debug "Creating parser").withContext
        [("unit", (LexemeStream.ofSource lexer : LexemeStream (Lexer T) T).unit)])).Mild flawed from
        Event.mild_of_level (.inr rfl)))
    exact .drive hδ 0 () p ⟨hcreated.trace, hcreated.within⟩
  have hrunning : q.outcome = none := by
    cases Parser.drains_drive 0 () p rfl with
    | valid _ heffect => exact heffect.outcome
    | invalid _ heffect => exact heffect.outcome
  have hfinish : p.parse.2.finish = q.finish := by
    have hparse : p.parse.2 = q.finish.2 := by
      show (p.parseWith Parser.drain ()).2.2 = _
      rw [Parser.parseWith_eq Parser.isForward_drain rfl]
    rw [hparse, Parser.finish_finish]
  have haccepted : q.finish.1.accepted = !flawed := by
    rw [← hfinish]
    exact accepted_parseWithLexicon lexicon unit sink preferences
  obtain ⟨atEnd, rest, htrace, hrest⟩ := hmild.exists_trace_finish hrunning
  have hsaid : said = (.entry (Parser.outcomeEvent q.finish.1 atEnd) :: rest).reverse := by
    rw [← htrace, ← hfinish]
    rfl
  have hlevel := Parser.level_outcomeEvent q.finish.1 atEnd
  rw [haccepted] at hlevel
  obtain ⟨hwarning, hfailure⟩ := Emission.any_isFailure_of_level hlevel hrest
  rw [hsaid, List.any_reverse]
  exact ⟨fun em hem ↦ hwarning em (List.mem_reverse.1 hem), hfailure⟩

/-! ### The journal after the work -/

/-- Whether some lexeme of a unit is invalid in a language. -/
def isFlawedIn (language : Language) (unit : SourceUnit) (preferences : LexicalPreferences) :
    Bool :=
  match language with
  | .cmake => isFlawed CMake.lexicon unit preferences
  | .cpp => isFlawed Cpp.lexicon unit preferences

/-- A parse is accepted just if nothing is flawed, whatever the journal and the sink. -/
theorem accepted_parseUnit {δ : Type} [DiagnosticSink δ] (j : Journal) (unit : SourceUnit)
    (language : Language) (sink : δ) (preferences : Preferences) :
    (parseUnit j unit language sink preferences).1.accepted =
      !isFlawedIn language unit preferences.lexical := by
  cases language with
  | cmake => exact accepted_parseWithLexicon CMake.lexicon unit sink preferences
  | cpp => exact accepted_parseWithLexicon Cpp.lexicon unit sink preferences

end Pipeline

namespace Journal

open Ledger (Tells)
open Pipeline (isFlawedIn)

variable {j : Journal} {front : List (String × List Event)} {unit : SourceUnit}

/-- **After a parse the entries of a unit tell whether it is flawed**, if they told of no failure
without a reason before. -/
theorem Stands.parseUnit {failed : Bool} (h : j.Stands front unit.name failed) {δ : Type}
    [DiagnosticSink δ] (hδ : DiagnosticSink.SaysLines δ) (language : Language) (sink : δ)
    (preferences : Preferences)
    (hfailed : failed = true → isFlawedIn language unit preferences.lexical = true) :
    let j' := (Pipeline.parseUnit j unit language sink preferences).2.2
    j'.Rests ∧ ∃ es, j'.ledger.units = front ++ [(unit.name, es)] ∧
      Tells es (isFlawedIn language unit preferences.lexical) := by
  intro j'
  let start := (Event.info "Parsing unit").withContext
    [("unit", unit.name), ("language", language.name)]
  -- The work of the two languages has the same form, but lexemes of different types.
  obtain ⟨said, hj', hwarning, hany⟩ : ∃ said : List Emission,
      j' = ({ j.enter unit.name j.nextUnit with nextUnit := j.nextUnit + 1 }.absorb
        (.entry start :: said)).leave ∧ (∀ em ∈ said, em.isWarning = false) ∧
      said.any Emission.isFailure = isFlawedIn language unit preferences.lexical := by
    cases language with
    | cmake => exact ⟨_, rfl, Pipeline.told_parseWithLexicon hδ CMake.lexicon unit sink preferences⟩
    | cpp => exact ⟨_, rfl, Pipeline.told_parseWithLexicon hδ Cpp.lexicon unit sink preferences⟩
  have hstart : (Emission.entry start).isWarning = false := rfl
  obtain ⟨hstands, hunits⟩ := h.work j.nextUnit (j.nextUnit + 1)
    (List.forall_mem_cons.2 ⟨hstart, hwarning⟩)
  have htold : (failed || (Emission.entry start :: said).any Emission.isFailure) =
      isFlawedIn language unit preferences.lexical := by
    rw [List.any_cons, hany]
    cases failed with
    | false => rfl
    | true => rw [hfailed rfl]; rfl
  rw [htold] at hunits
  rw [hj']
  exact ⟨hstands.rests, hunits⟩

/-- After a listing the entries of a unit tell of a failure only if it is flawed. -/
theorem Stands.tokenizeUnit (h : j.Stands front unit.name false) (language : Language)
    (preferences : LexicalPreferences) :
    ∃ failed, (failed = true → isFlawedIn language unit preferences = true) ∧
      (Pipeline.tokenizeUnit j unit language preferences).2.Stands front unit.name failed := by
  obtain ⟨events, hj', hmild⟩ : ∃ events : List Event,
      (Pipeline.tokenizeUnit j unit language preferences).2 =
        ({ j.enter unit.name j.nextUnit with nextUnit := j.nextUnit + 1 }.absorb
          (events.map .entry)).leave ∧
      ∀ e ∈ events, e.Mild (isFlawedIn language unit preferences) := by
    cases language with
    | cmake => exact ⟨_, rfl, Pipeline.told_recordsWithLexicon CMake.lexicon unit preferences⟩
    | cpp => exact ⟨_, rfl, Pipeline.told_recordsWithLexicon Cpp.lexicon unit preferences⟩
  have hsaid := Emission.mild_map_entry hmild
  obtain ⟨hstands, -⟩ := h.work j.nextUnit (j.nextUnit + 1) fun em hem ↦ (hsaid em hem).isWarning_eq
  refine ⟨_, fun hfailed ↦ ?_, hj' ▸ hstands⟩
  rw [Bool.false_or, List.any_eq_true] at hfailed
  obtain ⟨em, hem, hfailure⟩ := hfailed
  refine Bool.of_not_eq_false fun hsound ↦ ?_
  have hmem := hsaid em hem
  rw [hsound] at hmem
  rw [hmem.isFailure_eq] at hfailure
  cases hfailure

end Journal

end LexFront
