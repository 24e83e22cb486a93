import LexFront.CMake.Lexicon
import LexFront.Proofs.Parser.Alike
import LexFront.Proofs.Parser.Session

/-!
# Trivia makes no difference to a driver

A grammar driver need not know about whitespace and comments, as every expectation skips them. If it
uses only such operations, it does the same on any two sequences of lexemes that differ in trivia
and places only: it gets the same answers in the same steps, and the parse comes to the same
verdict, with the same diagnostics.

A `Driver` is whatever asks a parser one thing after another and goes on from what it hears of the
answers. Trivia moves places, and it is counted among the lexemes consumed. So a driver that hears
all of an answer can tell whether there was trivia, and act on it; one that hears neither places nor
numbers of lexemes cannot. In one step a driver may ask as often as it likes. `patience` bounds how
often, so that a step comes to an end for certain; a step that ends at all ends within some bound,
and whether a bound was passed is part of what is the same.

Key facts:

* `alike_answer`: the operations a driver may use.
* `Driver.simulates_step`: a step of a driver.
* `parseWith_insensitive`: a run of a driver that hears no places and no numbers.
* `parseWith_sensitive`: runs of drivers that do.
-/

set_option autoImplicit false

namespace LexFront

namespace Parser

/-! ### Drivers -/

/-- An answer of a parser. -/
inductive Answer (T : Type) where
  | expected (e : Expected T)
  | terminal (t : Option T)
  | reported
  | parsed (accepted : Bool)
  | finished (o : Outcome)

/-- What is to be seen of an answer. -/
inductive Answer.Sight (T κ : Type) where
  | expected (e : Expected.Sight T κ)
  | terminal (t : Option T)
  | reported
  | parsed (accepted : Bool)
  | finished (o : Bool × Nat × Bool)

/-- An answer without its place, and without the number of lexemes consumed. -/
def Answer.sight {T κ : Type} (look : Token T → κ) : Answer T → Answer.Sight T κ
  | expected e => .expected (e.sight look)
  | terminal t => .terminal t
  | reported => .reported
  | parsed accepted => .parsed accepted
  | finished o => .finished o.sight

/-- What a driver may ask of a parser. The text of a report is fixed. Its place may be chosen from
all the answers so far, their places included, and the location that the input was read to. -/
inductive Request (T : Type) where
  | expect (t : T)
  | expectAny (ts : List T)
  | peekTerminal
  | reportError (text : Text) (place : List (Answer T) → Location → Span)
  | parse
  | finish

/-- A grammar driver. Of an answer it hears an `α`. -/
structure Driver (T α γ : Type) where
  /-- The state in which a step begins, from the one in which the last step ended. -/
  begin : γ → γ
  /-- What to ask next; the step is over if there is nothing to ask. -/
  request : γ → Option (Request T)
  /-- The state after an answer. -/
  hear : γ → α → γ

/-- A driver at work. -/
structure Run (T γ : Type) where
  state : γ
  /-- The answers so far, the last one first. -/
  answers : List (Answer T) := []
  /-- How many steps have begun. -/
  steps : Nat := 0
  /-- Whether a step was broken off. -/
  isCut : Bool := false

variable {σ σ' T δ δ' κ α γ : Type} [FiniteSource σ T] [FiniteSource σ' T] [Terminal T]
  [DecidableEq T] [DiagnosticSink δ] [DiagnosticSink δ']

/-- Answers what a driver asks. -/
def answer (answers : List (Answer T)) (p : Parser σ T δ) : Request T → Answer T × Parser σ T δ
  | .expect t => (.expected (p.expect t).1, (p.expect t).2)
  | .expectAny ts => (.expected (p.expectAny ts).1, (p.expectAny ts).2)
  | .peekTerminal => (.terminal p.peekTerminal.1, p.peekTerminal.2)
  | .reportError text place => (.reported, p.reportError text (place answers p.endLocation))
  | .parse => (.parsed p.parse.1, p.parse.2)
  | .finish => (.finished p.finish.1, p.finish.2)

namespace Driver

/-- Lets a driver hear an answer. -/
def take (d : Driver T α γ) (view : Answer T → α) (r : Run T γ) (a : Answer T) : Run T γ :=
  { r with state := d.hear r.state (view a), answers := a :: r.answers }

/-- Lets a driver ask until it has nothing to ask any more, or for too long. -/
def converse (d : Driver T α γ) (view : Answer T → α) :
    Nat → Run T γ → Parser σ T δ → Run T γ × Parser σ T δ
  | 0, r, p => ({ r with isCut := true }, p)
  | patience + 1, r, p =>
    match d.request r.state with
    | none => (r, p)
    | some q =>
      d.converse view patience (d.take view r (p.answer r.answers q).1) (p.answer r.answers q).2

/-- A step of a driver. -/
def step (d : Driver T α γ) (view : Answer T → α) (patience : Nat) (r : Run T γ)
    (p : Parser σ T δ) : Run T γ × Parser σ T δ :=
  d.converse view patience { r with state := d.begin r.state, steps := r.steps + 1 } p

end Driver

/-- No request gives a lexeme back. -/
theorem exists_yields_answer (answers : List (Answer T)) (p : Parser σ T δ) (q : Request T) :
    ∃ xs, p.tokens.Yields xs (p.answer answers q).2.tokens := by
  have hcalls : ∀ {p' : Parser σ T δ}, Calls p p' → ∃ xs, p.tokens.Yields xs p'.tokens := by
    intro p' h
    obtain ⟨xs, ds, he⟩ := exists_effect_of_calls h
    exact ⟨xs, he.tokens⟩
  cases q with
  | expect t => exact hcalls (calls_expect p t)
  | expectAny ts => exact hcalls (calls_expectAny p ts)
  | peekTerminal => exact hcalls (calls_peekTerminal p)
  | reportError text place => exact hcalls (.reportError text _)
  | parse => exact isForward_drain.parseWith () p
  | finish => exact exists_yields_of_finishes (finishes_finish p)

namespace Driver

theorem exists_yields_converse (d : Driver T α γ) (view : Answer T → α) (patience : Nat)
    (r : Run T γ) (p : Parser σ T δ) :
    ∃ xs, p.tokens.Yields xs (d.converse view patience r p).2.tokens := by
  induction patience generalizing r p with
  | zero => exact ⟨[], .nil⟩
  | succ patience ih =>
    rw [converse]
    split
    · exact ⟨[], .nil⟩
    · next q _ =>
      obtain ⟨xs, hxs⟩ := exists_yields_answer r.answers p q
      obtain ⟨ys, hys⟩ := ih (d.take view r (p.answer r.answers q).1) (p.answer r.answers q).2
      exact ⟨_, hxs.trans hys⟩

theorem isForward_step (d : Driver T α γ) (view : Answer T → α) (patience : Nat) :
    IsForward (d.step view patience : Run T γ → Parser σ T δ → _) :=
  fun _ p ↦ d.exists_yields_converse view patience _ p

end Driver

/-! ### Runs that differ in trivia and places only -/

/-- **The answers to parsers that are alike** are alike, and leave the parsers alike. -/
theorem alike_answer {look : Token T → κ} {p : Parser σ T (δ × Recorder)}
    {p' : Parser σ' T (δ' × Recorder)} (h : Alike look p p') (answers answers' : List (Answer T))
    (q : Request T) :
    (p.answer answers q).1.sight look = (p'.answer answers' q).1.sight look ∧
      Alike look (p.answer answers q).2 (p'.answer answers' q).2 := by
  cases q with
  | expect t => exact ⟨congrArg Answer.Sight.expected (h.expect t).1, (h.expect t).2⟩
  | expectAny ts => exact ⟨congrArg Answer.Sight.expected (h.expectAny ts).1, (h.expectAny ts).2⟩
  | peekTerminal => exact ⟨congrArg Answer.Sight.terminal h.peekTerminal.1, h.peekTerminal.2⟩
  | reportError text place => exact ⟨rfl, h.reportError text _ _⟩
  | parse => exact ⟨congrArg Answer.Sight.parsed h.parse.1, h.parse.2⟩
  | finish => exact ⟨congrArg Answer.Sight.finished h.finish.1, h.finish.2⟩

/-- The same has happened to drivers at work, but for places and trivia. -/
structure Run.Alike (look : Token T → κ) (r r' : Run T γ) : Prop where
  state : r.state = r'.state
  answers : r.answers.map (·.sight look) = r'.answers.map (·.sight look)
  steps : r.steps = r'.steps
  isCut : r.isCut = r'.isCut

namespace Driver

omit [Terminal T] [DecidableEq T] in
/-- Answers that are alike are heard alike. -/
theorem alike_take (d : Driver T (Answer.Sight T κ) γ) {look : Token T → κ} {r r' : Run T γ}
    {a a' : Answer T} (hr : r.Alike look r') (h : a.sight look = a'.sight look) :
    (d.take (·.sight look) r a).Alike look (d.take (·.sight look) r' a') where
  state := by
    show d.hear r.state (a.sight look) = d.hear r'.state (a'.sight look)
    rw [hr.state, h]
  answers := by rw [take, take, List.map_cons, List.map_cons, h, hr.answers]
  steps := hr.steps
  isCut := hr.isCut

theorem alike_converse (d : Driver T (Answer.Sight T κ) γ) (look : Token T → κ) (patience : Nat)
    {r r' : Run T γ} {p : Parser σ T (δ × Recorder)} {p' : Parser σ' T (δ' × Recorder)}
    (hr : r.Alike look r') (hp : Alike look p p') :
    (d.converse (·.sight look) patience r p).1.Alike look
        (d.converse (·.sight look) patience r' p').1 ∧
      Alike look (d.converse (·.sight look) patience r p).2
        (d.converse (·.sight look) patience r' p').2 := by
  induction patience generalizing r r' p p' with
  | zero => exact ⟨{ hr with isCut := rfl }, hp⟩
  | succ patience ih =>
    rw [converse, converse, hr.state]
    split
    · exact ⟨hr, hp⟩
    · next q _ =>
      obtain ⟨hsight, hafter⟩ := alike_answer hp r.answers r'.answers q
      exact ih (d.alike_take hr hsight) hafter

theorem simulates_step (d : Driver T (Answer.Sight T κ) γ) (look : Token T → κ)
    (patience : Nat) : Simulates look (Run.Alike look)
      (d.step (·.sight look) patience : Run T γ → Parser σ T (δ × Recorder) → _)
      (d.step (·.sight look) patience : Run T γ → Parser σ' T (δ' × Recorder) → _) :=
  fun _ _ _ _ hr hready ↦
    d.alike_converse look patience
      ⟨congrArg d.begin hr.state, hr.answers, congrArg (· + 1) hr.steps, hr.isCut⟩ hready.toAlike

end Driver

/-- **Trivia makes no difference** to a driver that hears no places and no numbers of lexemes. If
two finite sequences of lexemes are the same but for trivia and places, it does the same on both: it
takes the same steps and gets the same answers, and the parse comes to the same verdict, with the
same diagnostics in the same order. -/
theorem parseWith_insensitive (look : Token T → κ) (d : Driver T (Answer.Sight T κ) γ)
    (patience : Nat) (g : γ) (skipLimit : Nat) (logExpectations : Bool) (source : σ)
    (source' : σ') (sink : δ) (sink' : δ')
    (h : Lexeme.significant look (LexemeStream.ofSource source).rest.1 =
      Lexeme.significant look (LexemeStream.ofSource source').rest.1) :
    let p := { Parser.ofSource source (sink, ({} : Recorder)) with skipLimit, logExpectations }
    let p' := { Parser.ofSource source' (sink', ({} : Recorder)) with skipLimit, logExpectations }
    let (accepted, r, q) := p.parseWith (d.step (·.sight look) patience) { state := g }
    let (accepted', r', q') := p'.parseWith (d.step (·.sight look) patience) { state := g }
    accepted = accepted' ∧ r.state = r'.state ∧ r.steps = r'.steps ∧ r.isCut = r'.isCut ∧
      r.answers.map (·.sight look) = r'.answers.map (·.sight look) ∧
      q.errorCount = q'.errorCount ∧ q.aborted = q'.aborted ∧ q.phase = q'.phase ∧
      q.sink.2.diagnostics.map Diagnostic.sight = q'.sink.2.diagnostics.map Diagnostic.sight := by
  intro p p'
  have halike : Alike look p p' := ⟨h, rfl, rfl, rfl, rfl, rfl⟩
  obtain ⟨haccepted, hr, hq⟩ := (d.simulates_step look patience).parseWith
    (d.isForward_step (·.sight look) patience) (d.isForward_step (·.sight look) patience)
    (⟨rfl, rfl, rfl, rfl⟩ : Run.Alike look { state := g } { state := g }) halike
  exact ⟨haccepted, hr.state, hr.steps, hr.isCut, hr.answers, hq.errorCount, hq.aborted, hq.phase,
    hq.reported⟩

/-- A call with and without a comment in it, for a driver that goes through it in one step. -/
theorem parseWith_insensitive_comment :
    let bare := LexemeList.ofPairs "u" [(CMake.Kind.identifier, ['x']), (.leftParen, ['('])]
    let commented := LexemeList.ofPairs "u"
      [(CMake.Kind.identifier, ['x']), (.lineComment, ['#']), (.newline, ['\n']),
        (.leftParen, ['('])]
    let look : Token CMake.Kind → Unit := fun _ ↦ ()
    let d : Driver CMake.Kind (Answer.Sight CMake.Kind Unit) Nat := {
      begin := fun _ ↦ 0
      request := fun n ↦ [.expect .identifier, .peekTerminal, .expectAny [.leftParen, .newline]][n]?
      hear := fun n _ ↦ n + 1 }
    let run (source : LexemeList CMake.Kind) :=
      (ofSource source ((), ({} : Recorder))).parseWith (d.step (·.sight look) 4) { state := 0 }
    (LexemeStream.ofSource bare).rest.1.length = 2 ∧
      (LexemeStream.ofSource commented).rest.1.length = 4 ∧
      (run bare).1 = (run commented).1 ∧ (run bare).2.1.steps = (run commented).2.1.steps ∧
      (run bare).2.1.answers.map (·.sight look) =
        (run commented).2.1.answers.map (·.sight look) := by
  intro bare commented look d run
  have hbare : (LexemeStream.ofSource bare).rest.1 = bare.pending :=
    LexemeStream.rest_ofSource_list (by decide)
  have hcommented : (LexemeStream.ofSource commented).rest.1 = commented.pending :=
    LexemeStream.rest_ofSource_list (by decide)
  obtain ⟨haccepted, -, hsteps, -, hanswers, -⟩ := parseWith_insensitive look d 4 0
    Limits.skippedTokens false bare commented () () (by rw [hbare, hcommented]; rfl)
  refine ⟨?_, ?_, haccepted, hsteps, hanswers⟩
  · rw [hbare]
    rfl
  · rw [hcommented]
    rfl

/-- A driver that asks something, and then goes by what it makes of the answer: it expects some
kinds, or none at all. -/
def Driver.judging (q : Request T) (kinds : List T) (likes : Answer T → Bool) :
    Driver T (Answer T) (Nat × Bool) where
  begin s := (0, s.2)
  request
    | (0, _) => some q
    | (1, liked) => some (.expectAny (if liked then kinds else []))
    | _ => none
  hear
    | (0, _), a => (1, likes a)
    | (n, liked), _ => (n + 1, liked)

/-- **A driver that hears all of an answer can tell that there is trivia.** It shows in the number
of lexemes consumed, which the outcome of a parse tells, and in the place of a token. Here one blank
makes the difference between no errors and some. -/
theorem parseWith_sensitive :
    let kinds : List CMake.Kind := [.identifier, .leftParen]
    let bare := LexemeList.ofPairs "u" [(CMake.Kind.identifier, ['x']), (.leftParen, ['('])]
    let spaced := LexemeList.ofPairs "u"
      [(CMake.Kind.whitespace, [' ']), (.identifier, ['x']), (.leftParen, ['('])]
    let errors (q : Request CMake.Kind) (likes : Answer CMake.Kind → Bool)
        (source : LexemeList CMake.Kind) : Nat :=
      ((ofSource source ((), ({} : Recorder))).parseWith
        ((Driver.judging q kinds likes).step id 3) { state := (0, false) }).2.2.errorCount
    let byNumber : Answer CMake.Kind → Bool
      | .finished o => o.tokensConsumed == 0
      | _ => false
    let byPlace : Answer CMake.Kind → Bool
      | .expected (.matched t) => t.span.start.column == 1
      | _ => false
    Lexeme.significant Token.value (LexemeStream.ofSource bare).rest.1 =
        Lexeme.significant Token.value (LexemeStream.ofSource spaced).rest.1 ∧
      errors .finish byNumber bare = 0 ∧ errors .finish byNumber spaced = 2 ∧
      errors (.expectAny kinds) byPlace bare = 0 ∧
      errors (.expectAny kinds) byPlace spaced = 1 := by
  intro kinds bare spaced errors byNumber byPlace
  have hbare : (LexemeStream.ofSource bare).rest.1 = bare.pending :=
    LexemeStream.rest_ofSource_list (by decide)
  have hspaced : (LexemeStream.ofSource spaced).rest.1 = spaced.pending :=
    LexemeStream.rest_ofSource_list (by decide)
  refine ⟨?_, by decide +kernel, by decide +kernel, by decide +kernel, by decide +kernel⟩
  rw [hbare, hspaced]
  rfl

end Parser

end LexFront
