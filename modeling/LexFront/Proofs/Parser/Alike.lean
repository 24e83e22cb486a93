import LexFront.Proofs.Parser.Draining

/-!
# Parsers that differ in trivia and places only

Two parsers are alike if the same lexemes are ahead of them but for trivia and places, and if they
have counted and reported the same, again but for places. How many lexemes they have consumed may
differ, and so may their sources and what else listens to them.

Every operation that skips trivia first answers the same to parsers that are alike, and leaves them
alike. The one place where a parser looks at the number of lexemes consumed is the end of a step of
a driver. There it does no harm: a step begins behind trivia, so that one that consumes anything at
all consumes a lexeme that is no trivia (`Ready.isIdle`).

What is seen of a token besides its terminal and its text is left open: a function `look` may bring
out more, as the value of the token, or nothing.

Key facts:

* `Alike.effects`: parsers stay alike if they consume and report the same.
* `Ready.advance`, `Alike.expectWhere`, `Alike.finish`: the operations.
* `Alike.parseWith`: drivers that behave alike do so to the end.
-/

set_option autoImplicit false

namespace LexFront

/-- What is to be seen of a lexeme, wherever it stands. -/
inductive Sight (T κ : Type) where
  | endOfInput
  | invalid (text : Text) (error : LexicalError)
  | valid (terminal : T) (text : Text) (look : κ)

namespace Lexeme

variable {T κ : Type}

/-- A lexeme without its place. -/
def sight (look : Token T → κ) : Lexeme T → Sight T κ
  | endOfInput => .endOfInput
  | invalid i => .invalid i.text i.error
  | valid t => .valid t.terminal t.text (look t)

/-- Lexemes of which the same is to be seen. -/
inductive Resembles (look : Token T → κ) : Lexeme T → Lexeme T → Prop where
  | endOfInput : Resembles look .endOfInput .endOfInput
  | invalid {i j : InvalidToken} : i.text = j.text → i.error = j.error →
      Resembles look (.invalid i) (.invalid j)
  | valid {t u : Token T} : t.terminal = u.terminal → t.text = u.text → look t = look u →
      Resembles look (.valid t) (.valid u)

theorem resembles_of_sight {look : Token T → κ} {x y : Lexeme T}
    (h : x.sight look = y.sight look) : Resembles look x y := by
  cases x with
  | endOfInput =>
    cases y with
    | endOfInput => exact .endOfInput
    | _ => cases h
  | invalid i =>
    cases y with
    | invalid j =>
      injection h with htext herror
      exact .invalid htext herror
    | _ => cases h
  | valid t =>
    cases y with
    | valid u =>
      injection h with hterminal htext hlook
      exact .valid hterminal htext hlook
    | _ => cases h

/-- What is to be seen of a lexeme tells what sort of lexeme it is. -/
theorem sort_of_sight {look : Token T → κ} {x y : Lexeme T} (h : x.sight look = y.sight look) :
    x.isEnd = y.isEnd ∧ x.isInvalid = y.isInvalid ∧ x.terminal? = y.terminal? := by
  cases resembles_of_sight h with
  | endOfInput => exact ⟨rfl, rfl, rfl⟩
  | invalid _ _ => exact ⟨rfl, rfl, rfl⟩
  | valid hterminal _ _ => exact ⟨rfl, rfl, congrArg some hterminal⟩

variable [Terminal T]

/-- What is to be seen of some lexemes, trivia left out. -/
def significant (look : Token T → κ) (xs : List (Lexeme T)) : List (Sight T κ) :=
  (xs.filter (!·.isTrivia)).map (sight look)

theorem significant_append (look : Token T → κ) (xs ys : List (Lexeme T)) :
    significant look (xs ++ ys) = significant look xs ++ significant look ys := by
  rw [significant, List.filter_append, List.map_append]
  rfl

theorem significant_of_isTrivia (look : Token T → κ) {xs : List (Lexeme T)}
    (h : ∀ x ∈ xs, x.isTrivia = true) : significant look xs = [] := by
  rw [significant, List.map_eq_nil_iff, List.filter_eq_nil_iff]
  simpa using h

theorem significant_cons (look : Token T → κ) {x : Lexeme T} {xs : List (Lexeme T)}
    (h : x.isTrivia = false) :
    significant look (x :: xs) = x.sight look :: significant look xs := by
  simp [significant, h]

end Lexeme

/-- What is to be seen of an answer to an expectation. -/
inductive Expected.Sight (T κ : Type) where
  | matched (terminal : T) (text : Text) (look : κ)
  | mismatched (terminal : T) (text : Text) (look : κ)
  | endOfInput
  | invalid (text : Text) (error : LexicalError)

/-- An answer to an expectation without its place. -/
def Expected.sight {T κ : Type} (look : Token T → κ) : Expected T → Expected.Sight T κ
  | matched t => .matched t.terminal t.text (look t)
  | mismatched t => .mismatched t.terminal t.text (look t)
  | endOfInput _ => .endOfInput
  | invalid i => .invalid i.text i.error

namespace Diagnostic

/-- A diagnostic without its place. -/
def sight : Diagnostic → Kind × Text × Option LexicalError
  | noMoreToken _ => (.noMoreToken, [], none)
  | unexpectedToken text _ => (.unexpectedToken, text, none)
  | invalidToken i => (.invalidToken, i.text, some i.error)

theorem count_eq_of_sight (k : Kind) {ds es : List Diagnostic}
    (h : ds.map sight = es.map sight) : count k ds = count k es := by
  have hkind : ∀ ds : List Diagnostic, count k ds = (ds.map sight).countP (·.1 == k) := by
    intro ds
    rw [List.countP_map]
    exact List.countP_congr fun d _ ↦ by cases d <;> rfl
  rw [hkind, hkind, h]

end Diagnostic

theorem Lexeme.objections_of_sight {T κ : Type} {look : Token T → κ} {x y : Lexeme T}
    (h : x.sight look = y.sight look) :
    x.objections.map Diagnostic.sight = y.objections.map Diagnostic.sight := by
  cases Lexeme.resembles_of_sight h with
  | endOfInput => rfl
  | invalid htext herror =>
    simp [Lexeme.objections, Lexeme.invalid?, Diagnostic.sight, htext, herror]
  | valid _ _ _ => rfl

/-- What is to be seen of an outcome: not the number of lexemes, among which trivia is counted. -/
def Outcome.sight (o : Outcome) : Bool × Nat × Bool := (o.accepted, o.errorCount, o.aborted)

namespace Parser

variable {σ σ' T δ δ' κ γ γ' : Type} [FiniteSource σ T] [FiniteSource σ' T] [Terminal T]

/-- The same is ahead of two parsers and behind them, but for trivia and places. -/
structure Alike (look : Token T → κ) (p : Parser σ T (δ × Recorder))
    (q : Parser σ' T (δ' × Recorder)) : Prop where
  rest : Lexeme.significant look p.tokens.rest.1 = Lexeme.significant look q.tokens.rest.1
  errorCount : p.errorCount = q.errorCount
  aborted : p.aborted = q.aborted
  skipLimit : p.skipLimit = q.skipLimit
  outcome : p.outcome.map Outcome.sight = q.outcome.map Outcome.sight
  reported : p.sink.2.diagnostics.map Diagnostic.sight = q.sink.2.diagnostics.map Diagnostic.sight

/-- Two parsers that are alike, both of them in front of a lexeme that is no trivia. -/
structure Ready (look : Token T → κ) (p : Parser σ T (δ × Recorder))
    (q : Parser σ' T (δ' × Recorder)) : Prop extends Alike look p q where
  left : p.tokens.lookahead.isTrivia = false
  right : q.tokens.lookahead.isTrivia = false

variable {look : Token T → κ} {p p' : Parser σ T (δ × Recorder)}
  {q q' : Parser σ' T (δ' × Recorder)}

namespace Ready

/-- In front of a lexeme that is no trivia, what is to be seen of it comes first in what is to be
seen of the rest. -/
theorem sight_lookahead (look : Token T → κ) {p : Parser σ T δ}
    (h : p.tokens.lookahead.isTrivia = false) :
    p.tokens.lookahead.sight look =
      ((Lexeme.significant look p.tokens.rest.1).head?).getD .endOfInput := by
  cases ho : p.tokens.isAtEnd with
  | false =>
    rw [LexemeStream.rest_of_open ho, Lexeme.significant_cons look h]
    rfl
  | true =>
    rw [LexemeStream.rest_of_isAtEnd ho]
    cases hl : p.tokens.lookahead with
    | endOfInput => rfl
    | invalid i => simp [LexemeStream.isAtEnd, hl, Lexeme.isEnd] at ho
    | valid t => simp [LexemeStream.isAtEnd, hl, Lexeme.isEnd] at ho

/-- **The next lexemes** differ in their places only. -/
theorem lookahead (h : Ready look p q) :
    p.tokens.lookahead.sight look = q.tokens.lookahead.sight look := by
  rw [sight_lookahead look h.left, sight_lookahead look h.right, h.rest]

theorem isAtEnd (h : Ready look p q) : p.isAtEnd = q.isAtEnd :=
  (Lexeme.sort_of_sight h.lookahead).1

theorem isOver (h : Ready look p q) : p.isOver = q.isOver := by
  rw [Parser.isOver, Parser.isOver, h.aborted, h.isAtEnd]

end Ready

/-- Parsers that are alike are both running, or they are finished alike. -/
theorem Alike.outcomes (h : Alike look p q) : p.outcome = none ∧ q.outcome = none ∨
    ∃ o o', p.outcome = some o ∧ q.outcome = some o' ∧ o.sight = o'.sight := by
  have ho := h.outcome
  cases hp : p.outcome with
  | none =>
    cases hq : q.outcome with
    | none => exact .inl ⟨rfl, rfl⟩
    | some o' => rw [hp, hq] at ho; cases ho
  | some o =>
    cases hq : q.outcome with
    | none => rw [hp, hq] at ho; cases ho
    | some o' => exact .inr ⟨o, o', rfl, rfl, Option.some.inj (by rwa [hp, hq] at ho)⟩

theorem Alike.phase (h : Alike look p q) : p.phase = q.phase := by
  rcases h.outcomes with ⟨hp, hq⟩ | ⟨o, o', hp, hq, ho⟩
  · rw [Parser.phase, Parser.phase, hp, hq]
  · have haccepted : o.accepted = o'.accepted := congrArg Prod.fst ho
    rw [Parser.phase, Parser.phase, hp, hq]
    simp only [haccepted]

/-- The outcomes are alike where both parsers are at the end or none is, and after an abort
anyway. -/
theorem Alike.settle (h : Alike look p q) (hend : p.aborted = false → p.isAtEnd = q.isAtEnd) :
    p.settle.1.sight = q.settle.1.sight ∧ Alike look p.settle.2 q.settle.2 := by
  have hverdict : p.verdict.sight = q.verdict.sight := by
    have ha := h.aborted
    cases hp : p.aborted with
    | true => simp [Outcome.sight, verdict, hp, ha ▸ hp, h.errorCount]
    | false => simp [Outcome.sight, verdict, hp, ha ▸ hp, h.errorCount, hend hp]
  exact ⟨hverdict, {
    rest := h.rest
    errorCount := h.errorCount
    aborted := h.aborted
    skipLimit := h.skipLimit
    outcome := congrArg some hverdict
    reported := h.reported }⟩

variable [DiagnosticSink δ] [DiagnosticSink δ']

/-- **Parsers stay alike** if they consume the same and report the same, but for trivia and
places. -/
theorem Alike.effects (h : Alike look p q) {xs ys : List (Lexeme T)} {ds es : List Diagnostic}
    (hp : Effect p xs ds p') (hq : Effect q ys es q')
    (hxs : Lexeme.significant look xs = Lexeme.significant look ys)
    (hds : ds.map Diagnostic.sight = es.map Diagnostic.sight) (ha : p'.aborted = q'.aborted) :
    Alike look p' q' where
  rest := by
    have hrest := h.rest
    rw [rest_of_effect hp, rest_of_effect hq, Lexeme.significant_append,
      Lexeme.significant_append, hxs] at hrest
    exact List.append_cancel_left hrest
  errorCount := by
    rw [hp.errorCount, hq.errorCount, h.errorCount, Diagnostic.count_eq_of_sight _ hds]
  aborted := ha
  skipLimit := by rw [hp.skipLimit, hq.skipLimit, h.skipLimit]
  outcome := by rw [hp.outcome, hq.outcome, h.outcome]
  reported := by
    rw [hp.recorded, hq.recorded, List.map_append, List.map_append, h.reported, hds]

/-- Skipping trivia gets parsers that are alike in front of the next lexemes. -/
theorem Alike.skipTrivia (h : Alike look p q) : Ready look p.skipTrivia.2 q.skipTrivia.2 := by
  obtain ⟨hleft, xs, hp, hxs⟩ := (skips_skipTrivia p).effect
  obtain ⟨hright, ys, hq, hys⟩ := (skips_skipTrivia q).effect
  have hsame : Lexeme.significant look xs = Lexeme.significant look ys := by
    rw [Lexeme.significant_of_isTrivia look hxs, Lexeme.significant_of_isTrivia look hys]
  have ha : p.skipTrivia.2.aborted = q.skipTrivia.2.aborted := by
    rw [aborted_skipTrivia, aborted_skipTrivia, h.aborted]
  exact ⟨h.effects hp hq hsame rfl ha, hleft, hright⟩

/-! ### The operations -/

/-- Parsers in front of a lexeme advance alike. -/
theorem Ready.advance (h : Ready look p q) :
    p.advance.1.sight look = q.advance.1.sight look ∧ Alike look p.advance.2 q.advance.2 := by
  obtain ⟨hx, hp, hap⟩ := advance_spec p
  obtain ⟨hy, hq, haq⟩ := advance_spec q
  have hl := h.lookahead
  have hupcoming : Lexeme.significant look p.upcoming = Lexeme.significant look q.upcoming := by
    rw [upcoming, upcoming, h.isAtEnd]
    split
    · rfl
    · rw [Lexeme.significant_cons look h.left, Lexeme.significant_cons look h.right, hl]
  have hobjections : p.objections.map Diagnostic.sight = q.objections.map Diagnostic.sight := by
    rw [objections, objections, h.aborted]
    split
    · rfl
    · exact Lexeme.objections_of_sight hl
  have haborted : p.advance.2.aborted = q.advance.2.aborted := by
    rw [hap, haq, h.aborted, (Lexeme.sort_of_sight hl).2.1]
  exact ⟨by rw [hx, hy, hl], h.effects hp hq hupcoming hobjections haborted⟩

/-- Reports that are alike leave parsers alike. -/
theorem Alike.reportError (h : Alike look p q) (text : Text) (span span' : Span) :
    Alike look (p.reportError text span) (q.reportError text span') :=
  h.effects (effect_reportError p text span) (effect_reportError q text span') rfl rfl h.aborted

/-- The answers to an expectation are alike, and so are the parsers after it. -/
theorem Ready.expectNext (h : Ready look p q) (accept : T → Bool) :
    (p.expectNext accept).1.sight look = (q.expectNext accept).1.sight look ∧
      Alike look (p.expectNext accept).2 (q.expectNext accept).2 := by
  rw [expectNext_eq, expectNext_eq]
  obtain ⟨hsight, hafter⟩ := h.advance
  generalize p.advance = r at hsight hafter ⊢
  generalize q.advance = s at hsight hafter ⊢
  obtain ⟨x, p'⟩ := r
  obtain ⟨y, q'⟩ := s
  cases Lexeme.resembles_of_sight hsight with
  | endOfInput =>
    exact ⟨rfl, hafter.effects (effect_report rfl) (effect_report rfl) rfl rfl hafter.aborted⟩
  | invalid htext herror => exact ⟨by simp [Expected.sight, htext, herror], hafter⟩
  | @valid t u hterminal htext hlook =>
    simp only [hterminal]
    split
    · exact ⟨by simp [Expected.sight, hterminal, htext, hlook], hafter⟩
    · refine ⟨by simp [Expected.sight, hterminal, htext, hlook], ?_⟩
      rw [htext]
      exact hafter.reportError u.text t.span u.span

theorem Alike.expectWhere (h : Alike look p q) (accept : T → Bool) :
    (p.expectWhere accept).1.sight look = (q.expectWhere accept).1.sight look ∧
      Alike look (p.expectWhere accept).2 (q.expectWhere accept).2 := by
  rw [Parser.expectWhere, Parser.expectWhere, h.aborted]
  split
  · exact ⟨rfl, h⟩
  · exact h.skipTrivia.expectNext accept

theorem Alike.announce (h : Alike look p q) (what expected : String) :
    Alike look (p.announce what expected) (q.announce what expected) :=
  h.effects (effect_announce p what expected) (effect_announce q what expected) rfl rfl
    (by rw [aborted_announce, aborted_announce, h.aborted])

/-- The answers to an expectation of one kind are alike, and so are the parsers after it. -/
theorem Alike.expect [DecidableEq T] (h : Alike look p q) (t : T) :
    (p.expect t).1.sight look = (q.expect t).1.sight look ∧
      Alike look (p.expect t).2 (q.expect t).2 :=
  (h.announce _ _).expectWhere _

theorem Alike.expectAny [DecidableEq T] (h : Alike look p q) (ts : List T) :
    (p.expectAny ts).1.sight look = (q.expectAny ts).1.sight look ∧
      Alike look (p.expectAny ts).2 (q.expectAny ts).2 :=
  (h.announce _ _).expectWhere _

/-- The terminals of the next lexemes behind the trivia are the same. -/
theorem Alike.peekTerminal (h : Alike look p q) :
    p.peekTerminal.1 = q.peekTerminal.1 ∧ Alike look p.peekTerminal.2 q.peekTerminal.2 :=
  ⟨(Lexeme.sort_of_sight h.skipTrivia.lookahead).2.2, h.skipTrivia.toAlike⟩

/-- A lexeme that is consumed on behalf of a driver is consumed alike. -/
theorem Ready.force (h : Ready look p q) : Alike look p.force q.force := by
  rw [Parser.force, Parser.force]
  obtain ⟨hsight, hafter⟩ := h.advance
  generalize p.advance = r at hsight hafter ⊢
  generalize q.advance = s at hsight hafter ⊢
  obtain ⟨x, p'⟩ := r
  obtain ⟨y, q'⟩ := s
  cases Lexeme.resembles_of_sight hsight with
  | endOfInput => exact hafter
  | invalid _ _ => exact hafter
  | @valid t u _ htext _ =>
    show Alike look (p'.reportError t.text t.span) (q'.reportError u.text u.span)
    rw [htext]
    exact hafter.reportError u.text t.span u.span

theorem Alike.stall (h : Alike look p q) (forced : Nat) :
    Alike look (p.stall forced) (q.stall forced) :=
  h.effects (effect_stall p forced).1 (effect_stall q forced).1 rfl rfl rfl

/-- **Finishing comes to the same.** -/
theorem Alike.finish (h : Alike look p q) :
    p.finish.1.sight = q.finish.1.sight ∧ Alike look p.finish.2 q.finish.2 := by
  rw [Parser.finish, Parser.finish]
  rcases h.outcomes with ⟨hp, hq⟩ | ⟨o, o', hp, hq, ho⟩
  · simp only [hp, hq, h.aborted]
    split
    · next ha => exact h.settle fun hopen ↦ absurd (h.aborted ▸ hopen) (by simp [ha])
    · exact h.skipTrivia.settle fun _ ↦ h.skipTrivia.isAtEnd
  · rw [hp, hq]
    exact ⟨ho, h⟩

/-! ### Drivers -/

omit [FiniteSource σ T] [DiagnosticSink δ] in
/-- Whoever consumes anything at all from in front of a lexeme that is no trivia consumes something
that is to be seen. -/
theorem consumed_eq_iff [LexemeSource σ T] {s s' : LexemeStream σ T} {xs : List (Lexeme T)}
    (look : Token T → κ) (hs : s.lookahead.isTrivia = false) (h : s.Yields xs s') :
    (s'.consumed = s.consumed ↔ Lexeme.significant look xs = []) ∧
      (s'.consumed = s.consumed → s' = s) := by
  have hconsumed := h.consumed
  cases h with
  | nil => exact ⟨⟨fun _ ↦ rfl, fun _ ↦ rfl⟩, fun _ ↦ rfl⟩
  | cons _ _ =>
    rw [List.length_cons] at hconsumed
    refine ⟨⟨fun heq ↦ by omega, fun hxs ↦ ?_⟩, fun heq ↦ by omega⟩
    rw [Lexeme.significant_cons look hs] at hxs
    cases hxs

omit [DiagnosticSink δ] [DiagnosticSink δ'] in
/-- Whether a step is idle is the same for parsers that are alike before and after it, and if it is,
it leaves them in front of the lexeme where they were. It does not matter that trivia counts as
consumed: a step begins in front of a lexeme that is no trivia, so that it consumes trivia only
behind that. -/
theorem Ready.isIdle {xs ys : List (Lexeme T)} (h : Ready look p q) (h' : Alike look p' q')
    (hp : p.tokens.Yields xs p'.tokens) (hq : q.tokens.Yields ys q'.tokens) :
    p'.isIdle p.consumed = q'.isIdle q.consumed ∧
      (p'.isIdle p.consumed = true → Ready look p' q') := by
  have hsame : Lexeme.significant look xs = Lexeme.significant look ys := by
    have hrest := h.rest
    rw [LexemeStream.rest_of_yields hp, LexemeStream.rest_of_yields hq, Lexeme.significant_append,
      Lexeme.significant_append, h'.rest] at hrest
    exact List.append_cancel_right hrest
  -- Each parser was idle exactly if nothing that is to be seen was consumed, and `hsame` says that
  -- this is the same for both.
  obtain ⟨hip, hstayp⟩ := consumed_eq_iff look h.left hp
  obtain ⟨hiq, hstayq⟩ := consumed_eq_iff look h.right hq
  have hconsumed : (p'.consumed == p.consumed) = (q'.consumed == q.consumed) := by
    rw [Bool.eq_iff_iff, beq_iff_eq, beq_iff_eq]
    exact hip.trans (hsame ▸ hiq.symm)
  rw [Parser.isIdle, Parser.isIdle, hconsumed]
  cases hc : q'.consumed == q.consumed with
  | false => exact ⟨rfl, fun hi ↦ by cases hi⟩
  | true =>
    have htokens : p'.tokens = p.tokens := hstayp (beq_iff_eq.1 (hconsumed.trans hc))
    have htokens' : q'.tokens = q.tokens := hstayq (beq_iff_eq.1 hc)
    have hready : Ready look p' q' := ⟨h', htokens ▸ h.left, htokens' ▸ h.right⟩
    exact ⟨by rw [hready.isOver], fun _ ↦ hready⟩

/-- Whether steps behave alike, from parsers that are in front of the same lexeme. -/
def Simulates (look : Token T → κ) (R : γ → γ' → Prop)
    (step : γ → Parser σ T (δ × Recorder) → γ × Parser σ T (δ × Recorder))
    (step' : γ' → Parser σ' T (δ' × Recorder) → γ' × Parser σ' T (δ' × Recorder)) : Prop :=
  ∀ (g : γ) (g' : γ') (p : Parser σ T (δ × Recorder)) (q : Parser σ' T (δ' × Recorder)),
    R g g' → Ready look p q →
      R (step g p).1 (step' g' q).1 ∧ Alike look (step g p).2 (step' g' q).2

section

variable {R : γ → γ' → Prop}
  {step : γ → Parser σ T (δ × Recorder) → γ × Parser σ T (δ × Recorder)}
  {step' : γ' → Parser σ' T (δ' × Recorder) → γ' × Parser σ' T (δ' × Recorder)}

omit [DiagnosticSink δ] [DiagnosticSink δ'] in
/-- What a round of drivers that behave alike comes to: states that are alike, and idle for both of
them or for none. -/
theorem Simulates.round (h : Simulates look R step step') (hf : IsForward step)
    (hf' : IsForward step') {g : γ} {g' : γ'} (hg : R g g') (hpq : Ready look p q) :
    R (step g p).1 (step' g' q).1 ∧ Alike look (step g p).2 (step' g' q).2 ∧
      (step g p).2.isIdle p.consumed = (step' g' q).2.isIdle q.consumed ∧
      ((step g p).2.isIdle p.consumed = true → Ready look (step g p).2 (step' g' q).2) := by
  obtain ⟨hstate, hafter⟩ := h g g' p q hg hpq
  obtain ⟨xs, hp⟩ := hf g p
  obtain ⟨ys, hq⟩ := hf' g' q
  exact ⟨hstate, hafter, hpq.isIdle hafter hp hq⟩

/-- **Drivers that behave alike in every step do so to the end.** -/
theorem Simulates.drive (h : Simulates look R step step') (hf : IsForward step)
    (hf' : IsForward step') (forced : Nat) (g : γ) (g' : γ') (p : Parser σ T (δ × Recorder))
    (q : Parser σ' T (δ' × Recorder)) (hg : R g g') (hpq : Alike look p q) :
    R (drive step forced g p).1 (Parser.drive step' forced g' q).1 ∧
      Alike look (Parser.drive step forced g p).2 (Parser.drive step' forced g' q).2 := by
  -- The cases follow the rounds of the first driver; those of the second end in the same way.
  induction forced, g, p using drive_induction hf generalizing g' q with
  | ended forced g p ho =>
    have hready := hpq.skipTrivia
    rw [drive_of_isOver ho, drive_of_isOver (hready.isOver ▸ ho)]
    exact ⟨hg, hready.toAlike⟩
  | stalled forced g p ho hi hl =>
    have hready := hpq.skipTrivia
    obtain ⟨hstate, hafter, hidle, -⟩ := h.round hf hf' hg hready
    rw [drive_of_stalled ho hi hl, drive_of_stalled (hready.isOver ▸ ho) (hidle ▸ hi)
      (hafter.skipLimit ▸ hl)]
    exact ⟨hstate, hafter.stall (forced + 1)⟩
  | idle forced g p ho hi hl ih =>
    have hready := hpq.skipTrivia
    obtain ⟨hstate, hafter, hidle, hstay⟩ := h.round hf hf' hg hready
    rw [drive_of_idle hf ho hi hl, drive_of_idle hf' (hready.isOver ▸ ho) (hidle ▸ hi)
      (hafter.skipLimit ▸ hl)]
    exact ih _ _ hstate (hstay hi).force
  | busy forced g p ho hi ih =>
    have hready := hpq.skipTrivia
    obtain ⟨hstate, hafter, hidle, -⟩ := h.round hf hf' hg hready
    rw [drive_of_busy hf ho hi, drive_of_busy hf' (hready.isOver ▸ ho) (hidle ▸ hi)]
    exact ih _ _ hstate hafter

/-- **Drivers that behave alike come to the same verdict.** -/
theorem Simulates.parseWith (h : Simulates look R step step') (hf : IsForward step)
    (hf' : IsForward step') {g : γ} {g' : γ'} (hg : R g g') (hpq : Alike look p q) :
    (p.parseWith step g).1 = (q.parseWith step' g').1 ∧
      R (p.parseWith step g).2.1 (q.parseWith step' g').2.1 ∧
      Alike look (p.parseWith step g).2.2 (q.parseWith step' g').2.2 := by
  rcases hpq.outcomes with ⟨hp, hq⟩ | ⟨o, o', hp, hq, ho⟩
  · rw [parseWith_eq hf hp, parseWith_eq hf' hq]
    obtain ⟨hstate, hafter⟩ := h.drive hf hf' 0 g g' p q hg hpq
    obtain ⟨hverdict, hfinished⟩ := hafter.finish
    exact ⟨congrArg Prod.fst hverdict, hstate, hfinished⟩
  · rw [Parser.parseWith, Parser.parseWith, hp, hq]
    exact ⟨congrArg Prod.fst ho, hg, hpq⟩

end

/-- Parsing without a grammar comes to the same. -/
theorem Alike.parse (h : Alike look p q) :
    p.parse.1 = q.parse.1 ∧ Alike look p.parse.2 q.parse.2 := by
  have hs : Simulates look (fun _ _ ↦ True) (drain : Unit → Parser σ T (δ × Recorder) → _)
      (drain : Unit → Parser σ' T (δ' × Recorder) → _) :=
    fun _ _ _ _ _ hready ↦ ⟨trivial, hready.advance.2⟩
  obtain ⟨hverdict, -, hafter⟩ := hs.parseWith isForward_drain isForward_drain trivial h
  exact ⟨hverdict, hafter⟩

end Parser

end LexFront
