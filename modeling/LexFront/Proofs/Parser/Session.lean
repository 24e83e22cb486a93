import Mathlib.Logic.Relation
import LexFront.Proofs.Parser.Draining

/-!
# Sessions

A parser may be used through its operations in any order, and a grammar driver may use all of them
in its steps, running a driver included. A `Session` is a parser in such use, with the drivers that
are at work on it as a stack and a record of the moments at which `finish` was called. `Does` is one
move of a session: an operation, the start of a driver, or the end of a step.

What a driver does is left open: whoever is at work may make any move next, so that the runs of all
drivers, those that never come to an end included, are among the sessions. That is also why the
operations are relations here. Where there is trivia without an end, `skipTrivia` is a function no
longer, and a session that tries to skip it makes no move.

`Returns` singles out the sessions in which a driver is run until it returns. Which moves it makes
on the way may be restricted.

Over a finite source the functions do make these moves. A driver whose steps are sessions is run by
a session that returns (`returns_parseWith`), and so it may be part of a step in its turn.

Key facts:

* `exists_effect_of_calls`, `moves_of_does`: what a move does to the parser.
* `ends_of_does`: a driver is at work until its step ends.
* `returns_parseWith`, `performs_parseWith`: running a driver is a session.
-/

set_option autoImplicit false

namespace LexFront

namespace Parser

variable {σ T δ γ : Type}

/-- A driver at work: how many lexemes had been consumed when its step began, and how many of its
steps have been idle. -/
structure Frame where
  before : Nat
  forced : Nat

/-- A parser in use. -/
structure Session (σ T δ : Type) where
  parser : Parser σ T δ
  /-- The drivers at work, the innermost one first. -/
  drivers : List Frame := []
  /-- The parser at every call of `finish` so far, in order. -/
  finishes : List (Parser σ T δ) := []

section

variable [LexemeSource σ T] [Terminal T] [DiagnosticSink δ]

/-- What an expectation does: nothing once the parse is aborted, and else it takes the next lexeme
behind the trivia. -/
inductive Expects (p : Parser σ T δ) (accept : T → Bool) : Parser σ T δ → Prop where
  | aborted : p.aborted = true → Expects p accept p
  | next {q : Parser σ T δ} : p.aborted = false → Skips p q →
      Expects p accept (q.expectNext accept).2

/-- Where finishing gets to before it settles the outcome: behind the trivia, unless the parse is
aborted. -/
inductive Concludes (p : Parser σ T δ) : Parser σ T δ → Prop where
  | aborted : p.aborted = true → Concludes p p
  | skips {q : Parser σ T δ} : p.aborted = false → Skips p q → Concludes p q

/-- What finishing does: nothing if it was done before, and else it settles the outcome. -/
inductive Finishes (p : Parser σ T δ) : Parser σ T δ → Prop where
  | again {o : Outcome} : p.outcome = some o → Finishes p p
  | first {q : Parser σ T δ} : p.outcome = none → Concludes p q → Finishes p q.settle.2

variable [DecidableEq T]

/-- What the operations do that neither run a driver nor finish. Looking at the next lexeme behind
the trivia, or at its terminal, does what skipping the trivia does. -/
inductive Calls (p : Parser σ T δ) : Parser σ T δ → Prop where
  | skipTrivia {q : Parser σ T δ} : Skips p q → Calls p q
  | advance : Calls p p.advance.2
  | reportError (text : Text) (span : Span) : Calls p (p.reportError text span)
  | expect (t : T) {q : Parser σ T δ} :
      Expects (p.announce "Expecting token" (Terminal.name t)) (· = t) q → Calls p q
  | expectAny (ts : List T) {q : Parser σ T δ} :
      Expects (p.announce "Expecting one of" (String.intercalate ", " (ts.map Terminal.name)))
        (ts.contains ·) q → Calls p q

namespace Session

/-- A call of `finish`, which is put on record. -/
inductive Closes (s : Session σ T δ) : Session σ T δ → Prop where
  | mk {q : Parser σ T δ} : Finishes s.parser q →
      Closes s { s with parser := q, finishes := s.finishes ++ [s.parser] }

/-- The next round of a driver, from the number of its idle steps: trivia is skipped, and either
there is nothing left to do and the parse is finished, or the driver begins a step. -/
inductive Round (forced : Nat) (s : Session σ T δ) : Session σ T δ → Prop where
  | ended {q : Parser σ T δ} {s' : Session σ T δ} : Skips s.parser q → q.isOver = true →
      Closes { s with parser := q } s' → Round forced s s'
  | step {q : Parser σ T δ} : Skips s.parser q → q.isOver = false →
      Round forced s { s with parser := q, drivers := ⟨q.consumed, forced⟩ :: s.drivers }

/-- One move of a session. -/
inductive Does : Session σ T δ → Session σ T δ → Prop where
  | call {s : Session σ T δ} {q : Parser σ T δ} : Calls s.parser q → Does s { s with parser := q }
  | finish {s s' : Session σ T δ} : Closes s s' → Does s s'
  /-- A driver is run. -/
  | enter {s s' : Session σ T δ} : s.parser.outcome = none → Round 0 s s' → Does s s'
  /-- A driver is not run any more. -/
  | refuse {s : Session σ T δ} {o : Outcome} : s.parser.outcome = some o → Does s s
  /-- A step ends that consumed something, or after which nothing is left to do. -/
  | busy {p : Parser σ T δ} {f : Frame} {fs : List Frame} {log : List (Parser σ T δ)}
      {s' : Session σ T δ} : p.isIdle f.before = false → Round f.forced ⟨p, fs, log⟩ s' →
      Does ⟨p, f :: fs, log⟩ s'
  /-- An idle step ends, and a lexeme is consumed for the driver. -/
  | idle {p : Parser σ T δ} {f : Frame} {fs : List Frame} {log : List (Parser σ T δ)}
      {s' : Session σ T δ} : p.isIdle f.before = true → ¬ p.skipLimit ≤ f.forced →
      Round (f.forced + 1) ⟨p.force, fs, log⟩ s' → Does ⟨p, f :: fs, log⟩ s'
  /-- An idle step ends that was one too many, and the driver is stopped. -/
  | stalled {p : Parser σ T δ} {f : Frame} {fs : List Frame} {log : List (Parser σ T δ)}
      {s' : Session σ T δ} : p.isIdle f.before = true → p.skipLimit ≤ f.forced →
      Closes ⟨p.stall (f.forced + 1), fs, log⟩ s' → Does ⟨p, f :: fs, log⟩ s'

/-- A session that goes on from another. -/
def Reaches : Session σ T δ → Session σ T δ → Prop := Relation.ReflTransGen Does

/-- A move while more than `n` drivers are at work. -/
def Inside (M : Session σ T δ → Session σ T δ → Prop) (n : Nat) (s s' : Session σ T δ) : Prop :=
  n < s.drivers.length ∧ M s s'

/-- The moves `M` include all, unless an aborted parser is called. After an abort it is still a move
to end a step. -/
def Admits (M : Session σ T δ → Session σ T δ → Prop) : Prop :=
  ∀ {s s' : Session σ T δ}, Does s s' →
    (s.parser.aborted = true → s'.drivers.length < s.drivers.length) → M s s'

/-- A driver is run on a parser that is not finished, and returns. In its steps, and in those of the
drivers that it runs, the moves are `M`. What it returns is whether the outcome is accepted. -/
structure Returns (M : Session σ T δ → Session σ T δ → Prop) (s : Session σ T δ) (accepted : Bool)
    (s' : Session σ T δ) : Prop where
  running : s.parser.outcome = none
  rounds : ∃ r, Round 0 s r ∧ Relation.ReflTransGen (Inside M s.drivers.length) r s'
  drivers : s'.drivers = s.drivers
  answer : ∃ o, s'.parser.outcome = some o ∧ o.accepted = accepted

/-- A session with a new parser. -/
def start (source : σ) (sink : δ) (skipLimit : Nat) (logExpectations : Bool) : Session σ T δ where
  parser := { Parser.ofSource source sink with skipLimit, logExpectations }

end Session

/-! ### What a move does -/

variable {p q : Parser σ T δ}

omit [DecidableEq T] in
theorem exists_effect_of_expects {accept : T → Bool} (h : Expects p accept q) :
    ∃ xs ds, Effect p xs ds q := by
  cases h with
  | aborted _ => exact ⟨_, _, .refl p⟩
  | @next r _ hskip =>
    obtain ⟨-, xs, he, -⟩ := hskip.effect
    obtain ⟨ys, ds, he'⟩ := exists_effect_expectNext r accept
    exact ⟨_, _, he.trans he'⟩

/-- **No operation does more than to consume and to report.** -/
theorem exists_effect_of_calls (h : Calls p q) : ∃ xs ds, Effect p xs ds q := by
  cases h with
  | skipTrivia hskip =>
    obtain ⟨-, xs, he, -⟩ := hskip.effect
    exact ⟨xs, [], he⟩
  | advance => exact ⟨_, _, (advance_spec p).2.1⟩
  | reportError text span => exact ⟨_, _, effect_reportError p text span⟩
  | expect t h =>
    obtain ⟨xs, ds, he⟩ := exists_effect_of_expects h
    exact ⟨_, _, (effect_announce p _ _).trans he⟩
  | expectAny ts h =>
    obtain ⟨xs, ds, he⟩ := exists_effect_of_expects h
    exact ⟨_, _, (effect_announce p _ _).trans he⟩

omit [DecidableEq T] in
theorem exists_effect_of_concludes (h : Concludes p q) : ∃ xs, Effect p xs [] q := by
  cases h with
  | aborted _ => exact ⟨[], .refl p⟩
  | skips _ hskip =>
    obtain ⟨-, xs, he, -⟩ := hskip.effect
    exact ⟨xs, he⟩

omit [DecidableEq T] [DiagnosticSink δ] in
theorem aborted_of_concludes (h : Concludes p q) : q.aborted = p.aborted := by
  cases h with
  | aborted _ => rfl
  | skips _ hskip => exact hskip.aborted

omit [DecidableEq T] [DiagnosticSink δ] in
theorem aborted_of_finishes (h : Finishes p q) : q.aborted = p.aborted := by
  cases h with
  | again _ => rfl
  | @first r _ hconclude =>
    have haborted : r.aborted = p.aborted := aborted_of_concludes hconclude
    exact haborted

omit [DecidableEq T] in
theorem Finishes.sink (h : Finishes p q) : q.sink = p.sink := by
  cases h with
  | again _ => rfl
  | first _ hconclude =>
    obtain ⟨xs, he⟩ := exists_effect_of_concludes hconclude
    exact he.sink

omit [DecidableEq T] [DiagnosticSink δ] in
theorem Finishes.eq_of_finished {o : Outcome} (h : Finishes p q) (ho : p.outcome = some o) :
    q = p := by
  cases h with
  | again _ => rfl
  | first hnone _ => rw [ho] at hnone; cases hnone

omit [DecidableEq T] [DiagnosticSink δ] in
theorem Finishes.exists_concludes (h : Finishes p q) (ho : p.outcome = none) :
    ∃ r, Concludes p r ∧ q = r.settle.2 := by
  cases h with
  | again hsome => rw [ho] at hsome; cases hsome
  | first _ hconclude => exact ⟨_, hconclude, rfl⟩

omit [DecidableEq T] in
theorem exists_yields_of_finishes (h : Finishes p q) : ∃ xs, p.tokens.Yields xs q.tokens := by
  cases h with
  | again _ => exact ⟨[], .nil⟩
  | first _ hconclude =>
    obtain ⟨xs, he⟩ := exists_effect_of_concludes hconclude
    exact ⟨xs, he.tokens⟩

namespace Session

/-- What a move comes to: the parser consumes and reports something, and then it may be finished. -/
inductive Moves (s s' : Session σ T δ) : Prop where
  | on {xs : List (Lexeme T)} {ds : List Diagnostic} : Effect s.parser xs ds s'.parser →
      s'.finishes = s.finishes → Moves s s'
  | closes {m : Parser σ T δ} {xs : List (Lexeme T)} {ds : List Diagnostic} :
      Effect s.parser xs ds m → Finishes m s'.parser → s'.finishes = s.finishes ++ [m] → Moves s s'

variable {s s' : Session σ T δ}

omit [DecidableEq T] in
theorem moves_of_closes (h : Closes s s') : Moves s s' := by
  obtain ⟨hfinish⟩ := h
  exact .closes (.refl s.parser) hfinish rfl

omit [DecidableEq T] in
/-- What comes before a move of the parser counts as part of it. -/
theorem Moves.prepend {xs : List (Lexeme T)} {ds : List Diagnostic} {t : Session σ T δ}
    (he : Effect s.parser xs ds t.parser) (ht : t.finishes = s.finishes) (h : Moves t s') :
    Moves s s' := by
  cases h with
  | on he' hlog => exact .on (he.trans he') (hlog.trans ht)
  | closes he' hfinish hlog => exact .closes (he.trans he') hfinish (ht ▸ hlog)

omit [DecidableEq T] in
theorem moves_of_round {forced : Nat} (h : Round forced s s') : Moves s s' := by
  cases h with
  | @ended q _ hskip _ hclose =>
    obtain ⟨-, xs, he, -⟩ := hskip.effect
    exact .prepend (t := { s with parser := q }) he rfl (moves_of_closes hclose)
  | step hskip _ =>
    obtain ⟨-, xs, he, -⟩ := hskip.effect
    exact .on he rfl

omit [DecidableEq T] [DiagnosticSink δ] in
/-- On an aborted parser the loop of a driver takes no further step. -/
theorem Round.closes_of_aborted {forced : Nat} (h : Round forced s s')
    (ha : s.parser.aborted = true) :
    ∃ q, Skips s.parser q ∧ Closes { s with parser := q } s' := by
  cases h with
  | ended hskip _ hclose => exact ⟨_, hskip, hclose⟩
  | step hskip ho =>
    have hrunning := (Bool.or_eq_false_iff.1 ho).1
    rw [hskip.aborted, ha] at hrunning
    cases hrunning

omit [DecidableEq T] [DiagnosticSink δ] in
theorem Round.drivers_of_aborted {forced : Nat} (h : Round forced s s')
    (ha : s.parser.aborted = true) : s'.drivers = s.drivers := by
  obtain ⟨q, -, ⟨-⟩⟩ := h.closes_of_aborted ha
  rfl

omit [DecidableEq T] in
/-- The loop of a driver reports nothing but what it is forced to. -/
theorem Round.sink {forced : Nat} (h : Round forced s s') : s'.parser.sink = s.parser.sink := by
  cases h with
  | ended hskip _ hclose =>
    obtain ⟨-, xs, he, -⟩ := hskip.effect
    obtain ⟨hfinish⟩ := hclose
    exact hfinish.sink.trans he.sink
  | step hskip _ =>
    obtain ⟨-, xs, he, -⟩ := hskip.effect
    exact he.sink

omit [DecidableEq T] [DiagnosticSink δ] in
theorem Round.length_drivers_le {forced : Nat} (h : Round forced s s') :
    s.drivers.length ≤ s'.drivers.length := by
  cases h with
  | ended _ _ hclose =>
    obtain ⟨-⟩ := hclose
    exact Nat.le_refl _
  | step _ _ => exact Nat.le_succ _

omit [DecidableEq T] [DiagnosticSink δ] in
theorem Round.aborted {forced : Nat} (h : Round forced s s') :
    s'.parser.aborted = s.parser.aborted := by
  cases h with
  | @ended q _ hskip _ hclose =>
    obtain ⟨hfinish⟩ := hclose
    exact (aborted_of_finishes hfinish).trans hskip.aborted
  | step hskip _ => exact hskip.aborted

/-- How a step ends, and the driver with it: in another round of its loop, or because it is
stopped. -/
inductive Ends (s s' : Session σ T δ) : Prop where
  | round {forced : Nat} {t : Session σ T δ} : s.drivers.length = t.drivers.length + 1 →
      (s.parser.aborted = true → t.parser = s.parser) → Round forced t s' → Ends s s'
  | stalled {t : Session σ T δ} : s.parser.aborted = false → Closes t s' → Ends s s'

/-- **A driver is at work until its step ends.** -/
theorem ends_of_does (h : Does s s') (hfewer : s'.drivers.length < s.drivers.length) :
    Ends s s' := by
  cases h with
  | call _ => exact absurd hfewer (Nat.lt_irrefl _)
  | finish hclose =>
    obtain ⟨-⟩ := hclose
    exact absurd hfewer (Nat.lt_irrefl _)
  | enter _ hround => exact absurd hfewer (Nat.not_lt_of_le hround.length_drivers_le)
  | refuse _ => exact absurd hfewer (Nat.lt_irrefl _)
  | @busy p f fs log _ _ hround => exact .round (t := ⟨p, fs, log⟩) rfl (fun _ ↦ rfl) hround
  | @idle p f fs log _ hi _ hround =>
    have hrunning : p.aborted = false := (of_not_isOver (isOver_of_isIdle hi)).1
    refine .round (t := ⟨p.force, fs, log⟩) rfl (fun ha ↦ ?_) hround
    exact absurd (hrunning.symm.trans ha) Bool.false_ne_true
  | stalled hi _ hclose => exact .stalled (of_not_isOver (isOver_of_isIdle hi)).1 hclose

/-- **What a move does to the parser.** -/
theorem moves_of_does (h : Does s s') : Moves s s' := by
  cases h with
  | call h =>
    obtain ⟨xs, ds, he⟩ := exists_effect_of_calls h
    exact .on he rfl
  | finish h => exact moves_of_closes h
  | enter _ h => exact moves_of_round h
  | refuse _ => exact .on (.refl s.parser) rfl
  | @busy p f fs log _ _ h =>
    exact .prepend (t := ⟨p, fs, log⟩) (.refl p) rfl (moves_of_round h)
  | @idle p f fs log _ _ _ h =>
    obtain ⟨ds, he⟩ := exists_effect_force p
    exact .prepend (t := ⟨p.force, fs, log⟩) he rfl (moves_of_round h)
  | @stalled p f fs log _ _ _ h =>
    exact .prepend (t := ⟨p.stall (f.forced + 1), fs, log⟩) (effect_stall p _).1 rfl
      (moves_of_closes h)

/-- A driver that is run goes through a session. -/
theorem Returns.reaches {accepted : Bool} (h : Returns Does s accepted s') : Reaches s s' := by
  obtain ⟨hrunning, ⟨r, hround, hpath⟩, -, -⟩ := h
  have hle : Inside (Does (σ := σ) (T := T) (δ := δ)) s.drivers.length ≤ Does :=
    fun _ _ hmove ↦ hmove.2
  exact .head (.enter hrunning hround) (Relation.ReflTransGen.mono hle _ _ hpath)

omit [DecidableEq T] [DiagnosticSink δ] in
/-- A loop that does not go on to a step ends by finishing the parse. -/
theorem Round.exists_closes {forced : Nat} (h : Round forced s s')
    (hdrivers : s'.drivers.length ≤ s.drivers.length) : ∃ u, Closes u s' := by
  cases h with
  | ended _ _ hclose => exact ⟨_, hclose⟩
  | step _ _ => exact absurd hdrivers (Nat.not_succ_le_self _)

/-- **A driver that is run returns by finishing the parse.** -/
theorem Returns.exists_closes {M : Session σ T δ → Session σ T δ → Prop} {accepted : Bool}
    (hM : ∀ {t t' : Session σ T δ}, M t t' → Does t t') (h : Returns M s accepted s') :
    ∃ u, Closes u s' := by
  obtain ⟨-, ⟨r, hround, hpath⟩, hdrivers, -⟩ := h
  rw [← hdrivers] at hpath
  cases hpath with
  | refl => exact hround.exists_closes (Nat.le_of_eq (congrArg List.length hdrivers))
  | tail _ hmove =>
    obtain ⟨hfewer, hmove⟩ := hmove
    cases ends_of_does (hM hmove) hfewer with
    | round hlength _ hround' => exact hround'.exists_closes (by omega)
    | stalled _ hclose => exact ⟨_, hclose⟩

theorem exists_yields_of_reaches (h : Reaches s s') :
    ∃ xs, s.parser.tokens.Yields xs s'.parser.tokens := by
  induction h with
  | refl => exact ⟨[], .nil⟩
  | tail _ h ih =>
    obtain ⟨xs, hxs⟩ := ih
    cases moves_of_does h with
    | on he _ => exact ⟨_, hxs.trans he.tokens⟩
    | closes he hfinish _ =>
      obtain ⟨ys, hys⟩ := exists_yields_of_finishes hfinish
      exact ⟨_, (hxs.trans he.tokens).trans hys⟩

end Session

end

/-! ### The functions make these moves -/

section

variable [FiniteSource σ T] [Terminal T] [DiagnosticSink δ]

theorem expects_expectWhere (p : Parser σ T δ) (accept : T → Bool) :
    Expects p accept (p.expectWhere accept).2 := by
  rw [expectWhere]
  split
  · next h => exact .aborted h
  · next h => exact .next (by simpa using h) (skips_skipTrivia p)

omit [DiagnosticSink δ] in
theorem finishes_finish (p : Parser σ T δ) : Finishes p p.finish.2 := by
  rw [finish]
  cases ho : p.outcome with
  | some o => exact .again ho
  | none =>
    cases ha : p.aborted with
    | true => exact .first ho (.aborted ha)
    | false => exact .first ho (.skips ha (skips_skipTrivia p))

variable [DecidableEq T]

theorem calls_expect (p : Parser σ T δ) (t : T) : Calls p (p.expect t).2 :=
  .expect t (expects_expectWhere _ _)

theorem calls_expectAny (p : Parser σ T δ) (ts : List T) : Calls p (p.expectAny ts).2 :=
  .expectAny ts (expects_expectWhere _ _)

theorem calls_skipTrivia (p : Parser σ T δ) : Calls p p.skipTrivia.2 :=
  .skipTrivia (skips_skipTrivia p)

theorem calls_peek (p : Parser σ T δ) : Calls p p.peek.2 := calls_skipTrivia p

theorem calls_peekTerminal (p : Parser σ T δ) : Calls p p.peekTerminal.2 := calls_skipTrivia p

namespace Session

omit [DiagnosticSink δ] [DecidableEq T] in
theorem closes_finish (s : Session σ T δ) :
    Closes s { s with parser := s.parser.finish.2, finishes := s.finishes ++ [s.parser] } :=
  .mk (finishes_finish s.parser)

variable {M : Session σ T δ → Session σ T δ → Prop}

/-- The steps of a driver consist of moves `M`, whatever drivers are at work besides. -/
def Performs (M : Session σ T δ → Session σ T δ → Prop)
    (step : γ → Parser σ T δ → γ × Parser σ T δ) : Prop :=
  ∀ (g : γ) (p : Parser σ T δ) (f : Frame) (fs : List Frame) (finishes : List (Parser σ T δ)),
    p.isOver = false → ∃ log, Relation.ReflTransGen (Inside M fs.length)
      ⟨p, f :: fs, finishes⟩ ⟨(step g p).2, f :: fs, finishes ++ log⟩

omit [FiniteSource σ T] in
/-- The end of a step is a move that is allowed, since after an abort the driver goes with it. -/
theorem Admits.inside [LexemeSource σ T] (hM : Admits M) {p : Parser σ T δ} {f : Frame}
    {fs : List Frame} {log : List (Parser σ T δ)} {s' : Session σ T δ}
    (h : Does ⟨p, f :: fs, log⟩ s') (hdrivers : p.aborted = true → s'.drivers = fs) :
    Inside M fs.length ⟨p, f :: fs, log⟩ s' := by
  refine ⟨Nat.lt_succ_self _, hM h fun ha ↦ ?_⟩
  rw [hdrivers ha]
  exact Nat.lt_succ_self _

variable {step : γ → Parser σ T δ → γ × Parser σ T δ}

/-- A driver that is run to the end and finished there has gone through a first round, and through
what comes after it. -/
theorem exists_round_drive (hs : IsForward step) (hM : Admits M) (h : Performs M step)
    (forced : Nat) (g : γ) (p : Parser σ T δ) (fs : List Frame) (finishes : List (Parser σ T δ)) :
    ∃ s log, Round forced ⟨p, fs, finishes⟩ s ∧ Relation.ReflTransGen (Inside M fs.length)
      s ⟨(drive step forced g p).2.finish.2, fs, finishes ++ log⟩ := by
  -- A round is the first move after the end of the last step, so that each case appends the moves
  -- of its step to the round and leaves the next round to the hypothesis.
  induction forced, g, p using drive_induction hs generalizing finishes with
  | ended forced g p ho =>
    rw [drive_of_isOver ho]
    exact ⟨_, _, .ended (skips_skipTrivia p) ho (closes_finish _), .refl⟩
  | stalled forced g p ho hi hl =>
    obtain ⟨log, hstep⟩ := h g p.skipTrivia.2 ⟨p.skipTrivia.2.consumed, forced⟩ fs finishes ho
    rw [drive_of_stalled ho hi hl]
    let q := (step g p.skipTrivia.2).2.stall (forced + 1)
    have hclose : Closes ⟨q, fs, finishes ++ log⟩ ⟨q.finish.2, fs, finishes ++ (log ++ [q])⟩ :=
      List.append_assoc finishes log [q] ▸ closes_finish _
    exact ⟨_, _, .step (skips_skipTrivia p) ho,
      hstep.tail (hM.inside (.stalled hi hl hclose) fun _ ↦ rfl)⟩
  | idle forced g p ho hi hl ih =>
    obtain ⟨log, hstep⟩ := h g p.skipTrivia.2 ⟨p.skipTrivia.2.consumed, forced⟩ fs finishes ho
    obtain ⟨s, log', hround, hrest⟩ := ih (finishes ++ log)
    rw [drive_of_idle hs ho hi hl]
    rw [List.append_assoc] at hrest
    have hidle : Does ⟨(step g p.skipTrivia.2).2, ⟨_, forced⟩ :: fs, finishes ++ log⟩ s :=
      .idle hi hl hround
    have hend := hM.inside hidle fun ha ↦ by
      rw [(of_not_isOver (isOver_of_isIdle hi)).1] at ha
      cases ha
    exact ⟨_, _, .step (skips_skipTrivia p) ho, (hstep.tail hend).trans hrest⟩
  | busy forced g p ho hi ih =>
    obtain ⟨log, hstep⟩ := h g p.skipTrivia.2 ⟨p.skipTrivia.2.consumed, forced⟩ fs finishes ho
    obtain ⟨s, log', hround, hrest⟩ := ih (finishes ++ log)
    rw [drive_of_busy hs ho hi]
    rw [List.append_assoc] at hrest
    have hbusy : Does ⟨(step g p.skipTrivia.2).2, ⟨_, forced⟩ :: fs, finishes ++ log⟩ s :=
      .busy hi hround
    have hend := hM.inside hbusy hround.drivers_of_aborted
    exact ⟨_, _, .step (skips_skipTrivia p) ho, (hstep.tail hend).trans hrest⟩

/-- **A driver that is run returns**, by the moves that its steps consist of. -/
theorem returns_parseWith (hs : IsForward step) (hM : Admits M) (h : Performs M step) (g : γ)
    {p : Parser σ T δ} (ho : p.outcome = none) (fs : List Frame)
    (finishes : List (Parser σ T δ)) :
    ∃ log, Returns M ⟨p, fs, finishes⟩ (p.parseWith step g).1
      ⟨(p.parseWith step g).2.2, fs, finishes ++ log⟩ := by
  obtain ⟨s, log, hround, hrest⟩ := exists_round_drive hs hM h 0 g p fs finishes
  rw [parseWith_eq hs ho]
  exact ⟨log, ho, ⟨s, hround, hrest⟩, rfl, _, outcome_finish _, rfl⟩

/-- A step in which a driver is run consists of the moves of that driver. -/
theorem performs_parseWith (hs : IsForward step) (hM : Admits M) (h : Performs M step) :
    Performs M fun g p ↦ (p.parseWith step g).2 := by
  intro g p f fs finishes hopen
  show ∃ log, Relation.ReflTransGen (Inside M fs.length) ⟨p, f :: fs, finishes⟩
    ⟨(p.parseWith step g).2.2, f :: fs, finishes ++ log⟩
  cases ho : p.outcome with
  | some o =>
    refine ⟨[], ?_⟩
    rw [parseWith, ho, List.append_nil]
  | none =>
    obtain ⟨log, -, ⟨s, hround, hrest⟩, -⟩ := returns_parseWith hs hM h g ho (f :: fs) finishes
    have henter : Inside M fs.length ⟨p, f :: fs, finishes⟩ s :=
      hM.inside (.enter ho hround) fun ha ↦ by rw [(of_not_isOver hopen).1] at ha; cases ha
    have hle : Inside M (f :: fs).length ≤ Inside M fs.length := fun _ _ hin ↦
      ⟨Nat.lt_of_succ_lt hin.1, hin.2⟩
    exact ⟨log, .head henter (Relation.ReflTransGen.mono hle _ _ hrest)⟩

/-- A step that is a single call is one move. -/
theorem performs_of_calls (hM : Admits M) {f : Parser σ T δ → Parser σ T δ}
    (h : ∀ p, Calls p (f p)) : Performs M fun (g : γ) p ↦ (g, f p) := by
  intro g p frame fs finishes hopen
  refine ⟨[], ?_⟩
  rw [List.append_nil]
  exact .single (hM.inside (.call (h p)) fun ha ↦ by rw [(of_not_isOver hopen).1] at ha; cases ha)

/-- **Consuming all lexemes returns.** -/
theorem returns_parse (hM : Admits M) {p : Parser σ T δ} (ho : p.outcome = none)
    (fs : List Frame) (finishes : List (Parser σ T δ)) :
    ∃ log, Returns M ⟨p, fs, finishes⟩ p.parse.1 ⟨p.parse.2, fs, finishes ++ log⟩ :=
  returns_parseWith isForward_drain hM (performs_of_calls hM fun _ ↦ .advance) () ho fs finishes

end Session

end

end Parser

end LexFront
