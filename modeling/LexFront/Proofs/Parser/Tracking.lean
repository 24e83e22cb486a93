import LexFront.Proofs.Parser.Draining

/-!
# Sources that a parser cannot tell apart

Two sources may be made in different ways and hand out the same lexemes all the same: a relation
between their states says so if related states hand out the same lexeme and are related again after
that. A parser sees no more of a source than the lexemes, so that parsers over two such sources do
the same step by step. `Tracks` says that they have, up to here; what they told the journal is left
out, where a source has a voice of its own.

In contrast to `Alike` nothing may differ, neither trivia nor places, and the sources are known to
be related to the end. That is what one needs to see that nothing went wrong in a source on the way.

Key facts:

* `LexemeStream.Tracks.rest`: all lexemes that are still to come.
* `Parser.Tracks.advance`, `Parser.Tracks.skipTrivia`: the operations.
* `Parser.Tracks.parse`: a parse without a grammar.
-/

set_option autoImplicit false

namespace LexFront

variable {σ σ' T δ : Type}

/-- A relation between sources that hand out the same lexemes under the same name. -/
structure LexemeSource.Matches [LexemeSource σ T] [LexemeSource σ' T] (R : σ → σ' → Prop) :
    Prop where
  next : ∀ {s : σ} {s' : σ'}, R s s' →
    (LexemeSource.next s).1 = (LexemeSource.next s').1 ∧
      R (LexemeSource.next s).2 (LexemeSource.next s').2
  unit : ∀ {s : σ} {s' : σ'}, R s s' → LexemeSource.unit s = LexemeSource.unit s'

variable {R : σ → σ' → Prop}

namespace LexemeStream

/-- Streams over related sources that have handed out the same. -/
structure Tracks (R : σ → σ' → Prop) (s : LexemeStream σ T) (s' : LexemeStream σ' T) : Prop where
  source : R s.source s'.source
  lookahead : s.lookahead = s'.lookahead
  consumed : s.consumed = s'.consumed

namespace Tracks

section

variable [LexemeSource σ T] [LexemeSource σ' T] {s : LexemeStream σ T} {s' : LexemeStream σ' T}

theorem ofSource (hR : LexemeSource.Matches R) {s : σ} {s' : σ'} (h : R s s') :
    Tracks R (LexemeStream.ofSource s) (LexemeStream.ofSource s') :=
  ⟨(hR.next h).2, (hR.next h).1, rfl⟩

omit [LexemeSource σ T] [LexemeSource σ' T] in
theorem isAtEnd (h : Tracks R s s') : s.isAtEnd = s'.isAtEnd := congrArg Lexeme.isEnd h.lookahead

theorem next (hR : LexemeSource.Matches R) (h : Tracks R s s') :
    s.next.1 = s'.next.1 ∧ Tracks R s.next.2 s'.next.2 := by
  obtain ⟨hlexeme, hafter⟩ := hR.next h.source
  simp only [LexemeStream.next, h.isAtEnd]
  split
  · exact ⟨rfl, h⟩
  · exact ⟨h.lookahead, hafter, hlexeme, congrArg (· + 1) h.consumed⟩

end

variable [FiniteSource σ T] [FiniteSource σ' T] {s : LexemeStream σ T} {s' : LexemeStream σ' T}

/-- **The same lexemes are still to come**, and the sources are related at the end. -/
theorem rest (hR : LexemeSource.Matches R) (h : Tracks R s s') :
    s.rest.1 = s'.rest.1 ∧ Tracks R s.rest.2 s'.rest.2 := by
  fun_induction LexemeStream.rest s generalizing s' with
  | case1 s hend =>
    rw [rest_of_isAtEnd (h.isAtEnd ▸ hend)]
    exact ⟨rfl, h⟩
  | case2 s hopen lexemes s₁ hr ih =>
    obtain ⟨hlexeme, hnext⟩ := h.next hR
    obtain ⟨hrest, hafter⟩ := ih hnext
    rw [hr] at hrest hafter
    have hopen' : s'.isAtEnd = false := by
      rw [← h.isAtEnd]
      simpa using hopen
    rw [rest_of_open hopen', ← hrest, hlexeme, next_fst]
    exact ⟨rfl, hafter⟩

end Tracks

end LexemeStream

namespace Parser

/-- Parsers over related sources that have done the same. -/
structure Tracks (R : σ → σ' → Prop) (p : Parser σ T δ) (q : Parser σ' T δ) : Prop where
  tokens : p.tokens.Tracks R q.tokens
  sink : p.sink = q.sink
  errorCount : p.errorCount = q.errorCount
  aborted : p.aborted = q.aborted
  skipLimit : p.skipLimit = q.skipLimit
  outcome : p.outcome = q.outcome

namespace Tracks

section

variable [LexemeSource σ T] [LexemeSource σ' T] {p : Parser σ T δ} {q : Parser σ' T δ}

omit [LexemeSource σ T] [LexemeSource σ' T] in
theorem isAtEnd (h : Tracks R p q) : p.isAtEnd = q.isAtEnd := h.tokens.isAtEnd

omit [LexemeSource σ T] [LexemeSource σ' T] in
theorem isOver (h : Tracks R p q) : p.isOver = q.isOver := by
  rw [Parser.isOver, Parser.isOver, h.aborted, h.isAtEnd]

theorem take (hR : LexemeSource.Matches R) (h : Tracks R p q) :
    p.take.1 = q.take.1 ∧ Tracks R p.take.2 q.take.2 := by
  obtain ⟨hlexeme, htokens⟩ := h.tokens.next hR
  exact ⟨hlexeme, htokens, h.sink, h.errorCount, h.aborted, h.skipLimit, h.outcome⟩

/-- The outcome that is settled is the same. -/
theorem settle (hR : LexemeSource.Matches R) (h : Tracks R p q) :
    p.settle.1 = q.settle.1 ∧ Tracks R p.settle.2 q.settle.2 := by
  have hunit : p.unit = q.unit := hR.unit h.tokens.source
  have hverdict : p.verdict = q.verdict := by
    simp only [verdict, hunit, h.aborted, h.isAtEnd, h.errorCount, consumed, h.tokens.consumed]
  exact ⟨hverdict, h.tokens, h.sink, h.errorCount, h.aborted, h.skipLimit, congrArg some hverdict⟩

variable [DiagnosticSink δ]

theorem abort (h : Tracks R p q) (i : InvalidToken) : Tracks R (p.abort i) (q.abort i) := by
  rw [Parser.abort, Parser.abort, h.aborted]
  split
  · exact h
  · exact ⟨h.tokens, congrArg (DiagnosticSink.receive · _) h.sink, h.errorCount, rfl, h.skipLimit,
      h.outcome⟩

/-- **Consuming a lexeme** gives the same one. -/
theorem advance (hR : LexemeSource.Matches R) (h : Tracks R p q) :
    p.advance.1 = q.advance.1 ∧ Tracks R p.advance.2 q.advance.2 := by
  obtain ⟨hlexeme, hafter⟩ := h.take hR
  rw [Parser.advance, Parser.advance]
  generalize p.take = r at hlexeme hafter
  generalize q.take = r' at hlexeme hafter
  obtain ⟨x, p'⟩ := r
  obtain ⟨y, q'⟩ := r'
  obtain rfl : x = y := hlexeme
  cases x with
  | invalid i => exact ⟨rfl, Tracks.abort hafter i⟩
  | _ => exact ⟨rfl, hafter⟩

end

variable [FiniteSource σ T] [FiniteSource σ' T] [Terminal T] {p : Parser σ T δ} {q : Parser σ' T δ}

/-- **The same trivia is skipped.** -/
theorem skipTrivia (hR : LexemeSource.Matches R) (h : Tracks R p q) :
    Tracks R p.skipTrivia.2 q.skipTrivia.2 := by
  fun_induction Parser.skipTrivia p generalizing q with
  | case1 p htrivia n p' hr ih =>
    have hnext := ih (h.take hR).2
    rw [hr] at hnext
    rw [Parser.skipTrivia, if_pos (h.tokens.lookahead ▸ htrivia)]
    exact hnext
  | case2 p htrivia =>
    rw [Parser.skipTrivia, if_neg (h.tokens.lookahead ▸ htrivia)]
    exact h

/-- The parses are finished in the same way. -/
theorem finish (hR : LexemeSource.Matches R) (h : Tracks R p q) :
    p.finish.1 = q.finish.1 ∧ Tracks R p.finish.2 q.finish.2 := by
  rw [Parser.finish, Parser.finish, h.outcome, h.aborted]
  cases ho : q.outcome with
  | some o => exact ⟨rfl, h⟩
  | none =>
    simp only
    split
    · exact h.settle hR
    · exact (h.skipTrivia hR).settle hR

variable [DiagnosticSink δ]

/-- **Consuming whatever comes** goes the same way, round by round. -/
theorem drive (hR : LexemeSource.Matches R) (h : Tracks R p q) (forced : Nat) (g : Unit) :
    Tracks R (Parser.drive drain forced g p).2 (Parser.drive drain forced g q).2 := by
  have hforward : IsForward (drain (σ := σ) (T := T) (δ := δ)) := isForward_drain
  induction forced, g, p using drive_induction hforward generalizing q with
  | ended forced g p ho =>
    have hskip := h.skipTrivia hR
    rw [drive_of_isOver ho, drive_of_isOver (hskip.isOver ▸ ho)]
    exact hskip
  | stalled forced g p ho hi hl =>
    rw [isIdle_drain (of_not_isOver ho).2] at hi
    cases hi
  | idle forced g p ho hi hl ih =>
    rw [isIdle_drain (of_not_isOver ho).2] at hi
    cases hi
  | busy forced g p ho hi ih =>
    have hskip := h.skipTrivia hR
    have ho' := hskip.isOver ▸ ho
    rw [drive_of_busy hforward ho hi,
      drive_of_busy isForward_drain ho' (isIdle_drain (of_not_isOver ho').2)]
    exact ih (hskip.advance hR).2

/-- **A parse without a grammar** comes to the same. -/
theorem parse (hR : LexemeSource.Matches R) (h : Tracks R p q) :
    p.parse.1 = q.parse.1 ∧ Tracks R p.parse.2 q.parse.2 := by
  show (p.parseWith drain ()).1 = (q.parseWith drain ()).1 ∧
    Tracks R (p.parseWith drain ()).2.2 (q.parseWith drain ()).2.2
  cases ho : p.outcome with
  | some o =>
    rw [parseWith, parseWith, ← h.outcome, ho]
    exact ⟨rfl, h⟩
  | none =>
    rw [parseWith_eq isForward_drain ho, parseWith_eq isForward_drain (h.outcome ▸ ho)]
    obtain ⟨houtcome, hafter⟩ := (h.drive hR 0 ()).finish hR
    exact ⟨congrArg Outcome.accepted houtcome, hafter⟩

end Tracks

end Parser

end LexFront
