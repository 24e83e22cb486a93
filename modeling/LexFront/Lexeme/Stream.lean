import LexFront.Lexeme.Source
import LexFront.Lexer.Report

/-!
# Streams of lexemes

A `LexemeStream` goes through a source once, with one lexeme of look-ahead. Once the look-ahead is
the end of the input the source is left alone.

Key facts:

* `next_of_isAtEnd`: at the end nothing changes any more.
* `remaining_next_lt`: over a finite source every lexeme brings the end closer.
* `rest_eq_drain`: taking note of journal entries does not change the lexemes.
-/

set_option autoImplicit false

namespace LexFront

instance Lexer.instFiniteSource {T : Type} [Terminal T] : FiniteSource (Lexer T) T where
  next := Lexer.next
  endLocation := Lexer.location
  unit := Lexer.unit
  openingEvents := Lexer.openingEvents
  stepEvents := Lexer.stepEvents
  remaining := Lexer.remaining
  remaining_next_lt _ h := Lexer.remaining_next_lt h

/-- A source in the middle of being read. -/
structure LexemeStream (σ T : Type) where
  source : σ
  lookahead : Lexeme T
  /-- How many lexemes have been handed out. -/
  consumed : Nat := 0

namespace LexemeStream

variable {σ T : Type}

section

variable [LexemeSource σ T]

/-- Gets the first lexeme. -/
def ofSource (s : σ) : LexemeStream σ T :=
  let (lexeme, s) := LexemeSource.next s
  { source := s, lookahead := lexeme }

/-- Whether every lexeme has been handed out. -/
def isAtEnd (s : LexemeStream σ T) : Bool := s.lookahead.isEnd

/-- Hands out the next lexeme. -/
def next (s : LexemeStream σ T) : Lexeme T × LexemeStream σ T :=
  if s.isAtEnd then (.endOfInput, s)
  else
    let (lexeme, source) := LexemeSource.next s.source
    (s.lookahead, { source, lookahead := lexeme, consumed := s.consumed + 1 })

/-- The next lexeme, unless the input has ended. -/
def next? (s : LexemeStream σ T) : Option (Lexeme T) × LexemeStream σ T :=
  match s.next with
  | (.endOfInput, s) => (none, s)
  | (lexeme, s) => (some lexeme, s)

/-- Looks at the next lexeme. -/
def peek (s : LexemeStream σ T) : Lexeme T := s.lookahead

/-- The location just past the input read so far, the look-ahead included. -/
def endLocation (s : LexemeStream σ T) : Location := LexemeSource.endLocation s.source

/-- The name of the unit. -/
def unit (s : LexemeStream σ T) : String := LexemeSource.unit s.source

/-- The journal entries for opening a stream over a source. -/
def openingEvents (source : σ) : List Event :=
  let (lexeme, source') := LexemeSource.next source
  LexemeSource.openingEvents source ++ LexemeSource.stepEvents source lexeme source'

/-- The journal entries for one step of a stream. -/
def stepEvents (before after : LexemeStream σ T) : List Event :=
  if before.isAtEnd then []
  else LexemeSource.stepEvents before.source after.lookahead after.source

theorem next_of_isAtEnd {s : LexemeStream σ T} (h : s.isAtEnd = true) :
    s.next = (.endOfInput, s) := by
  simp [next, h]

end

variable [FiniteSource σ T]

/-- An upper bound for the lexemes that are still to come. -/
def remaining (s : LexemeStream σ T) : Nat :=
  if s.isAtEnd then 0 else FiniteSource.remaining s.source + 1

theorem remaining_next_lt {s : LexemeStream σ T} (h : s.isAtEnd = false) :
    s.next.2.remaining < s.remaining := by
  have hlt := FiniteSource.remaining_next_lt s.source
  simp only [next, h, Bool.false_eq_true, if_false, remaining]
  split
  · omega
  · next hne =>
    have := hlt (by intro he; simp [isAtEnd, he, Lexeme.isEnd] at hne)
    omega

/-- All lexemes that are still to come, and the stream after them. -/
def rest (s : LexemeStream σ T) : List (Lexeme T) × LexemeStream σ T :=
  if _h : s.isAtEnd then ([], s)
  else
    let (lexemes, s') := rest s.next.2
    (s.next.1 :: lexemes, s')
termination_by s.remaining
decreasing_by exact remaining_next_lt (by simpa using ‹¬ s.isAtEnd = true›)

/-- All lexemes that are still to come, the journal entries for getting them, and the stream after
them. -/
def drain (s : LexemeStream σ T) : List (Lexeme T) × List Event × LexemeStream σ T :=
  if _h : s.isAtEnd then ([], [], s)
  else
    let (lexemes, events, s') := drain s.next.2
    (s.next.1 :: lexemes, stepEvents s s.next.2 ++ events, s')
termination_by s.remaining
decreasing_by exact remaining_next_lt (by simpa using ‹¬ s.isAtEnd = true›)

theorem rest_eq_drain (s : LexemeStream σ T) : s.rest = (s.drain.1, s.drain.2.2) := by
  fun_induction rest s with
  | case1 s h => simp [drain, h]
  | case2 s h lexemes s' hr ih =>
    rw [drain, dif_neg h]
    simp only [hr, Prod.mk.injEq] at ih
    simp [ih.1, ih.2]

end LexemeStream

end LexFront
