import LexFront.Journal.Event
import LexFront.Lexeme.Basic

/-!
# Sources of lexemes

A source hands out the lexemes of one unit. Of what comes after the first end of the input nothing
is asked. A source is finite if some number gets smaller with every lexeme before that.

`LexemeList` is the source of lexemes that are known beforehand.

Key facts:

* `LexemeList.remaining_next_lt`: a list is a finite source.
-/

set_option autoImplicit false

namespace LexFront

/-- Whatever hands out the lexemes of one unit. -/
class LexemeSource (σ : Type) (T : outParam Type) where
  next : σ → Lexeme T × σ
  /-- The location just past the input read so far. -/
  endLocation : σ → Location
  unit : σ → String
  /-- The journal entries for a source that has just been opened. -/
  openingEvents : σ → List Event := fun _ ↦ []
  /-- The journal entries for one step, from the source before it, the lexeme and the source
  after it. -/
  stepEvents : σ → Lexeme T → σ → List Event := fun _ _ _ ↦ []

/-- A source that comes to an end. -/
class FiniteSource (σ : Type) (T : outParam Type) extends LexemeSource σ T where
  /-- An upper bound for the lexemes before the end of the input. -/
  remaining : σ → Nat
  remaining_next_lt : ∀ s, (next s).1 ≠ .endOfInput → remaining (next s).2 < remaining s

/-- Lexemes that are known beforehand. -/
structure LexemeList (T : Type) where
  unit : String
  pending : List (Lexeme T)
  endLocation : Location

namespace LexemeList

variable {T : Type}

/-- The source of some lexemes; ends of the input among them are left out. -/
def ofList (unit : String) (lexemes : List (Lexeme T)) : LexemeList T :=
  ⟨unit, lexemes.filter (!·.isEnd), .start unit⟩

/-- Tokens with given texts, one after the other. -/
def layOut (start : Location) : List (T × Text) → List (Lexeme T)
  | [] => []
  | (terminal, text) :: rest =>
    let token := Token.covering terminal text text start
    .valid token :: layOut token.span.stop rest

/-- The source of tokens that are laid out one after the other from the start of the unit. -/
def ofPairs (unit : String) (pairs : List (T × Text)) : LexemeList T :=
  ofList unit (layOut (.start unit) pairs)

/-- Hands out the next lexeme. -/
def next (s : LexemeList T) : Lexeme T × LexemeList T :=
  match s.pending with
  | [] => (.endOfInput, s)
  | l :: rest =>
    (l, { s with pending := rest, endLocation := (l.span?.map (·.stop)).getD s.endLocation })

theorem remaining_next_lt (s : LexemeList T) (h : s.next.1 ≠ .endOfInput) :
    s.next.2.pending.length < s.pending.length := by
  cases hp : s.pending with
  | nil => simp [next, hp] at h
  | cons l rest => simp [next, hp]

instance : FiniteSource (LexemeList T) T where
  next := next
  endLocation := endLocation
  unit := unit
  remaining s := s.pending.length
  remaining_next_lt := remaining_next_lt

end LexemeList

end LexFront
