import LexFront.Text.Basic

/-!
# Locations and spans

A location names a unit, a line and a column, both counted from 1; columns count characters. A
span is the stretch from one location to another.

The lexer moves its location with `advance`, which always has an answer. Lines and columns are
32-bit numbers to everybody else, so the checked forms (`new?`, `nextLine?`, `nextColumn?`,
`advance?`) refuse a location that is not 1-based or does not fit.

Key facts:

* `advance_eq_of_advance?`: where the checked move answers, the plain one gives the same location.
* `unit_advance`: moving never leaves the unit.
-/

set_option autoImplicit false

namespace LexFront

/-- Why a location or a span does not exist. -/
inductive LocationError where
  | notOneBased
  | overflow
  | reversedSpan
  deriving DecidableEq, Repr

namespace LocationError

/-- The wording of each cause. -/
def message : LocationError → String
  | notOneBased => "locations are 1-based"
  | overflow => "attempt to add with overflow"
  | reversedSpan => "Span start must not be after end"

end LocationError

/-- A position in a unit. -/
structure Location where
  unit : String
  line : Nat
  column : Nat
  deriving DecidableEq, Repr

namespace Location

/-- The largest line or column number. -/
def maxOrdinal : Nat := 4294967295

/-- A location that is 1-based. -/
def new? (unit : String) (line column : Nat) : Except LocationError Location :=
  if 1 ≤ line ∧ 1 ≤ column then .ok ⟨unit, line, column⟩ else .error .notOneBased

/-- The first character of a unit. -/
def start (unit : String) : Location := ⟨unit, 1, 1⟩

/-- The first column of the following line. -/
def nextLine (l : Location) : Location := { l with line := l.line + 1, column := 1 }

/-- Past one character of the same line. -/
def nextColumn (l : Location) : Location := { l with column := l.column + 1 }

/-- The following line, if its number fits. -/
def nextLine? (l : Location) : Except LocationError Location :=
  if l.line < maxOrdinal then .ok l.nextLine else .error .overflow

/-- The following column, if its number fits. -/
def nextColumn? (l : Location) : Except LocationError Location :=
  if l.column < maxOrdinal then .ok l.nextColumn else .error .overflow

/-- Where reading a text from here ends. A line feed, a carriage return and the pair of both are
one line break each. -/
def advance (l : Location) : Text → Location
  | [] => l
  | '\r' :: '\n' :: rest => l.nextLine.advance rest
  | c :: rest =>
    if Text.isLineBreak c then l.nextLine.advance rest else l.nextColumn.advance rest

/-- Like `advance`, but each single step has to fit. -/
def advance? (l : Location) : Text → Except LocationError Location
  | [] => .ok l
  | '\r' :: '\n' :: rest => do (← l.nextLine?).advance? rest
  | c :: rest => do
    if Text.isLineBreak c then (← l.nextLine?).advance? rest
    else (← l.nextColumn?).advance? rest

theorem nextLine_eq_of_nextLine? {l m : Location} (h : l.nextLine? = .ok m) : l.nextLine = m := by
  simp only [nextLine?] at h
  split at h <;> simp_all

theorem nextColumn_eq_of_nextColumn? {l m : Location} (h : l.nextColumn? = .ok m) :
    l.nextColumn = m := by
  simp only [nextColumn?] at h
  split at h <;> simp_all

theorem advance_eq_of_advance? {l m : Location} {t : Text} (h : l.advance? t = .ok m) :
    l.advance t = m := by
  fun_induction advance? l t with
  | case1 => simpa [advance] using h
  | case2 l rest ih =>
    cases hn : l.nextLine? with
    | error e => simp [hn, bind, Except.bind] at h
    | ok n =>
      simp only [hn, bind, Except.bind] at h
      rw [advance, nextLine_eq_of_nextLine? hn]
      exact ih n h
  | case3 l c rest hne hc ih =>
    cases hn : l.nextLine? with
    | error e => simp [hn, bind, Except.bind] at h
    | ok n =>
      simp only [hn, bind, Except.bind] at h
      rw [advance, if_pos hc, nextLine_eq_of_nextLine? hn]
      · exact ih n h
      · exact hne
  | case4 l c rest hne hc ih =>
    cases hn : l.nextColumn? with
    | error e => simp [hn, bind, Except.bind] at h
    | ok n =>
      simp only [hn, bind, Except.bind] at h
      rw [advance, if_neg hc, nextColumn_eq_of_nextColumn? hn]
      · exact ih n h
      · exact hne

@[simp] theorem unit_advance (l : Location) (t : Text) : (l.advance t).unit = l.unit := by
  fun_induction advance l t <;> simp_all [nextLine, nextColumn]

/-- Locations are ordered by line, then by column, then by the name of the unit. -/
def compare (a b : Location) : Ordering :=
  (Ord.compare a.line b.line).then
    ((Ord.compare a.column b.column).then (Ord.compare a.unit b.unit))

/-- Whether the first location is not after the second. -/
def notAfter (a b : Location) : Bool := (compare a b).isLE

/-- The earlier of two locations, the first of two equal ones. -/
def earlier (a b : Location) : Location := if notAfter a b then a else b

/-- The later of two locations, the second of two equal ones. -/
def later (a b : Location) : Location := if notAfter a b then b else a

/-- Line and column with a hyphen between them. -/
def render (l : Location) : String := s!"{l.line}-{l.column}"

end Location

/-- A stretch of a unit; `stop` is the location just past its last character. -/
structure Span where
  start : Location
  stop : Location
  deriving DecidableEq, Repr

namespace Span

/-- A span whose start is not after its end. -/
def new? (start stop : Location) : Except LocationError Span :=
  if Location.notAfter start stop then .ok ⟨start, stop⟩ else .error .reversedSpan

/-- The span between two locations given in either order. -/
def ordered (a b : Location) : Span := if Location.notAfter a b then ⟨a, b⟩ else ⟨b, a⟩

/-- The empty span at a location. -/
def point (l : Location) : Span := ⟨l, l⟩

/-- The span of a text that starts at `start`. -/
def covering (start : Location) (t : Text) : Span := ⟨start, start.advance t⟩

/-- The span of a text that starts at `start`, if its end fits. -/
def covering? (start : Location) (t : Text) : Except LocationError Span := do
  return ⟨start, ← start.advance? t⟩

/-- The smallest span that covers both. -/
def merge (a b : Span) : Span :=
  ⟨Location.earlier a.start b.start, Location.later a.stop b.stop⟩

/-- A span without characters. -/
def isEmpty (s : Span) : Bool := s.start == s.stop

/-- The unit of a span is that of its start. -/
def unit (s : Span) : String := s.start.unit

/-- Both ends, line before column. -/
def render (s : Span) : String :=
  s!"{s.start.line}:{s.start.column}-{s.stop.line}:{s.stop.column}"

end Span

end LexFront
