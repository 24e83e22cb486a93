import LexFront.Line.Splitter

/-!
# The lines of a unit, one after the other

A `LineStream` hands out the lines of a unit in order, with one line of look-ahead. The unit is
split either up front or on demand; nobody who reads the stream can tell which. Because of the
look-ahead `isAtEnd` turns true right after the last line is taken.

Key facts:

* `remaining_next_add_le`: the characters of a line that is taken are no longer to come.
-/

set_option autoImplicit false

namespace LexFront

/-- Where further lines come from: a list, or a splitter that still has to read them. The list
keeps the splitter that made it. -/
inductive LineSupply where
  | eager (lines : List Line) (made : Splitter)
  | onDemand (splitter : Splitter)
  deriving DecidableEq, Repr

/-- The lines of a unit, in the middle of being read. -/
structure LineStream where
  unit : String
  supply : LineSupply
  lookahead : Option Line
  /-- The location just past the last line taken. -/
  endLocation : Location
  /-- How many lines have been taken. -/
  consumed : Nat := 0
  /-- Why the unit was cut short, until somebody asks. -/
  fault : Option SplitError := none
  deriving DecidableEq, Repr

namespace LineStream

/-- Gets the line after the look-ahead. A splitter that has no more lines passes its fault on. -/
def refill (s : LineStream) : LineStream :=
  match s.supply with
  | .eager [] made => { s with lookahead := none, supply := .eager [] made }
  | .eager (l :: ls) made => { s with lookahead := some l, supply := .eager ls made }
  | .onDemand splitter =>
    -- A fault travels only with the end of the lines, never with a line.
    match splitter.next with
    | (some l, splitter) => { s with lookahead := some l, supply := .onDemand splitter }
    | (none, splitter) =>
      { s with
        lookahead := none
        supply := .onDemand { splitter with fault := none }
        fault := splitter.fault.or s.fault }

/-- Splits the whole unit before the first line is handed out. -/
def eager (splitter : Splitter) : LineStream :=
  let (lines, made) := splitter.rest
  refill {
    unit := splitter.unit
    supply := .eager lines made
    lookahead := none
    endLocation := .start splitter.unit
    fault := made.fault }

/-- Splits on demand, one line ahead of the reader. -/
def onDemand (splitter : Splitter) : LineStream :=
  refill {
    unit := splitter.unit
    supply := .onDemand splitter
    lookahead := none
    endLocation := .start splitter.unit }

/-- The lines of a splitter's unit, read in one of the two ways. -/
def ofSplitter (isEager : Bool) (splitter : Splitter) : LineStream :=
  if isEager then eager splitter else onDemand splitter

/-- Whether the unit was split up front. -/
def isEager (s : LineStream) : Bool :=
  match s.supply with
  | .eager _ _ => true
  | .onDemand _ => false

/-- Takes the next line. -/
def next (s : LineStream) : Option (Line × LineStream) :=
  s.lookahead.map fun l ↦
    (l, refill { s with endLocation := l.endLocation, consumed := s.consumed + 1 })

/-- Looks at the next line. -/
def peek (s : LineStream) : Option Line := s.lookahead

/-- Whether every line has been taken. -/
def isAtEnd (s : LineStream) : Bool := s.lookahead.isNone

/-- Why the unit was cut short. There is an answer once, and only at the end. -/
def takeFault (s : LineStream) : Option SplitError × LineStream :=
  if s.isAtEnd then (s.fault, { s with fault := none }) else (none, s)

/-! ### Reading comes to an end -/

/-- What a line counts for: its characters and itself. -/
def weight (l : Line) : Nat := l.raw.length + 1

/-- An upper bound for the lines and characters that a supply still has. -/
def supplied : LineSupply → Nat
  | .eager lines _ => lines.foldr (weight · + ·) 0
  | .onDemand splitter => 2 * splitter.remaining

/-- An upper bound for the lines and characters that are still to come. -/
def remaining (s : LineStream) : Nat := supplied s.supply + s.lookahead.elim 0 weight

theorem remaining_refill_le (s : LineStream) : s.refill.remaining ≤ supplied s.supply := by
  unfold refill
  cases s.supply with
  | eager lines made =>
    cases lines <;> simp [remaining, supplied, Nat.add_comm]
  | onDemand splitter =>
    simp only
    split
    · next h =>
      obtain ⟨hne, hle⟩ := Splitter.remaining_next_add_le h
      have := List.length_pos_iff.2 hne
      simp only [remaining, supplied, Option.elim_some, weight]
      omega
    · next splitter' h =>
      have := Splitter.remaining_next_le splitter
      rw [h] at this
      simp only [Splitter.remaining] at this
      simp only [remaining, supplied, Splitter.remaining, Option.elim_none]
      omega

/-- The characters of a line that is taken are no longer to come. -/
theorem remaining_next_add_le {s s' : LineStream} {l : Line} (h : s.next = some (l, s')) :
    weight l + s'.remaining ≤ s.remaining := by
  obtain ⟨l', hl, hs⟩ := Option.map_eq_some_iff.1 h
  simp only [Prod.mk.injEq] at hs
  obtain ⟨rfl, rfl⟩ := hs
  have := remaining_refill_le
    { s with endLocation := l'.endLocation, consumed := s.consumed + 1 }
  simp only [remaining, hl, Option.elim_some] at this ⊢
  omega

theorem remaining_next_lt {s s' : LineStream} {l : Line} (h : s.next = some (l, s')) :
    s'.remaining < s.remaining := by
  have := remaining_next_add_le h
  simp only [weight] at this
  omega

/-- All lines that are still to come, and the stream after them. -/
def rest (s : LineStream) : List Line × LineStream :=
  match _h : s.next with
  | none => ([], s)
  | some (l, s') =>
    let (ls, s'') := rest s'
    (l :: ls, s'')
termination_by s.remaining
decreasing_by exact remaining_next_lt ‹_›

/-! ### What the journal is told -/

/-- The entry for a splitter that stopped, as seen from its stream. -/
def stoppedEvent (s : LineStream) (splitter : Splitter) : Event :=
  Splitter.stoppedEvent s.unit splitter.emitted (s.fault.isSome || splitter.fault.isSome)

/-- The entries for opening a stream, from the stream as it is then. -/
def openingEvents (s : LineStream) : List Event :=
  match s.supply with
  | .eager _ made => made.closingEvents
  | .onDemand splitter => if splitter.done then [s.stoppedEvent splitter] else []

/-- The entries for a stretch of reading, from the stream before and after. -/
def readingEvents (before after : LineStream) : List Event :=
  match before.supply, after.supply with
  | .onDemand splitter, .onDemand splitter' =>
    if !splitter.done && splitter'.done then [after.stoppedEvent splitter'] else []
  | _, _ => []

end LineStream

end LexFront
