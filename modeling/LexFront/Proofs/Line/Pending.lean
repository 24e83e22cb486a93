import LexFront.Line.Stream
import LexFront.Proofs.Line.Splitting

/-!
# The lines that a stream still has

A stream is known by the lines that are still to come and by the failure after them. Both are
already fixed when the stream is opened, whether the unit is split up front or on demand, so that
whoever proves something about a reader of lines need not know which it is.

Key facts:

* `lines_ofSplitter`, `ending_ofSplitter`: either way the stream has what its splitter has.
* `takes_of_next`: a line that is taken is the first one to come.
* `takeFault_of_lines_nil`: the failure is handed out at the end.
-/

set_option autoImplicit false

namespace LexFront

namespace LineSupply

/-- The lines of a supply. -/
def lines : LineSupply → List Line
  | .eager lines _ => lines
  | .onDemand splitter => splitter.rest.1

/-- The failure that a supply will pass on. A list passes none on, for its stream has it. -/
def fault : LineSupply → Option SplitError
  | .eager _ _ => none
  | .onDemand splitter => splitter.rest.2.fault

end LineSupply

namespace LineStream

/-- The lines that are still to come. -/
def lines (s : LineStream) : List Line := s.lookahead.elim [] (· :: s.supply.lines)

/-- The failure after the last line, if there is one and nobody has asked for it yet. -/
def ending (s : LineStream) : Option SplitError :=
  s.lookahead.elim s.fault fun _ ↦ s.supply.fault.or s.fault

/-- The characters that are still to come. -/
def pending (s : LineStream) : Text := s.lines.flatMap Line.raw

theorem unit_refill (s : LineStream) : s.refill.unit = s.unit := by
  unfold refill
  split
  · rfl
  · rfl
  · split <;> rfl

theorem endLocation_refill (s : LineStream) : s.refill.endLocation = s.endLocation := by
  unfold refill
  split
  · rfl
  · rfl
  · split <;> rfl

/-- Getting the look-ahead moves a line from the supply, and loses none. -/
theorem refill_spec (s : LineStream) :
    s.refill.lines = s.supply.lines ∧ s.refill.ending = s.supply.fault.or s.fault := by
  unfold refill
  split
  · next made h => simp [lines, ending, LineSupply.lines, LineSupply.fault, h]
  · next l ls made h => simp [lines, ending, LineSupply.lines, LineSupply.fault, h]
  · next splitter h =>
    split
    · next l splitter' hn =>
      have hr := Splitter.rest_of_next_some hn
      simp [lines, ending, LineSupply.lines, LineSupply.fault, h, hr]
    · next splitter' hn =>
      have hr := Splitter.rest_of_next_none hn
      simp [lines, ending, LineSupply.lines, LineSupply.fault, h, hr]

theorem unit_ofSplitter (isEager : Bool) (s : Splitter) : (ofSplitter isEager s).unit = s.unit := by
  cases isEager <;> simp [ofSplitter, eager, onDemand, unit_refill]

theorem endLocation_ofSplitter (isEager : Bool) (s : Splitter) :
    (ofSplitter isEager s).endLocation = .start s.unit := by
  cases isEager <;> simp [ofSplitter, eager, onDemand, endLocation_refill]

/-- **A unit has the same lines however it is split.** -/
theorem lines_ofSplitter (isEager : Bool) (s : Splitter) :
    (ofSplitter isEager s).lines = s.rest.1 := by
  cases isEager with
  | true =>
    rw [ofSplitter, if_pos rfl, eager]
    exact (refill_spec _).1
  | false =>
    rw [ofSplitter, if_neg (by simp), onDemand]
    exact (refill_spec _).1

/-- **A unit has the same failure however it is split.** -/
theorem ending_ofSplitter (isEager : Bool) (s : Splitter) :
    (ofSplitter isEager s).ending = s.rest.2.fault := by
  cases isEager with
  | true =>
    rw [ofSplitter, if_pos rfl, eager]
    exact (refill_spec _).2
  | false =>
    rw [ofSplitter, if_neg (by simp), onDemand, (refill_spec _).2]
    simp [LineSupply.fault]

/-- What taking a line does: the line is the first one to come, and the stream ends behind it. -/
structure Takes (s : LineStream) (l : Line) (s' : LineStream) : Prop where
  lines : s.lines = l :: s'.lines
  ending : s'.ending = s.ending
  unit : s'.unit = s.unit
  endLocation : s'.endLocation = l.endLocation

theorem takes_of_next {s s' : LineStream} {l : Line} (h : s.next = some (l, s')) :
    s.Takes l s' := by
  obtain ⟨l', hl, hs⟩ := Option.map_eq_some_iff.1 h
  simp only [Prod.mk.injEq] at hs
  obtain ⟨rfl, rfl⟩ := hs
  obtain ⟨hlines, hending⟩ :=
    refill_spec { s with endLocation := l'.endLocation, consumed := s.consumed + 1 }
  refine ⟨?_, ?_, unit_refill _, endLocation_refill _⟩
  · rw [hlines]
    simp [LineStream.lines, hl]
  · rw [hending]
    simp [LineStream.ending, hl]

theorem next_eq_none_iff {s : LineStream} : s.next = none ↔ s.lines = [] := by
  cases h : s.lookahead <;> simp [next, lines, h]

/-- At the end the failure is handed out, and there is none any more. -/
theorem takeFault_of_lines_nil {s : LineStream} (h : s.lines = []) :
    s.takeFault = (s.ending, { s with fault := none }) := by
  cases hl : s.lookahead with
  | none => simp [takeFault, isAtEnd, hl, ending]
  | some l => simp [lines, hl] at h

end LineStream

end LexFront
