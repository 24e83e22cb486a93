import LexFront.Proofs.Line.Pending

/-!
# Splitting up front and on demand

A stream of lines answers its reader from a list that was made beforehand, or from a splitter that
runs one line ahead. The two keep their failure in different places: the list's stream has it from
the start and holds it back, the other learns of it only on the look for a line behind the last one.
Nobody can tell, whatever is asked and in whatever order.

What carries the proof is the relation `Alike`: the same lines and the same failure are still to
come. It says nothing about where they come from, so that it holds of the two streams when they are
opened, and every question leaves it as it was.

Key facts:

* `alike_ofSplitter`: both ways of splitting have the same to come.
* `Alike.ask`: streams that have the same to come give the same answer, and go on to do so.
-/

set_option autoImplicit false

namespace LexFront

namespace LineStream

/-- What may be asked of a stream. -/
inductive Query where
  | next
  | peek
  | isAtEnd
  | takeFault
  | endLocation
  | consumed
  deriving DecidableEq, Repr

/-- What a stream answers. -/
inductive Answer where
  | line (l : Option Line)
  | atEnd (b : Bool)
  | fault (e : Option SplitError)
  | location (l : Location)
  | count (n : Nat)
  deriving DecidableEq, Repr

/-- Asks one question. -/
def ask (s : LineStream) : Query → Answer × LineStream
  | .next =>
    match s.next with
    | some (l, s') => (.line (some l), s')
    | none => (.line none, s)
  | .peek => (.line s.peek, s)
  | .isAtEnd => (.atEnd s.isAtEnd, s)
  | .takeFault => (.fault s.takeFault.1, s.takeFault.2)
  | .endLocation => (.location s.endLocation, s)
  | .consumed => (.count s.consumed, s)

/-- Asks some questions, one after the other. -/
def askAll (s : LineStream) : List Query → List Answer × LineStream
  | [] => ([], s)
  | q :: qs => ((s.ask q).1 :: ((s.ask q).2.askAll qs).1, ((s.ask q).2.askAll qs).2)

/-- Two streams have the same to come, and the same behind them. -/
structure Alike (s s' : LineStream) : Prop where
  unit : s'.unit = s.unit
  lines : s'.lines = s.lines
  ending : s'.ending = s.ending
  endLocation : s'.endLocation = s.endLocation
  consumed : s'.consumed = s.consumed

theorem consumed_refill (s : LineStream) : s.refill.consumed = s.consumed := by
  unfold refill
  split
  · rfl
  · rfl
  · split <;> rfl

theorem consumed_of_next {s s' : LineStream} {l : Line} (h : s.next = some (l, s')) :
    s'.consumed = s.consumed + 1 := by
  obtain ⟨l', -, hs⟩ := Option.map_eq_some_iff.1 h
  simp only [Prod.mk.injEq] at hs
  rw [← hs.2, consumed_refill]

theorem consumed_ofSplitter (isEager : Bool) (s : Splitter) :
    (ofSplitter isEager s).consumed = 0 := by
  cases isEager <;> simp [ofSplitter, eager, onDemand, consumed_refill]

/-- **Both ways of splitting have the same to come.** -/
theorem alike_ofSplitter (isEager isEager' : Bool) (s : Splitter) :
    (ofSplitter isEager s).Alike (ofSplitter isEager' s) where
  unit := by rw [unit_ofSplitter, unit_ofSplitter]
  lines := by rw [lines_ofSplitter, lines_ofSplitter]
  ending := by rw [ending_ofSplitter, ending_ofSplitter]
  endLocation := by rw [endLocation_ofSplitter, endLocation_ofSplitter]
  consumed := by rw [consumed_ofSplitter, consumed_ofSplitter]

/-- The look-ahead is the first of the lines to come. -/
theorem peek_eq_head? (s : LineStream) : s.peek = s.lines.head? := by
  cases h : s.lookahead <;> simp [peek, lines, h]

theorem isAtEnd_eq_isEmpty (s : LineStream) : s.isAtEnd = s.lines.isEmpty := by
  cases h : s.lookahead <;> simp [isAtEnd, lines, h]

/-- A failure is not handed out, and not lost, before the end. -/
theorem takeFault_of_lines_ne_nil {s : LineStream} (h : s.lines ≠ []) :
    s.takeFault = (none, s) := by
  rw [takeFault, isAtEnd_eq_isEmpty, if_neg (by simpa using h)]

namespace Alike

variable {s s' : LineStream}

/-- Streams that have the same to come hand out the same line, or both have none. -/
theorem next (h : s.Alike s') :
    s.next = none ∧ s'.next = none ∨
      ∃ l t t', s.next = some (l, t) ∧ s'.next = some (l, t') ∧ t.Alike t' := by
  cases hn : s.next with
  | none =>
    refine .inl ⟨rfl, next_eq_none_iff.2 ?_⟩
    rw [h.lines]
    exact next_eq_none_iff.1 hn
  | some p =>
    obtain ⟨l, t⟩ := p
    have ht := takes_of_next hn
    cases hn' : s'.next with
    | none =>
      have hnil := next_eq_none_iff.1 hn'
      rw [h.lines, ht.lines] at hnil
      cases hnil
    | some p' =>
      obtain ⟨l', t'⟩ := p'
      have ht' := takes_of_next hn'
      have hlines : l' :: t'.lines = l :: t.lines := by rw [← ht'.lines, ← ht.lines, h.lines]
      obtain ⟨rfl, hrest⟩ := List.cons.inj hlines
      refine .inr ⟨l', t, t', rfl, rfl, ?_⟩
      exact {
        unit := by rw [ht'.unit, ht.unit, h.unit]
        lines := hrest
        ending := by rw [ht'.ending, ht.ending, h.ending]
        endLocation := by rw [ht'.endLocation, ht.endLocation]
        consumed := by rw [consumed_of_next hn', consumed_of_next hn, h.consumed] }

/-- Streams that have the same to come hand out the same failure, at the end and only there. -/
theorem takeFault (h : s.Alike s') :
    s'.takeFault.1 = s.takeFault.1 ∧ s.takeFault.2.Alike s'.takeFault.2 := by
  by_cases hs : s.lines = []
  · have hs' : s'.lines = [] := h.lines.trans hs
    rw [takeFault_of_lines_nil hs, takeFault_of_lines_nil hs']
    refine ⟨h.ending, h.unit, h.lines, ?_, h.endLocation, h.consumed⟩
    -- Behind the end there is only the failure, which is gone now.
    have hgone : ∀ t : LineStream, t.lines = [] → ({ t with fault := none } : LineStream).ending
        = none := by
      intro t ht
      cases hl : t.lookahead with
      | none => simp [LineStream.ending]
      | some l => simp [LineStream.lines, hl] at ht
    rw [hgone s' hs', hgone s hs]
  · have hs' : s'.lines ≠ [] := fun hnil ↦ hs (h.lines.symm.trans hnil)
    rw [takeFault_of_lines_ne_nil hs, takeFault_of_lines_ne_nil hs']
    exact ⟨rfl, h⟩

/-- **Streams that have the same to come give the same answer**, and go on to do so. -/
theorem ask (h : s.Alike s') (q : Query) :
    (s'.ask q).1 = (s.ask q).1 ∧ (s.ask q).2.Alike (s'.ask q).2 := by
  cases q with
  | next =>
    rcases h.next with ⟨hn, hn'⟩ | ⟨l, t, t', hn, hn', ht⟩
    · simp only [LineStream.ask, hn, hn']
      exact ⟨trivial, h⟩
    · simp only [LineStream.ask, hn, hn']
      exact ⟨trivial, ht⟩
  | peek =>
    refine ⟨?_, h⟩
    show Answer.line s'.peek = Answer.line s.peek
    rw [peek_eq_head?, peek_eq_head?, h.lines]
  | isAtEnd =>
    refine ⟨?_, h⟩
    show Answer.atEnd s'.isAtEnd = Answer.atEnd s.isAtEnd
    rw [isAtEnd_eq_isEmpty, isAtEnd_eq_isEmpty, h.lines]
  | takeFault =>
    obtain ⟨hfault, hrest⟩ := h.takeFault
    exact ⟨congrArg Answer.fault hfault, hrest⟩
  | endLocation => exact ⟨congrArg Answer.location h.endLocation, h⟩
  | consumed => exact ⟨congrArg Answer.count h.consumed, h⟩

/-- So they answer a whole conversation. -/
theorem askAll (h : s.Alike s') (qs : List Query) :
    (s'.askAll qs).1 = (s.askAll qs).1 ∧ (s.askAll qs).2.Alike (s'.askAll qs).2 := by
  induction qs generalizing s s' with
  | nil => exact ⟨rfl, h⟩
  | cons q qs ih =>
    obtain ⟨hanswer, hrest⟩ := h.ask q
    obtain ⟨hanswers, hend⟩ := ih hrest
    refine ⟨?_, hend⟩
    show (s'.ask q).1 :: _ = (s.ask q).1 :: _
    rw [hanswer, hanswers]

end Alike

end LineStream

end LexFront
