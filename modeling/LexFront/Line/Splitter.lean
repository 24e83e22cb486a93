import LexFront.Journal.Event
import LexFront.Line.Basic
import LexFront.Source.Decoder

/-!
# Splitting a unit into lines

A `Splitter` takes one physical line at a time off a decoder. A line feed, a carriage return and
the pair of both end a line; a last line without a break is a line too, unless it is empty. Reading
stops for good at the end of the input, at a failure of the source, or at a line above its limit.
What was read of the line at hand is still handed out then.

Key facts:

* `remaining_next_lt`: a line handed out uses up input.
* `next_of_done`: a stopped splitter stays stopped.
-/

set_option autoImplicit false

namespace LexFront

namespace Decoder

/-- What ended a line. -/
inductive LineEnd where
  | terminated (t : Terminator)
  /-- A carriage return, and a failure on the look for a line feed after it. -/
  | terminatedThenFault (e : SourceError)
  | exhausted
  | fault (e : SourceError)
  /-- More bytes than there was room for. -/
  | tooLong
  deriving DecidableEq, Repr

/-- What follows a carriage return: a line feed belongs to the same break. -/
def afterReturn (d : Decoder) : LineEnd × Decoder :=
  match d.peek with
  | (.char '\n', d) => (.terminated .crLf, d.next.2)
  | (.fault e, d) => (.terminatedThenFault e, d)
  | (_, d) => (.terminated .cr, d)

/-- Reads the text of one line and what ended it. `room` is the number of bytes that the text may
still have; the character that leaves the room is the last one read. -/
def readLine (room : Nat) (d : Decoder) : Text × LineEnd × Decoder :=
  match _h : d.next with
  | (.exhausted, d') => ([], .exhausted, d')
  | (.fault e, d') => ([], .fault e, d')
  | (.char c, d') =>
    if c = '\n' then ([], .terminated .lf, d')
    else if c = '\r' then ([], d'.afterReturn)
    else if room < c.utf8Size then ([c], .tooLong, d')
    else
      let (text, rest) := readLine (room - c.utf8Size) d'
      (c :: text, rest)
termination_by d.remaining
decreasing_by exact remaining_next_lt ‹_›

/-- How many characters end a line. -/
def LineEnd.length : LineEnd → Nat
  | terminated t => t.text.length
  | terminatedThenFault _ => 1
  | _ => 0

theorem remaining_afterReturn_add_le {d d' : Decoder} (h : d'.remaining < d.remaining) :
    d'.afterReturn.1.length + d'.afterReturn.2.remaining ≤ d.remaining := by
  have hp := remaining_peek_le d'
  simp only [afterReturn]
  split
  · next d₁ h₁ =>
    have hc := peeked_of_peek_char h₁
    rw [h₁] at hp
    simp only at hp
    have hn := @remaining_next_lt d₁ { d₁ with peeked := none } '\n' (by simp [next, hc])
    have hd : d₁.next.2 = { d₁ with peeked := none } := by simp [next, hc]
    rw [hd]
    simp only [LineEnd.length, Terminator.text, List.length_cons, List.length_nil]
    omega
  · next h₁ =>
    rw [h₁] at hp
    simp only at hp
    simp only [LineEnd.length]
    omega
  · next h₁ =>
    simp only [h₁] at hp
    simp only [LineEnd.length, Terminator.text, List.length_cons, List.length_nil]
    omega

/-- All characters of a line and of its break are taken off the input. -/
theorem remaining_readLine_add_le (room : Nat) (d : Decoder) :
    (d.readLine room).1.length + (d.readLine room).2.1.length +
      (d.readLine room).2.2.remaining ≤ d.remaining := by
  fun_induction readLine room d with
  | case1 _ d d' h => simpa [h, LineEnd.length] using remaining_next_le d
  | case2 _ d e d' h => simpa [h, LineEnd.length] using remaining_next_le d
  | case3 _ d d' h =>
    have := remaining_next_lt h
    simp only [LineEnd.length, Terminator.text, List.length_cons, List.length_nil]
    omega
  | case4 _ d d' h _ =>
    have := remaining_afterReturn_add_le (remaining_next_lt h)
    simp only [List.length_nil]
    omega
  | case5 _ d c d' h _ _ _ =>
    have := remaining_next_lt h
    simp only [LineEnd.length, List.length_cons, List.length_nil]
    omega
  | case6 _ d c d' h _ _ _ text rest hr ih =>
    have := remaining_next_lt h
    rw [hr] at ih
    simp only at ih
    simp only [List.length_cons]
    omega

/-- The break that ends a line is one. -/
theorem end_readLine_ne (room : Nat) (d : Decoder) :
    (d.readLine room).2.1 ≠ .terminated .none := by
  fun_induction readLine room d with
  | case4 _ d d' h _ => simp only [afterReturn]; split <;> simp
  | case6 _ d c d' h _ _ _ text rest hr ih => rwa [hr] at ih
  | _ => simp

end Decoder

/-- A splitter in the middle of its unit. -/
structure Splitter where
  unit : String
  decoder : Decoder
  /-- The number of the next line. -/
  line : Nat := 1
  /-- The most bytes that the text of one line may have. -/
  limit : Nat := Limits.lineLength
  /-- How many lines have been handed out. -/
  emitted : Nat := 0
  /-- Why reading stopped early, until somebody asks. -/
  fault : Option SplitError := none
  done : Bool := false
  deriving DecidableEq, Repr

namespace Splitter

/-- An upper bound for the lines that are still to come. -/
def remaining (s : Splitter) : Nat := s.decoder.remaining

/-- The splitter after a line that a break ended. -/
def afterLine (s : Splitter) (d : Decoder) : Splitter :=
  { s with decoder := d, line := s.line + 1, emitted := s.emitted + 1 }

/-- The splitter after its last line, which counts if it is not empty. -/
def stop (s : Splitter) (d : Decoder) (text : Text) (fault : Option SplitError) : Splitter :=
  { s with
    decoder := d
    emitted := if text.isEmpty then s.emitted else s.emitted + 1
    fault := fault
    done := true }

/-- The last line, if anything was read of it. -/
def lastLine? (location : Location) (text : Text) : Option Line :=
  if text.isEmpty then none else some ⟨location, text, .none⟩

/-- Hands out the next line. -/
def next (s : Splitter) : Option Line × Splitter :=
  if s.done then (none, s)
  else
    let location : Location := ⟨s.unit, s.line, 1⟩
    match s.decoder.readLine s.limit with
    | (text, .terminated t, d) => (some ⟨location, text, t⟩, s.afterLine d)
    | (text, .terminatedThenFault e, d) =>
      (some ⟨location, text, .cr⟩, { s.afterLine d with fault := some (.source e), done := true })
    | (text, .exhausted, d) => (lastLine? location text, s.stop d text none)
    | (text, .fault e, d) => (lastLine? location text, s.stop d text (some (.source e)))
    | (text, .tooLong, d) =>
      (lastLine? location text, s.stop d text (some (.lineTooLong s.line s.limit)))

theorem next_of_done {s : Splitter} (h : s.done = true) : s.next = (none, s) := by
  simp [next, h]

theorem remaining_next_le (s : Splitter) : s.next.2.remaining ≤ s.remaining := by
  have h := Decoder.remaining_readLine_add_le s.limit s.decoder
  simp only [next]
  split
  · exact Nat.le_refl _
  · split <;> next hr =>
      simp only [hr] at h
      simp only [remaining, afterLine, stop]
      omega

/-- A line is not empty, and its characters are taken off the input. -/
theorem remaining_next_add_le {s s' : Splitter} {l : Line} (h : s.next = (some l, s')) :
    l.raw ≠ [] ∧ l.raw.length + s'.remaining ≤ s.remaining := by
  have hr := Decoder.remaining_readLine_add_le s.limit s.decoder
  simp only [next] at h
  split at h
  · simp at h
  · split at h
    · next t d hd =>
      simp only [Prod.mk.injEq, Option.some.injEq] at h
      obtain ⟨rfl, rfl⟩ := h
      simp only [hd, Decoder.LineEnd.length] at hr
      refine ⟨?_, by simpa [Line.raw, remaining, afterLine] using hr⟩
      have hne := Decoder.end_readLine_ne s.limit s.decoder
      simp only [hd] at hne
      cases t <;> simp_all [Line.raw, Terminator.text]
    · next hd =>
      simp only [Prod.mk.injEq, Option.some.injEq] at h
      obtain ⟨rfl, rfl⟩ := h
      simp only [hd, Decoder.LineEnd.length] at hr
      exact ⟨by simp [Line.raw, Terminator.text],
        by simpa [Line.raw, Terminator.text, remaining, afterLine] using hr⟩
    all_goals
      next hd =>
        simp only [Prod.mk.injEq, lastLine?] at h
        obtain ⟨hl, rfl⟩ := h
        simp only [hd, Decoder.LineEnd.length] at hr
        split at hl
        · simp at hl
        · next hne =>
          simp only [Option.some.injEq] at hl
          subst hl
          exact ⟨by simpa [Line.raw, Terminator.text] using hne,
            by simpa [Line.raw, Terminator.text, remaining, stop] using hr⟩

theorem remaining_next_lt {s s' : Splitter} {l : Line} (h : s.next = (some l, s')) :
    s'.remaining < s.remaining := by
  obtain ⟨hne, hle⟩ := remaining_next_add_le h
  have := List.length_pos_iff.2 hne
  omega

/-- Why reading stopped early; the question is answered once. -/
def takeFault (s : Splitter) : Option SplitError × Splitter := (s.fault, { s with fault := none })

/-- All lines that are still to come, and the splitter after them. -/
def rest (s : Splitter) : List Line × Splitter :=
  match _h : s.next with
  | (none, s') => ([], s')
  | (some l, s') =>
    let (ls, s'') := rest s'
    (l :: ls, s'')
termination_by s.remaining
decreasing_by exact remaining_next_lt ‹_›

/-! ### What the journal is told -/

/-- The entry for the end of splitting. -/
def stoppedEvent (unit : String) (emitted : Nat) (faulted : Bool) : Event :=
  (Event.debug "Term splitter stopped").withContext
    [("unit", unit), ("terms", toString emitted), ("faulted", toString faulted)]

/-- The entry for a unit that was split from beginning to end. -/
def completeEvent (unit : String) (lines bytes : Nat) : Event :=
  (Event.success .splittingComplete "Term splitting complete").withContext
    [("unit", unit), ("terms", toString lines), ("bytes", toString bytes)]

/-- The entry for a unit that was only split in part. -/
def cutShortEvent (unit : String) (lines : Nat) (e : SplitError) : Event :=
  (Event.error e.code "Term splitting stopped early").withContext
    [("unit", unit), ("terms", toString lines), ("error", e.message)]

/-- The entries for a unit that was split all at once, from the splitter after its last line. -/
def closingEvents (s : Splitter) : List Event :=
  [stoppedEvent s.unit s.emitted s.fault.isSome,
    match s.fault with
    | none => completeEvent s.unit s.emitted s.decoder.offset
    | some e => cutShortEvent s.unit s.emitted e]

end Splitter

end LexFront
