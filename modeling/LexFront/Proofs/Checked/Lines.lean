import LexFront.Proofs.Checked.Slices
import LexFront.Proofs.Line.Pending

/-!
# Checked lines

Reading lines with every step checked: a character is looked for in a buffer of four bytes, the
location of a line has to be 1-based, and the number of the next line has to fit, as does the
location behind a line. The decoder is never refused a step. A splitter is not as long as its lines
can be numbered, and that many lines are more than a unit can have.

A checked reader that answers gives the answer of the plain one, numbers or no numbers
(`Checked.Refines`). So whoever reads to the end with it gets there.

Key facts:

* `Decoder.readLine?_eq`: a line is read.
* `Splitter.HasNumbers.next`: as long as there are numbers for the lines, there are after a line.
* `LineStream.HasNumbers.next`: a line is taken.
-/

set_option autoImplicit false

namespace LexFront

namespace Checked

/-- The first `n` elements. -/
def take? {α : Type} (xs : List α) (n : Nat) : Checked (List α) :=
  if n ≤ xs.length then .ok (xs.take n) else .error .slice

/-- A computation that gives no other answer than this one, if it gives any. -/
def Refines {α : Type} (c : Checked α) (a : α) : Prop := ∀ b, c = .ok b → b = a

theorem refines_ok {α : Type} (a : α) : Refines (.ok a) a := fun _ h ↦ (Except.ok.inj h).symm

theorem refines_error {α : Type} (e : Panic) (a : α) : Refines (.error e) a :=
  fun _ h ↦ by cases h

theorem Refines.bind {α β : Type} {c : Checked α} {a : α} {f : α → Checked β} {b : β}
    (hc : c.Refines a) (hf : (f a).Refines b) : (c >>= f).Refines b := by
  cases c with
  | error e => exact refines_error e b
  | ok a' =>
    obtain rfl := hc a' rfl
    exact hf

/-- A step that needs a location refines one that does not, if the location is the right one. -/
theorem refines_locate {α : Type} {r : Except LocationError α} {a : α}
    (h : ∀ b, r = .ok b → b = a) : (locate r).Refines a := by
  cases r with
  | ok b => exact h b rfl ▸ refines_ok b
  | error e => exact refines_error _ a

end Checked

open Checked

/-! ### Characters -/

namespace Utf8

theorem width_le_four (first : UInt8) : width first ≤ 4 := by
  unfold width
  repeat' split
  all_goals omega

/-- The four bytes in which the bytes of a character are gathered. -/
def buffer (first : UInt8) (tail : List UInt8) : List UInt8 :=
  first :: (tail ++ List.replicate 3 0).take 3

theorem take?_buffer (first : UInt8) {tail : List UInt8} (h : tail.length ≤ 3) :
    take? (buffer first tail) (tail.length + 1) = .ok (first :: tail) := by
  have hlength : tail.length + 1 ≤ (buffer first tail).length := by
    simp only [buffer, List.length_cons, List.length_take, List.length_append,
      List.length_replicate]
    omega
  rw [take?, if_pos hlength, buffer, List.take_succ_cons, List.take_take, Nat.min_eq_left h,
    List.take_left]

end Utf8

namespace Decoder

/-- Takes the bytes of one character, which are looked at as a part of the buffer. -/
def decodeOne? (d : Decoder) : Checked (Reading × Decoder) :=
  match d.readByte with
  | (.exhausted, d') => .ok (.exhausted, d')
  | (.fault e, d') => .ok (.fault e, d')
  | (.byte first, d') =>
    match Utf8.width first with
    | 0 => .ok (.fault (.invalidEncoding d.offset), d')
    | n + 1 =>
      match d'.readBytes n with
      | (.error e, d'') => .ok (.fault e, d'')
      | (.ok tail, d'') =>
        if tail.length = n then do
          let sequence ← take? (Utf8.buffer first tail) (n + 1)
          match Utf8.decode? sequence with
          | some c => return (.char c, d'')
          | none => return (.fault (.invalidEncoding d.offset), d'')
        else .ok (.fault (.invalidEncoding d.offset), d'')

theorem decodeOne?_eq (d : Decoder) : d.decodeOne? = .ok d.decodeOne := by
  rw [decodeOne?, decodeOne]
  generalize d.readByte = r
  obtain ⟨first | _ | e, d'⟩ := r
  · have hwidth := Utf8.width_le_four first
    simp only
    generalize Utf8.width first = width at hwidth
    cases width with
    | zero => rfl
    | succ n =>
      simp only
      generalize d'.readBytes n = r
      obtain ⟨e | tail, d''⟩ := r
      · rfl
      · by_cases hlength : tail.length = n
        · subst hlength
          simp only [if_pos, Utf8.take?_buffer first (Nat.le_of_succ_le_succ hwidth), ok_bind]
          cases Utf8.decode? (first :: tail) <;> rfl
        · simp only [if_neg hlength]
  · rfl
  · rfl

/-- Reads past the look-ahead, and not at all after a failure. -/
def decode? (d : Decoder) : Checked (Reading × Decoder) :=
  if d.failed then .ok (.exhausted, d)
  else do
    match ← d.decodeOne? with
    | (.fault e, d') => return (.fault e, { d' with failed := true })
    | r => return r

theorem decode?_eq (d : Decoder) : d.decode? = .ok d.decode := by
  rw [decode?, decode, decodeOne?_eq, ok_bind]
  split
  · rfl
  · generalize d.decodeOne = r
    obtain ⟨c | _ | e, d'⟩ := r <;> rfl

/-- Hands out the next character. -/
def next? (d : Decoder) : Checked (Reading × Decoder) :=
  match d.peeked with
  | some c => .ok (.char c, { d with peeked := none })
  | none => d.decode?

theorem next?_eq (d : Decoder) : d.next? = .ok d.next := by
  rw [next?, next, decode?_eq]
  cases d.peeked <;> rfl

/-- Looks at the next character. -/
def peek? (d : Decoder) : Checked (Reading × Decoder) :=
  match d.peeked with
  | some c => .ok (.char c, d)
  | none => do
    match ← d.decode? with
    | (.char c, d') => return (.char c, { d' with peeked := some c })
    | r => return r

theorem peek?_eq (d : Decoder) : d.peek? = .ok d.peek := by
  rw [peek?, peek, decode?_eq, ok_bind]
  cases d.peeked with
  | some c => rfl
  | none =>
    generalize d.decode = r
    obtain ⟨c | _ | e, d'⟩ := r <;> rfl

/-- What follows a carriage return. -/
def afterReturn? (d : Decoder) : Checked (LineEnd × Decoder) := do
  match ← d.peek? with
  | (.char '\n', d) =>
    let (_, d) ← d.next?
    return (.terminated .crLf, d)
  | (.fault e, d) => return (.terminatedThenFault e, d)
  | (_, d) => return (.terminated .cr, d)

theorem afterReturn?_eq (d : Decoder) : d.afterReturn? = .ok d.afterReturn := by
  fun_cases afterReturn d with
  | case1 d' h => simp only [afterReturn?, peek?_eq, h, ok_bind, next?_eq, pure_eq]
  | case2 e d' h => simp only [afterReturn?, peek?_eq, h, ok_bind, pure_eq]
  | case3 _ d' hfeed hfault h =>
    rw [afterReturn?, peek?_eq, h, ok_bind]
    split
    · next heq => exact (hfeed (Prod.mk.inj heq).1).elim
    · next e _ heq => exact (hfault e (Prod.mk.inj heq).1).elim
    · next heq =>
      obtain ⟨-, rfl⟩ := Prod.mk.inj heq
      rfl

/-- Reads the text of one line and what ended it. -/
def readLine? (room : Nat) (d : Decoder) : Checked (Text × LineEnd × Decoder) :=
  match _h : d.next? with
  | .error e => .error e
  | .ok (.exhausted, d') => .ok ([], .exhausted, d')
  | .ok (.fault e, d') => .ok ([], .fault e, d')
  | .ok (.char c, d') =>
    if c = '\n' then .ok ([], .terminated .lf, d')
    else if c = '\r' then do
      let rest ← d'.afterReturn?
      return ([], rest)
    else if room < c.utf8Size then .ok ([c], .tooLong, d')
    else do
      let (text, rest) ← readLine? (room - c.utf8Size) d'
      return (c :: text, rest)
termination_by d.remaining
decreasing_by
  rw [next?_eq, Except.ok.injEq] at _h
  exact remaining_next_lt _h

theorem readLine?_of_next_char {room : Nat} {d d' : Decoder} {c : Char}
    (h : d.next = (.char c, d')) : d.readLine? room =
      if c = '\n' then .ok ([], .terminated .lf, d')
      else if c = '\r' then (([], ·) : LineEnd × Decoder → _) <$> d'.afterReturn?
      else if room < c.utf8Size then .ok ([c], .tooLong, d')
      else (fun r ↦ (c :: r.1, r.2)) <$> d'.readLine? (room - c.utf8Size) := by
  rw [readLine?]
  split <;> rename_i h' <;> rw [next?_eq, h] at h' <;> cases h'
  rfl

/-- **Reading a line is never refused a step.** -/
theorem readLine?_eq (room : Nat) (d : Decoder) : d.readLine? room = .ok (d.readLine room) := by
  fun_induction readLine room d with
  | case1 room d d' h =>
    rw [readLine?]
    split <;> rename_i h' <;> rw [next?_eq, h] at h' <;> cases h'
    rfl
  | case2 room d e d' h =>
    rw [readLine?]
    split <;> rename_i h' <;> rw [next?_eq, h] at h' <;> cases h'
    rfl
  | case3 room d d' h => rw [readLine?_of_next_char h, if_pos rfl]
  | case4 room d d' h hlf =>
    rw [readLine?_of_next_char h, if_neg hlf, if_pos rfl, afterReturn?_eq, map_ok]
  | case5 room d c d' h hlf hcr hroom =>
    rw [readLine?_of_next_char h, if_neg hlf, if_neg hcr, if_pos hroom]
  | case6 room d c d' h hlf hcr hroom text rest hr ih =>
    rw [readLine?_of_next_char h, if_neg hlf, if_neg hcr, if_neg hroom, ih, hr, map_ok]

end Decoder

/-! ### Lines -/

/-- The location just past the line break. -/
def Line.endLocation? (l : Line) : Checked Location := do
  let stop ← locate (l.location.advance? l.text)
  match l.terminator with
  | .none => return stop
  | _ => locate stop.nextLine?

theorem Line.refines_endLocation? (l : Line) : l.endLocation?.Refines l.endLocation := by
  refine (refines_locate fun _ ↦ (Location.advance_eq_of_advance? · |>.symm)).bind ?_
  rw [Line.endLocation]
  cases l.terminator with
  | none => exact refines_ok _
  | _ => exact refines_locate fun _ ↦ (Location.nextLine_eq_of_nextLine? · |>.symm)

/-- **The end of a line has a location** if there is room for the text of the line. -/
theorem Line.endLocation?_eq {l : Line} {n : Nat} (h : l.location.IsWithin n)
    (hroom : n + l.text.length < Location.maxOrdinal) : l.endLocation? = .ok l.endLocation := by
  obtain ⟨hwithin, hadvance⟩ := h.advance l.text
  rw [endLocation?, hadvance hroom.le, locate_ok, ok_bind, endLocation,
    hwithin.nextLine?_eq hroom, locate_ok]
  cases l.terminator <;> rfl

namespace Splitter

/-- The splitter after a line that a break ended, if the next line has a number. -/
def afterLine? (s : Splitter) (d : Decoder) : Checked Splitter :=
  if s.line < Location.maxOrdinal then .ok (s.afterLine d) else .error (.location .overflow)

theorem refines_afterLine? (s : Splitter) (d : Decoder) :
    (s.afterLine? d).Refines (s.afterLine d) := by
  rw [afterLine?]
  split
  · exact refines_ok _
  · exact refines_error _ _

/-- Hands out the next line. -/
def next? (s : Splitter) : Checked (Option Line × Splitter) :=
  if s.done then .ok (none, s)
  else do
    let location ← locate (Location.new? s.unit s.line 1)
    match ← s.decoder.readLine? s.limit with
    | (text, .terminated t, d) =>
      let s' ← s.afterLine? d
      return (some ⟨location, text, t⟩, s')
    | (text, .terminatedThenFault e, d) =>
      let s' ← s.afterLine? d
      return (some ⟨location, text, .cr⟩, { s' with fault := some (.source e), done := true })
    | (text, .exhausted, d) => return (lastLine? location text, s.stop d text none)
    | (text, .fault e, d) => return (lastLine? location text, s.stop d text (some (.source e)))
    | (text, .tooLong, d) =>
      return (lastLine? location text, s.stop d text (some (.lineTooLong s.line s.limit)))

theorem refines_next? (s : Splitter) : s.next?.Refines s.next := by
  rw [next?, next]
  split
  · exact refines_ok _
  · have hlocation : (locate (Location.new? s.unit s.line 1)).Refines ⟨s.unit, s.line, 1⟩ := by
      refine refines_locate fun b h ↦ ?_
      rw [Location.new?] at h
      split at h
      · exact (Except.ok.inj h).symm
      · cases h
    refine hlocation.bind ?_
    rw [Decoder.readLine?_eq, ok_bind]
    generalize s.decoder.readLine s.limit = r
    obtain ⟨text, _ | _ | _ | _ | _, d⟩ := r
    · exact (s.refines_afterLine? d).bind (refines_ok _)
    · exact (s.refines_afterLine? d).bind (refines_ok _)
    all_goals exact refines_ok _

/-- All lines that are still to come, and the splitter after them. -/
def rest? (s : Splitter) : Checked (List Line × Splitter) :=
  match _h : s.next? with
  | .error e => .error e
  | .ok (none, s') => .ok ([], s')
  | .ok (some l, s') => do
    let (ls, s'') ← rest? s'
    return (l :: ls, s'')
termination_by s.remaining
decreasing_by exact remaining_next_lt (s.refines_next? _ _h).symm

/-- The lines that are still to come can be numbered, and one more. -/
structure HasNumbers (s : Splitter) : Prop where
  line_pos : 1 ≤ s.line
  line_lt : s.done = false → s.line + s.rest.1.length < Location.maxOrdinal

theorem afterLine?_eq {s : Splitter} (h : s.line < Location.maxOrdinal) (d : Decoder) :
    s.afterLine? d = .ok (s.afterLine d) := if_pos h

theorem HasNumbers.next?_eq {s : Splitter} (h : s.HasNumbers) : s.next? = .ok s.next := by
  rw [next?, next]
  split
  · rfl
  · next hd =>
    have hline : s.line < Location.maxOrdinal :=
      Nat.lt_of_le_of_lt (Nat.le_add_right _ _) (h.line_lt (by simpa using hd))
    rw [Location.new?, if_pos ⟨h.line_pos, Nat.le_refl 1⟩, locate_ok, ok_bind,
      Decoder.readLine?_eq, ok_bind]
    generalize s.decoder.readLine s.limit = r
    obtain ⟨text, _ | _ | _ | _ | _, d⟩ := r
    · simp only [afterLine?_eq hline, ok_bind, pure_eq]
    · simp only [afterLine?_eq hline, ok_bind, pure_eq]
    all_goals rfl

/-- A line is handed out and has its number, or there is none any more. -/
theorem line_next (s : Splitter) :
    (∃ l, s.next.1 = some l) ∧ s.next.2.line = s.line + 1 ∨
      s.next.2.line = s.line ∧ s.next.2.done = true := by
  rw [next]
  split
  · next hd => exact .inr ⟨rfl, hd⟩
  · generalize s.decoder.readLine s.limit = r
    obtain ⟨text, _ | _ | _ | _ | _, d⟩ := r
    · exact .inl ⟨⟨_, rfl⟩, rfl⟩
    · exact .inl ⟨⟨_, rfl⟩, rfl⟩
    all_goals exact .inr ⟨rfl, rfl⟩

theorem HasNumbers.next {s : Splitter} (h : s.HasNumbers) : s.next.2.HasNumbers := by
  rcases s.line_next with ⟨⟨l, hl⟩, hline⟩ | ⟨hline, hd⟩
  · have hnext : s.next = (some l, s.next.2) := by rw [← hl]
    have hrest := rest_of_next_some hnext
    have hd : s.done = false := by
      cases hd : s.done with
      | false => rfl
      | true => rw [next_of_done hd] at hl; cases hl
    have hlt := h.line_lt hd
    rw [hrest, List.length_cons] at hlt
    exact ⟨by omega, fun _ ↦ by omega⟩
  · exact ⟨hline ▸ h.line_pos, fun hf ↦ by rw [hd] at hf; cases hf⟩

/-- **All lines are numbered.** -/
theorem HasNumbers.rest?_eq {s : Splitter} (h : s.HasNumbers) : s.rest? = .ok s.rest := by
  have hnext := h.next?_eq
  fun_induction rest s with
  | case1 s s' hn =>
    rw [rest?]
    split <;> rename_i h' <;> rw [hnext, hn] at h' <;> cases h'
    rfl
  | case2 s l s' hn ls s'' hrest ih =>
    have hroom := h.next
    rw [hn] at hroom
    rw [rest?]
    split <;> rename_i h' <;> rw [hnext, hn] at h' <;> cases h'
    rw [ih hroom hroom.next?_eq, hrest]
    rfl

end Splitter

namespace LineStream

/-- Gets the line after the look-ahead. -/
def refill? (s : LineStream) : Checked LineStream :=
  match s.supply with
  | .eager [] made => .ok { s with lookahead := none, supply := .eager [] made }
  | .eager (l :: ls) made => .ok { s with lookahead := some l, supply := .eager ls made }
  | .onDemand splitter => do
    match ← splitter.next? with
    | (some l, splitter) => return { s with lookahead := some l, supply := .onDemand splitter }
    | (none, splitter) =>
      return { s with
        lookahead := none
        supply := .onDemand { splitter with fault := none }
        fault := splitter.fault.or s.fault }

/-- Splits the whole unit before the first line is handed out. -/
def eager? (splitter : Splitter) : Checked LineStream := do
  let (lines, made) ← splitter.rest?
  refill? {
    unit := splitter.unit
    supply := .eager lines made
    lookahead := none
    endLocation := .start splitter.unit
    fault := made.fault }

/-- Splits on demand, one line ahead of the reader. -/
def onDemand? (splitter : Splitter) : Checked LineStream :=
  refill? {
    unit := splitter.unit
    supply := .onDemand splitter
    lookahead := none
    endLocation := .start splitter.unit }

/-- The lines of a splitter's unit, read in one of the two ways. -/
def ofSplitter? (isEager : Bool) (splitter : Splitter) : Checked LineStream :=
  if isEager then eager? splitter else onDemand? splitter

/-- Takes the next line. -/
def next? (s : LineStream) : Checked (Option (Line × LineStream)) :=
  match s.lookahead with
  | none => .ok none
  | some l => do
    let endLocation ← l.endLocation?
    let s' ← refill? { s with endLocation, consumed := s.consumed + 1 }
    return some (l, s')

theorem refines_refill? (s : LineStream) : s.refill?.Refines s.refill := by
  rw [refill?.eq_def, refill.eq_def]
  rcases s.supply with ⟨_ | ⟨l, ls⟩, made⟩ | splitter
  · exact refines_ok _
  · exact refines_ok _
  · refine splitter.refines_next?.bind ?_
    simp only
    generalize splitter.next = r
    obtain ⟨_ | l, splitter'⟩ := r <;> exact refines_ok _

theorem refines_next? (s : LineStream) : s.next?.Refines s.next := by
  rw [next?, next]
  cases s.lookahead with
  | none => exact refines_ok _
  | some l => exact l.refines_endLocation?.bind ((refines_refill? _).bind (refines_ok _))

/-- The lines that are still to be read can be numbered. -/
def HasNumbers (s : LineStream) : Prop :=
  ∀ splitter, s.supply = .onDemand splitter → splitter.HasNumbers

theorem HasNumbers.refill {s : LineStream} (h : s.HasNumbers) :
    s.refill? = .ok s.refill ∧ s.refill.HasNumbers := by
  rw [refill?.eq_def, refill.eq_def]
  unfold HasNumbers at *
  rcases hs : s.supply with ⟨_ | ⟨l, ls⟩, made⟩ | splitter
  · exact ⟨rfl, fun _ hsupply ↦ by cases hsupply⟩
  · exact ⟨rfl, fun _ hsupply ↦ by cases hsupply⟩
  · have hroom := h splitter hs
    have hnext := hroom.next
    have hend := splitter.line_next
    simp only [hroom.next?_eq, ok_bind]
    generalize splitter.next = r at hnext hend ⊢
    obtain ⟨_ | l, splitter'⟩ := r
    · refine ⟨rfl, fun _ hsupply ↦ ?_⟩
      cases hsupply
      -- What is behind the last line needs no number.
      obtain ⟨⟨_, hl⟩, -⟩ | ⟨-, hd⟩ := hend
      · cases hl
      · exact ⟨hnext.line_pos, fun hf ↦ by rw [hd] at hf; cases hf⟩
    · refine ⟨rfl, fun _ hsupply ↦ ?_⟩
      cases hsupply
      exact hnext

theorem ofSplitter?_eq (isEager : Bool) {splitter : Splitter} (h : splitter.HasNumbers) :
    ofSplitter? isEager splitter = .ok (ofSplitter isEager splitter) ∧
      (ofSplitter isEager splitter).HasNumbers := by
  cases isEager with
  | true =>
    simp only [ofSplitter?, ofSplitter, eager?, eager, if_true, h.rest?_eq, ok_bind]
    exact HasNumbers.refill fun _ hsupply ↦ by cases hsupply
  | false =>
    simp only [ofSplitter?, ofSplitter, onDemand?, onDemand, Bool.false_eq_true, if_false]
    exact HasNumbers.refill fun _ hsupply ↦ by cases hsupply; exact h

/-- **A line is taken** if there is a location behind it, and numbers for the lines that are still
to be read. -/
theorem HasNumbers.next {s : LineStream} (h : s.HasNumbers)
    (hline : ∀ l, s.lookahead = some l → ∃ n, l.location.IsWithin n ∧
      n + l.text.length < Location.maxOrdinal) :
    s.next? = .ok s.next ∧ ∀ l s', s.next = some (l, s') → s'.HasNumbers := by
  rw [next?, LineStream.next]
  cases hs : s.lookahead with
  | none => exact ⟨rfl, fun _ _ hn ↦ by cases hn⟩
  | some l =>
    obtain ⟨n, hwithin, hroom⟩ := hline l hs
    obtain ⟨hrefill, hafter⟩ :=
      HasNumbers.refill (s := { s with endLocation := l.endLocation, consumed := s.consumed + 1 }) h
    rw [hs] at hrefill hafter
    simp only [Line.endLocation?_eq hwithin hroom, ok_bind, hrefill]
    refine ⟨rfl, fun _ _ hn ↦ ?_⟩
    cases hn
    exact hafter

end LineStream

end LexFront
