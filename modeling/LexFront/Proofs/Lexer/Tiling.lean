import LexFront.Proofs.Lexer.Lossless
import LexFront.Proofs.Lexicon.Matching

/-!
# Lexemes tile their unit

The lexer moves its location along the text that it hands out; the lines that it takes bring
locations of their own. The two never disagree, provided that no lexeme ends between a carriage
return and the line feed that belongs to it, and a lexicon that keeps line breaks whole sees to
that. So the spans of the lexemes follow each other without a gap, and each begins where reading the
lexemes before it leads to.

`Located l read` is the invariant: `read` was handed out, and wherever a location is kept, in the
lexer, in its lines or in the line that is next, it is what reading leads to.

Key facts:

* `Located.pull`: the location that a line brings is the one that the lexer has.
* `Located.next`: one call keeps the invariant, and its lexeme goes from location to location.
* `Located.isTiled`: the lexemes of a run tile what it reads.
-/

set_option autoImplicit false

namespace LexFront

namespace Lexer

variable {T : Type}

/-- Every location that is known agrees with what was read. -/
structure Located (l : Lexer T) (read : Text) : Prop where
  location : l.location = (Location.start l.unit).advance read
  /-- What was read and what is pending meet at a seam. -/
  seam : Text.Seam read l.pending
  /-- So do the window and the lines behind it. -/
  seam_lines : Text.Seam (read ++ l.window) l.lines.pending
  endLocation : l.lines.endLocation = (Location.start l.unit).advance (read ++ l.window)
  /-- The next line has the number that reading up to it leads to. -/
  lines : l.lines.lines ≠ [] → ∃ n, Line.Consecutive l.unit n l.lines.lines ∧
    (Location.start l.unit).advance (read ++ l.window) = ⟨l.unit, n, 1⟩

theorem Located.isFed {l : Lexer T} {read : Text} (h : l.Located read) : l.IsFed := by
  by_cases hlines : l.lines.lines = []
  · exact ⟨0, hlines ▸ .nil⟩
  · obtain ⟨n, hn, -⟩ := h.lines hlines
    exact ⟨n, hn⟩

/-- **A line that is taken moves no location**, not even if the window was empty and the lexer
takes the location of the line for its own. -/
theorem Located.pull {l l' : Lexer T} {read : Text} (h : l.Located read) (hp : l.pull = some l') :
    l'.Located read ∧ l'.location = l.location ∧ l'.unit = l.unit := by
  obtain ⟨line, lines, ht, rfl⟩ := pull_eq_some hp
  have hunit : lines.unit = l.unit := ht.unit
  obtain ⟨n, hn, hadvance⟩ := h.lines (by rw [ht.lines]; simp)
  rw [ht.lines] at hn
  have hline := hn.heads
  have hpending : l.lines.pending = line.raw ++ lines.pending := by
    rw [LineStream.pending, ht.lines, List.flatMap_cons]
    rfl
  have hlocation : (if l.window.isEmpty then line.location else l.location) = l.location := by
    split
    · next hw =>
      rw [hline.location, h.location, ← hadvance, List.isEmpty_iff.1 hw, List.append_nil]
    · rfl
  have hseam : Text.Seam (read ++ l.window) line.raw := by
    have hs := h.seam_lines
    rwa [hpending, Text.seam_append_right _ hline.raw_ne_nil] at hs
  -- The end of the line is reached from the end of the window by reading the line.
  have hend : line.endLocation =
      (Location.start l.unit).advance (read ++ (l.window ++ line.raw)) := by
    rw [hline.endLocation, hline.location, ← hadvance, ← List.append_assoc,
      Location.advance_append hseam]
  refine ⟨?_, hlocation, hunit⟩
  exact {
    location := by
      simp only [hlocation, unit, hunit]
      exact h.location
    seam := by
      have hs := h.seam
      rwa [← pending_of_pull hp] at hs
    seam_lines := by
      rw [← List.append_assoc, Text.seam_append_left _ hline.raw_ne_nil]
      exact hline.seam
    endLocation := by
      simp only [unit, hunit, ht.endLocation]
      exact hend
    lines := by
      intro hne
      refine ⟨n + 1, ?_, ?_⟩
      · simp only [unit, hunit]
        exact hline.rest
      · simp only [unit, hunit]
        exact hend.symm.trans (hline.next hne) }

theorem Located.pulls {l l' : Lexer T} {read : Text} (h : l.Located read) (hp : Pulls l l') :
    l'.Located read ∧ l'.location = l.location ∧ l'.unit = l.unit := by
  refine hp.preserves (P := fun m ↦ m.Located read ∧ m.location = l.location ∧ m.unit = l.unit)
    ?_ ⟨h, rfl, rfl⟩
  rintro m m' ⟨hm, hlocation, hunit⟩ hpull
  obtain ⟨hm', hlocation', hunit'⟩ := hm.pull hpull
  exact ⟨hm', hlocation'.trans hlocation, hunit'.trans hunit⟩

/-- A lexeme ends at a seam: at the end of the window because lines do, and inside the window
because the lexicon keeps line breaks. -/
theorem EndsAt.seam {l : Lexer T} {p : Lexeme T × Lexer T} (h : l.EndsAt p)
    (hl : Lexicon.KeepsBreaks l.lexicon.rules) : Text.Seam p.1.text p.2.window := by
  cases h with
  | window hw => exact hw ▸ Text.seam_nil_right _
  | @rule i n hm htext hwindow =>
    obtain ⟨-, -, hb⟩ := Lexicon.scan_of_longestMatch_eq_matched hm
    obtain ⟨front, back, hw, hn⟩ := Text.isBoundary_iff.1 hb
    have hcut : cut n l.window = (front, back) := by rw [hw, hn, cut_size_append]
    rw [htext, hwindow, hcut]
    exact hl.seam_matched (hw ▸ hm) hn
  | @gap n hm hn htext hwindow =>
    by_cases hne : l.window = []
    · rw [hwindow, hne, cut]
      cases n <;> exact Text.seam_nil_right _
    · obtain ⟨front, back, hw, hsize, -, hinside, -⟩ :=
        Lexicon.unrecognizedSize_spec l.lexicon.rules hm hne
      have hcut : cut n l.window = (front, back) := by rw [hn, hsize, hw, cut_size_append]
      rw [htext, hwindow, hcut]
      exact (hl.isUnbroken_unrecognized hinside).seam back

/-- Cutting a lexeme off the window keeps the invariant, if the cut is a seam. -/
theorem Located.cuts {l : Lexer T} {read : Text} {p : Lexeme T × Lexer T} (h : l.Located read)
    (hp : l.Cuts p) (hseam : Text.Seam p.1.text p.2.window) :
    p.2.Located (read ++ p.1.text) := by
  have hunit : p.2.unit = l.unit := by rw [unit, hp.lines]; rfl
  have hwindow : read ++ p.1.text ++ p.2.window = read ++ l.window := by
    rw [List.append_assoc, hp.append]
  refine {
    location := ?_
    seam := ?_
    seam_lines := by rw [hwindow, hp.lines]; exact h.seam_lines
    endLocation := by rw [hwindow, hp.lines, hunit]; exact h.endLocation
    lines := by rw [hwindow, hp.lines, hunit]; exact h.lines }
  · have hs := h.seam
    rw [← hp.pending, Text.seam_append_right _ hp.text_ne_nil] at hs
    rw [hp.location, h.location, hunit, Location.advance_append hs]
  · rw [Text.seam_append_left _ hp.text_ne_nil, pending]
    by_cases hw : p.2.window = []
    · have hs := h.seam_lines
      rw [hw, List.append_nil] at hwindow
      rw [← hwindow, Text.seam_append_left _ hp.text_ne_nil] at hs
      rw [hw, List.nil_append, hp.lines]
      exact hs
    · rw [Text.seam_append_right _ hw]
      exact hseam

/-- What a call has to do with locations. -/
structure Tiles (l : Lexer T) (p : Lexeme T × Lexer T) : Prop where
  /-- A lexeme goes from the location before the call to the location after it. -/
  span : p.1 ≠ .endOfInput → p.1.span? = some ⟨l.location, p.2.location⟩
  /-- A failure of the source is a point, and the end of the input moves nothing. -/
  point : p.1.text = [] → p.2.location = l.location
  unit : p.2.unit = l.unit
  lexicon : p.2.lexicon = l.lexicon

variable [Terminal T]

theorem Located.classifies {l : Lexer T} {read : Text} {p : Lexeme T × Lexer T}
    (h : l.Located read) (hl : Lexicon.KeepsBreaks l.lexicon.rules) (hw : l.window ≠ [])
    (hp : Classifies l p) : p.2.Located (read ++ p.1.text) ∧ l.Tiles p := by
  obtain ⟨l', hpulls, hcuts, hends, -⟩ := hp.exists_cut h.isFed hw
  obtain ⟨hl', hlocation, hunit⟩ := h.pulls hpulls
  obtain ⟨-, -, hlexicon, -⟩ := hpulls.frame
  refine ⟨hl'.cuts hcuts (hends.seam (hlexicon ▸ hl)), ?_⟩
  exact {
    span := fun _ ↦ by rw [hcuts.span, Span.covering, ← hcuts.location, hlocation]
    point := fun ht ↦ absurd ht hcuts.text_ne_nil
    unit := by rw [← hunit, unit, hcuts.lines]; rfl
    lexicon := hcuts.lexicon.trans hlexicon }

/-- **A call keeps the invariant**, and its lexeme goes from location to location. -/
theorem Located.next {l : Lexer T} {read : Text} (h : l.Located read)
    (hl : Lexicon.KeepsBreaks l.lexicon.rules) :
    l.next.2.Located (read ++ l.next.1.text) ∧ l.Tiles l.next := by
  have hsteps := steps_next h.isFed
  generalize l.next = p at hsteps ⊢
  cases hsteps with
  | finished _ =>
    refine ⟨?_, fun hne ↦ absurd rfl hne, fun _ ↦ rfl, rfl, rfl⟩
    rw [Lexeme.text, List.append_nil]
    exact h
  | halted _ _ =>
    refine ⟨?_, fun hne ↦ absurd rfl hne, fun _ ↦ rfl, rfl, rfl⟩
    rw [Lexeme.text, List.append_nil]
    exact ⟨h.location, h.seam, h.seam_lines, h.endLocation, h.lines⟩
  | fault _ hw hlines _ =>
    have hend : l.lines.endLocation = l.location := by
      rw [h.endLocation, hw, List.append_nil, h.location]
    refine ⟨?_, fun _ ↦ by rw [hend]; rfl, fun _ ↦ hend, rfl, rfl⟩
    rw [Lexeme.text, List.append_nil]
    exact ⟨hend.trans h.location, h.seam, h.seam_lines, h.endLocation, h.lines⟩
  | exhausted _ hw hlines _ =>
    refine ⟨?_, fun hne ↦ absurd rfl hne, fun _ ↦ rfl, rfl, rfl⟩
    rw [Lexeme.text, List.append_nil]
    exact ⟨h.location, h.seam, h.seam_lines, h.endLocation, h.lines⟩
  | filled _ hw hc => exact h.classifies hl hw hc
  | @empty l' _ _ _ hpull hc =>
    obtain ⟨hl', hlocation, hunit⟩ := h.pull hpull
    have hlexicon := (Pulls.step hpull .refl).frame.2.2.1
    obtain ⟨hlocated, htiles⟩ :=
      hl'.classifies (hlexicon ▸ hl) (h.isFed.pull hpull).2 hc
    refine ⟨hlocated, ?_⟩
    exact {
      span := fun hne ↦ hlocation ▸ htiles.span hne
      point := fun ht ↦ (htiles.point ht).trans hlocation
      unit := htiles.unit.trans hunit
      lexicon := htiles.lexicon.trans hlexicon }

/-! ### A whole run -/

/-- The locations of a run, lexeme by lexeme and call by call. -/
structure IsTiled (l : Lexer T) : Prop where
  /-- A lexeme goes from where reading the lexemes before it leads to, to where reading it leads
  to. -/
  span : ∀ xs x ys, l.lexemes = xs ++ x :: ys → x.span? =
    some ⟨(Location.start l.unit).advance (texts xs),
      (Location.start l.unit).advance (texts (xs ++ [x]))⟩
  /-- A failure of the source is a point where the text ends. -/
  fault : ∀ xs i ys e, l.lexemes = xs ++ .invalid i :: ys → i.error = .split e →
    i.text = [] ∧ i.span = .point ((Location.start l.unit).advance (texts xs))
  /-- After any number of calls the lexer is where reading all that it handed out leads to. -/
  location : ∀ n, (l.after n).location = (Location.start l.unit).advance (texts (l.handedOut n))
  /-- The end of a lexeme is the location of the lexer after it. -/
  call : ∀ n, (l.after n).next.1 ≠ .endOfInput → (l.after n).next.1.span? =
    some ⟨(l.after n).location, (l.after (n + 1)).location⟩
  /-- The location of a line that is taken is the one that the lexer has. -/
  pull : ∀ n l', (l.after n).pull = some l' → l'.location = (l.after n).location

theorem Classifies.error_ne_split {l : Lexer T} {p : Lexeme T × Lexer T} (h : Classifies l p)
    (e : SplitError) : p.1.error? ≠ some (.split e) := by
  induction h with
  | full _ => simp [rejectAll, reject, Lexeme.error?]
  | unrecognized _ _ => simp [reject, Lexeme.error?]
  | matched _ _ _ =>
    simp only [accept]
    split <;> simp [reject, Lexeme.error?]
  | overlong _ _ _ => simp [rejectAll, reject, Lexeme.error?]
  | unterminated _ _ _ _ => simp [rejectAll, reject, Lexeme.error?]
  | more _ _ _ _ _ ih => exact ih

/-- Only the failure of a source is handed out without a text. -/
theorem text_eq_nil_of_split {l : Lexer T} (hl : l.IsFed) {e : SplitError}
    (h : l.next.1.error? = some (.split e)) : l.next.1.text = [] := by
  have hsteps := steps_next hl
  generalize l.next = p at hsteps h ⊢
  cases hsteps with
  | finished _ => rfl
  | halted _ _ => rfl
  | fault _ _ _ _ => rfl
  | exhausted _ _ _ _ => rfl
  | filled _ _ hc => exact absurd h (hc.error_ne_split e)
  | empty _ _ _ hc => exact absurd h (hc.error_ne_split e)

theorem Located.span_of_lexemes {l : Lexer T} {read : Text} (h : l.Located read)
    (hl : Lexicon.KeepsBreaks l.lexicon.rules) {xs ys : List (Lexeme T)} {x : Lexeme T}
    (hx : l.lexemes = xs ++ x :: ys) :
    x.span? = some ⟨(Location.start l.unit).advance (read ++ texts xs),
      (Location.start l.unit).advance (read ++ texts (xs ++ [x]))⟩ ∧
      ∀ e, x.error? = some (.split e) → x.text = [] := by
  induction xs generalizing l read with
  | nil =>
    obtain ⟨hnext, htiles⟩ := h.next hl
    by_cases hend : l.next.1 = .endOfInput
    · rw [lexemes_of_next_end hend] at hx
      cases hx
    · rw [lexemes_of_next hend, List.nil_append, List.cons.injEq] at hx
      obtain ⟨rfl, -⟩ := hx
      refine ⟨?_, fun e he ↦ text_eq_nil_of_split h.isFed he⟩
      rw [htiles.span hend, h.location, hnext.location, htiles.unit]
      simp
  | cons y xs ih =>
    obtain ⟨hnext, htiles⟩ := h.next hl
    by_cases hend : l.next.1 = .endOfInput
    · rw [lexemes_of_next_end hend] at hx
      cases hx
    · rw [lexemes_of_next hend, List.cons_append, List.cons.injEq] at hx
      obtain ⟨rfl, hx⟩ := hx
      have hspan := ih hnext (htiles.lexicon ▸ hl) hx
      rw [htiles.unit] at hspan
      simpa using hspan

theorem Located.after {l : Lexer T} (h : l.Located []) (hl : Lexicon.KeepsBreaks l.lexicon.rules)
    (n : Nat) : (l.after n).Located (texts (l.handedOut n)) ∧ (l.after n).unit = l.unit ∧
      (l.after n).lexicon = l.lexicon := by
  induction n with
  | zero => exact ⟨h, rfl, rfl⟩
  | succ n ih =>
    obtain ⟨hlocated, hunit, hlexicon⟩ := ih
    obtain ⟨hnext, htiles⟩ := hlocated.next (hlexicon ▸ hl)
    refine ⟨?_, htiles.unit.trans hunit, htiles.lexicon.trans hlexicon⟩
    rw [handedOut, texts_append, texts_cons, texts_nil, List.append_nil]
    exact hnext

/-- **A run over a lexicon that keeps line breaks tiles its unit.** -/
theorem Located.isTiled {l : Lexer T} (h : l.Located [])
    (hl : Lexicon.KeepsBreaks l.lexicon.rules) : l.IsTiled where
  span xs x ys hx := by simpa using (h.span_of_lexemes hl hx).1
  fault xs i ys e hx he := by
    obtain ⟨hspan, htext⟩ := h.span_of_lexemes hl hx
    have hnil : i.text = [] := htext e (by rw [Lexeme.error?, he])
    refine ⟨hnil, ?_⟩
    simpa [Lexeme.span?, Lexeme.text, hnil, Span.point] using hspan
  location n := by
    obtain ⟨hlocated, hunit, -⟩ := h.after hl n
    rw [hlocated.location, hunit]
  call n hend := by
    obtain ⟨hlocated, -, hlexicon⟩ := h.after hl n
    exact (hlocated.next (hlexicon ▸ hl)).2.span hend
  pull n l' hp := ((h.after hl n).1.pull hp).2.1

omit [Terminal T] in
/-- At the start of a unit all locations are the first one. -/
theorem located_ofDecoder (lexicon : Lexicon T) (preferences : LexicalPreferences) (unit : String)
    (decoder : Decoder) (lineLimit maxLength maxCount : Nat) :
    ((ofDecoder lexicon preferences unit decoder lineLimit).withLimits maxLength maxCount).Located
      [] := by
  let splitter : Splitter := { unit, decoder, limit := lineLimit }
  let lines : LineStream := .ofSplitter preferences.eagerLines splitter
  have hunit : lines.unit = unit := LineStream.unit_ofSplitter _ splitter
  have hlines : lines.lines = splitter.rest.1 := LineStream.lines_ofSplitter _ splitter
  exact {
    location := rfl
    seam := Text.seam_nil_left _
    seam_lines := Text.seam_nil_left _
    endLocation := (LineStream.endLocation_ofSplitter _ splitter).trans
      (congrArg Location.start hunit.symm)
    lines := fun _ ↦ ⟨1, by
      change Line.Consecutive lines.unit 1 lines.lines
      rw [hunit, hlines]
      exact splitter.consecutive_rest, rfl⟩ }

end Lexer

end LexFront
