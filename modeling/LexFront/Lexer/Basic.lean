import LexFront.Lexicon.Basic
import LexFront.Line.Stream
import LexFront.Preferences

/-!
# The lexer

A `Lexer` cuts the lines of one unit into tokens. It sees one line at a time: what is left of the
line at hand is its window, and only a rule that asks for more makes it append the next line. Input
that matches no rule, does not close, or passes a limit becomes an invalid token, and so does the
point at which the source failed; the input ends after that. Nothing of the input is lost.

Key facts:

* `append_of_cut`: a lexeme and the window after it are the window before it.
* `remaining_next_lt`: every lexeme but the end of the input brings the end closer.
-/

set_option autoImplicit false

namespace LexFront

/-- Counts over the lexemes handed out so far. -/
structure Tally where
  /-- All lexemes but the end of the input. -/
  total : Nat := 0
  invalid : Nat := 0
  trivia : Nat := 0
  /-- Lines taken. -/
  lines : Nat := 0
  /-- Valid tokens by the name of their terminal, sorted by name. -/
  counts : List (String × Nat) := []
  deriving DecidableEq, Repr

namespace Tally

/-- Counts one more of a name. -/
def bump (name : String) : List (String × Nat) → List (String × Nat)
  | [] => [(name, 1)]
  | (k, n) :: rest =>
    if name < k then (name, 1) :: (k, n) :: rest
    else if name = k then (k, n + 1) :: rest
    else (k, n) :: bump name rest

/-- Counts a valid token, under its name only if asked to. -/
def addToken {T : Type} [Terminal T] (t : Tally) (trackCounts : Bool) (terminal : T) : Tally :=
  { t with
    total := t.total + 1
    trivia := if Terminal.isTrivia terminal then t.trivia + 1 else t.trivia
    counts := if trackCounts then bump (Terminal.name terminal) t.counts else t.counts }

/-- Counts an invalid token. -/
def addInvalid (t : Tally) : Tally := { t with total := t.total + 1, invalid := t.invalid + 1 }

/-- Counts a line. -/
def addLine (t : Tally) : Tally := { t with lines := t.lines + 1 }

/-- The number of tokens that mean something to a grammar. -/
def significant (t : Tally) : Nat := t.total - t.trivia - t.invalid

end Tally

/-- A lexer in the middle of its unit. -/
structure Lexer (T : Type) where
  lines : LineStream
  lexicon : Lexicon T
  trackCounts : Bool := true
  /-- The most bytes of a token. -/
  maxLength : Nat := Limits.tokenLength
  /-- The most lexemes of a unit. -/
  maxCount : Nat := Limits.tokenCount
  /-- What is left of the lines taken so far. -/
  window : Text := []
  /-- Where the window starts. -/
  location : Location := .start lines.unit
  tally : Tally := {}
  /-- The limit on lexemes was reached. -/
  halted : Bool := false
  finished : Bool := false

namespace Lexer

variable {T : Type}

/-- A lexer at the start of a unit. -/
def ofLines (lexicon : Lexicon T) (preferences : LexicalPreferences) (lines : LineStream) :
    Lexer T :=
  { lines, lexicon, trackCounts := preferences.trackCounts }

/-- A lexer at the start of a unit that a decoder reads. -/
def ofDecoder (lexicon : Lexicon T) (preferences : LexicalPreferences) (unit : String)
    (decoder : Decoder) (lineLimit : Nat := Limits.lineLength) : Lexer T :=
  ofLines lexicon preferences <|
    .ofSplitter preferences.eagerLines { unit, decoder, limit := lineLimit }

/-- The name of the unit. -/
def unit (l : Lexer T) : String := l.lines.unit

/-- Takes the next line into the window. -/
def pull (l : Lexer T) : Option (Lexer T) :=
  l.lines.next.map fun (line, lines) ↦
    { l with
      lines
      window := l.window ++ line.raw
      location := if l.window.isEmpty then line.location else l.location
      tally := l.tally.addLine }

/-- Takes lines until the window is not empty. -/
def fill (l : Lexer T) : Option (Lexer T) :=
  if l.window.isEmpty then
    match _h : l.pull with
    | none => none
    | some l' => fill l'
  else some l
termination_by l.lines.remaining
decreasing_by
  obtain ⟨⟨line, lines⟩, hn, rfl⟩ := Option.map_eq_some_iff.1 ‹l.pull = some l'›
  exact LineStream.remaining_next_lt hn

/-- The first `n` bytes of a text and what follows them. A length that does not fit takes all. -/
def cut (n : Nat) (t : Text) : Text × Text := (Text.split? n t).getD (t, [])

theorem append_of_cut (n : Nat) (t : Text) : (cut n t).1 ++ (cut n t).2 = t := by
  cases h : Text.split? n t with
  | none => simp [cut, h]
  | some p => simpa [cut, h] using Text.append_of_split? h

theorem cut_ne_nil {n : Nat} {t : Text} (hn : 0 < n) (ht : t ≠ []) : (cut n t).1 ≠ [] := by
  cases h : Text.split? n t with
  | none => simpa [cut, h] using ht
  | some p =>
    have := @Text.size_of_split? n t p.1 p.2 h
    simp only [cut, h, Option.getD_some]
    intro hp
    simp only [hp, Text.size_nil] at this
    omega

/-- The lexer after some text at the start of the window. -/
def drop (l : Lexer T) (text rest : Text) : Lexer T :=
  { l with window := rest, location := l.location.advance text }

/-- Hands out `n` bytes as an invalid token. -/
def reject (l : Lexer T) (n : Nat) (error : LexicalError) : Lexeme T × Lexer T :=
  let (text, rest) := cut n l.window
  (.invalid ⟨text, .covering l.location text, error⟩,
    { l.drop text rest with tally := l.tally.addInvalid })

/-- Hands out the whole window as an invalid token. -/
def rejectAll (l : Lexer T) (error : LexicalError) : Lexeme T × Lexer T :=
  l.reject (Text.size l.window) error

variable [Terminal T]

/-- Hands out `n` bytes as a token of a rule. -/
def accept (l : Lexer T) (rule : Rule T) (n : Nat) : Lexeme T × Lexer T :=
  if l.maxLength < n then l.reject n (.tokenTooLong l.maxLength)
  else
    let (text, rest) := cut n l.window
    (.valid (.covering rule.terminal text (rule.decode text) l.location),
      { l.drop text rest with tally := l.tally.addToken l.trackCounts rule.terminal })

/-- What a construct is called that the rule at a place in the table started. -/
def construct (l : Lexer T) (rule : Nat) : String :=
  (l.lexicon.rules[rule]?).elim "" fun r ↦ Terminal.name r.terminal

/-- Hands out a lexeme from a window that is not empty. -/
def classify (l : Lexer T) : Lexeme T × Lexer T :=
  if l.maxCount ≤ l.tally.total then
    -- What was taken of the input so far is handed out before the lexer stops.
    { l with halted := true }.rejectAll (.tooManyTokens l.maxCount)
  else
    match Lexicon.longestMatch l.lexicon.rules l.window with
    | .noMatch =>
      l.reject (Lexicon.unrecognizedSize l.lexicon.rules l.window) .unrecognizedInput
    | .matched rule n =>
      match l.lexicon.rules[rule]? with
      | some r => l.accept r n
      | none => l.rejectAll .unrecognizedInput
    | .needMore rule =>
      -- The limit is looked at before a line is taken, so the window may pass it by one line.
      if l.maxLength < Text.size l.window then l.rejectAll (.tokenTooLong l.maxLength)
      else
        match _h : l.pull with
        | some l' => classify l'
        | none => l.rejectAll (.unterminated (l.construct rule))
termination_by l.lines.remaining
decreasing_by
  obtain ⟨⟨line, lines⟩, hn, rfl⟩ := Option.map_eq_some_iff.1 ‹l.pull = some l'›
  exact LineStream.remaining_next_lt hn

/-- At the end of the lines: a failure of the source is handed out once, then the input ends. -/
def exhaust (l : Lexer T) : Lexeme T × Lexer T :=
  match l.lines.takeFault with
  | (some fault, lines) =>
    let location := lines.endLocation
    (.invalid ⟨[], .point location, .split fault⟩,
      { l with lines, location, tally := l.tally.addInvalid })
  | (none, lines) => (.endOfInput, { l with lines, finished := true })

/-- Hands out the next lexeme. -/
def next (l : Lexer T) : Lexeme T × Lexer T :=
  if l.finished then (.endOfInput, l)
  else if l.halted then (.endOfInput, { l with finished := true })
  else
    match l.fill with
    | some l' => l'.classify
    | none => l.exhaust

/-! ### The end comes closer -/

/-- One for a failure of the source, unless it is certain that there is none. -/
def faultRoom (lines : LineStream) : Nat := if lines.isAtEnd && lines.fault.isNone then 0 else 1

/-- An upper bound for the lexemes that are still to come: one for each character and for each
line, and one for a failure of the source. -/
def remaining (l : Lexer T) : Nat :=
  l.window.length + l.lines.remaining + faultRoom l.lines

omit [Terminal T] in
theorem remaining_pull_le {l l' : Lexer T} (h : l.pull = some l') :
    l'.remaining ≤ l.remaining := by
  obtain ⟨⟨line, lines⟩, hn, rfl⟩ := Option.map_eq_some_iff.1 h
  have hr := LineStream.remaining_next_add_le hn
  have he : l.lines.isAtEnd = false := by
    simp only [LineStream.next] at hn
    cases hl : l.lines.lookahead <;> simp_all [LineStream.isAtEnd]
  have hf : faultRoom lines ≤ faultRoom l.lines := by
    simp only [faultRoom, he, Bool.false_and]
    split <;> simp
  simp only [remaining, List.length_append, LineStream.weight] at hr ⊢
  omega

omit [Terminal T] in
theorem remaining_fill_le {l l' : Lexer T} (h : l.fill = some l') :
    l'.remaining ≤ l.remaining ∧ l'.window ≠ [] := by
  fun_induction fill l with
  | case1 => cases h
  | case2 l _ l₁ hp ih => exact ⟨Nat.le_trans (ih h).1 (remaining_pull_le hp), (ih h).2⟩
  | case3 l hne =>
    obtain rfl := Option.some.inj h
    exact ⟨Nat.le_refl _, by simpa using hne⟩

omit [Terminal T] in
theorem window_pull_ne_nil {l l' : Lexer T} (h : l.pull = some l') (hw : l.window ≠ []) :
    l'.window ≠ [] := by
  obtain ⟨p, _, rfl⟩ := Option.map_eq_some_iff.1 h
  simp [hw]

omit [Terminal T] in
theorem remaining_drop_cut_lt {l : Lexer T} {n : Nat} (hn : 0 < n) (hw : l.window ≠ []) :
    (l.drop (cut n l.window).1 (cut n l.window).2).remaining < l.remaining := by
  have hl := congrArg List.length (append_of_cut n l.window)
  have hp := List.length_pos_iff.2 (cut_ne_nil hn hw)
  rw [List.length_append] at hl
  simp only [remaining, drop]
  omega

omit [Terminal T] in
theorem remaining_reject_lt {l : Lexer T} {n : Nat} (hn : 0 < n) (hw : l.window ≠ [])
    (e : LexicalError) : (l.reject n e).2.remaining < l.remaining :=
  remaining_drop_cut_lt hn hw

omit [Terminal T] in
theorem remaining_rejectAll_lt {l : Lexer T} (hw : l.window ≠ []) (e : LexicalError) :
    (l.rejectAll e).2.remaining < l.remaining :=
  remaining_reject_lt (Text.size_pos hw) hw e

theorem remaining_accept_lt {l : Lexer T} {rule : Rule T} {n : Nat} (hn : 0 < n)
    (hw : l.window ≠ []) : (l.accept rule n).2.remaining < l.remaining := by
  simp only [accept]
  split
  · exact remaining_reject_lt hn hw _
  · exact remaining_drop_cut_lt hn hw

theorem remaining_classify_lt {l : Lexer T} (hw : l.window ≠ []) :
    l.classify.2.remaining < l.remaining := by
  fun_induction classify l with
  | case1 l _ => exact remaining_rejectAll_lt (l := { l with halted := true }) hw _
  | case2 l => exact remaining_reject_lt (Lexicon.unrecognizedSize_pos _ hw) hw _
  | case3 l _ rule n hm =>
    exact remaining_accept_lt (Lexicon.scan_of_longestMatch_eq_matched hm).2.1 hw
  | case4 l => exact remaining_rejectAll_lt hw _
  | case5 l => exact remaining_rejectAll_lt hw _
  | case6 l _ _ _ _ l' hp ih =>
    exact Nat.lt_of_lt_of_le (ih (window_pull_ne_nil hp hw)) (remaining_pull_le hp)
  | case7 l => exact remaining_rejectAll_lt hw _

theorem remaining_next_lt {l : Lexer T} (h : l.next.1 ≠ .endOfInput) :
    l.next.2.remaining < l.remaining := by
  simp only [next] at h ⊢
  split at h
  · exact absurd rfl h
  · split at h
    · exact absurd rfl h
    · next hf hh =>
      simp only [hf, hh, Bool.false_eq_true, if_false]
      split at h
      · next l' hl =>
        obtain ⟨hle, hw⟩ := remaining_fill_le hl
        exact Nat.lt_of_lt_of_le (remaining_classify_lt hw) hle
      · simp only [exhaust] at h ⊢
        split at h
        · next fault lines ht =>
          simp only [LineStream.takeFault] at ht
          split at ht
          · next he =>
            simp only [Prod.mk.injEq] at ht
            obtain ⟨hfault, rfl⟩ := ht
            have hl : ({ l.lines with fault := none } : LineStream).isAtEnd = true := he
            simp [remaining, faultRoom, LineStream.remaining, LineStream.isAtEnd, hfault] at hl ⊢
            simp [hl]
          · simp at ht
        · exact absurd rfl h

end Lexer

end LexFront
