import LexFront.Proofs.Checked.Lines
import LexFront.Proofs.Checked.Rules
import LexFront.Proofs.Lexer.Tiling

/-!
# The lexer on its window

A lexer with every step checked. It keeps the lines that it has taken as one text, of which a
cursor says how many bytes were handed out; they are only dropped when the next line is taken. So a
lexeme is a slice from the cursor on, the rules are given what follows the cursor, and the length of
that is a difference of two numbers. The numbers of a location have to fit, and so do the counts
that are told at the end.

`Views c l` says that the checked lexer stands for the plain one, whose window is what follows the
cursor. What a checked lexer needs besides are numbers for what is still to come
(`Lexer.HasNumbers`): its location is where reading leads to, and what has been read and what is
pending are together shorter than the largest number of a line or column.

Key facts:

* `Lexer.HasNumbers.next`: there are numbers to the end.
* `Views.next`: as long as there are, both lexers hand out the same, and none is refused a step.
* `CheckedLexer.remaining_next?_lt`: a lexeme that is handed out brings the end closer.
-/

set_option autoImplicit false

namespace LexFront

open Checked

namespace Tally

/-- The number of tokens that mean something to a grammar, if no more are left out than there
are. -/
def significant? (t : Tally) : Checked Nat := do
  let rest ← sub? t.total t.trivia
  sub? rest t.invalid

/-- Trivia and invalid tokens are counted among all. -/
def IsSound (t : Tally) : Prop := t.trivia + t.invalid ≤ t.total

theorem IsSound.significant?_eq {t : Tally} (h : t.IsSound) :
    t.significant? = .ok t.significant := by
  rw [IsSound] at h
  rw [significant?, sub?_of_le (by omega), ok_bind, sub?_of_le (by omega)]
  rfl

theorem IsSound.addInvalid {t : Tally} (h : t.IsSound) : t.addInvalid.IsSound := by
  simp only [IsSound, Tally.addInvalid] at *
  omega

theorem IsSound.addToken {T : Type} [Terminal T] {t : Tally} (h : t.IsSound) (trackCounts : Bool)
    (terminal : T) : (t.addToken trackCounts terminal).IsSound := by
  simp only [IsSound, Tally.addToken] at *
  split <;> omega

end Tally

/-- A lexer in the middle of its unit, with every step checked. -/
structure CheckedLexer (T : Type) where
  lines : LineStream
  lexicon : CheckedLexicon T
  trackCounts : Bool := true
  maxLength : Nat := Limits.tokenLength
  maxCount : Nat := Limits.tokenCount
  /-- The lines taken last, as a whole. -/
  window : Text := []
  /-- How many bytes of the window have been handed out. -/
  cursor : Nat := 0
  /-- The location of the cursor. -/
  location : Location := .start lines.unit
  tally : Tally := {}
  halted : Bool := false
  finished : Bool := false

namespace CheckedLexer

variable {T : Type}

/-- A lexer at the start of a unit that a decoder reads. -/
def ofDecoder? (lexicon : CheckedLexicon T) (preferences : LexicalPreferences) (unit : String)
    (decoder : Decoder) : Checked (CheckedLexer T) := do
  let lines ← LineStream.ofSplitter? preferences.eagerLines { unit, decoder }
  return { lines, lexicon, trackCounts := preferences.trackCounts }

/-- Takes the next line into the window, of which only what follows the cursor is kept. -/
def pull? (c : CheckedLexer T) : Checked (Option (CheckedLexer T)) := do
  match ← c.lines.next? with
  | none => return none
  | some (line, lines) =>
    let c := { c with lines, tally := c.tally.addLine }
    if c.cursor = Text.size c.window then
      return some { c with window := line.raw, cursor := 0, location := line.location }
    else if 0 < c.cursor then
      let kept ← Text.from? c.cursor c.window
      return some { c with window := kept ++ line.raw, cursor := 0 }
    else return some { c with window := c.window ++ line.raw }

/-- What taking a line leaves as it was. -/
theorem of_pull? {c c' : CheckedLexer T} (h : c.pull? = .ok (some c')) :
    (∃ line, c.lines.next = some (line, c'.lines)) ∧ c'.tally = c.tally.addLine ∧
      c'.maxCount = c.maxCount ∧ c'.halted = c.halted ∧ c'.finished = c.finished := by
  obtain ⟨r, hn, h⟩ := exists_of_bind h
  have hnext := c.lines.refines_next? r hn
  cases r with
  | none => cases h
  | some p =>
    obtain ⟨line, lines⟩ := p
    simp only at h
    split at h
    · cases h
      exact ⟨⟨line, hnext.symm⟩, rfl, rfl, rfl, rfl⟩
    · split at h
      · obtain ⟨kept, -, h⟩ := exists_of_bind h
        cases h
        exact ⟨⟨line, hnext.symm⟩, rfl, rfl, rfl, rfl⟩
      · cases h
        exact ⟨⟨line, hnext.symm⟩, rfl, rfl, rfl, rfl⟩

theorem remaining_pull?_lt {c c' : CheckedLexer T} (h : c.pull? = .ok (some c')) :
    c'.lines.remaining < c.lines.remaining :=
  LineStream.remaining_next_lt (of_pull? h).1.choose_spec

/-- Takes lines until something follows the cursor. -/
def fill? (c : CheckedLexer T) : Checked (Option (CheckedLexer T)) :=
  if c.cursor = Text.size c.window then
    match _h : c.pull? with
    | .error e => .error e
    | .ok none => .ok none
    | .ok (some c') => fill? c'
  else .ok (some c)
termination_by c.lines.remaining
decreasing_by exact remaining_pull?_lt _h

/-- Takes `n` bytes behind the cursor. -/
def take? (c : CheckedLexer T) (n : Nat) : Checked (Text × CheckedLexer T) := do
  let text ← Text.between? c.cursor (c.cursor + n) c.window
  let location ← locate (c.location.advance? text)
  return (text, { c with cursor := c.cursor + n, location })

/-- Hands out `n` bytes as an invalid token. -/
def reject? (c : CheckedLexer T) (n : Nat) (error : LexicalError) :
    Checked (Lexeme T × CheckedLexer T) := do
  let (text, c') ← c.take? n
  let span ← locate (Span.covering? c.location text)
  return (.invalid ⟨text, span, error⟩, { c' with tally := c.tally.addInvalid })

/-- Hands out all that follows the cursor as an invalid token. -/
def rejectAll? (c : CheckedLexer T) (error : LexicalError) :
    Checked (Lexeme T × CheckedLexer T) := do
  let n ← sub? (Text.size c.window) c.cursor
  c.reject? n error

variable [Terminal T]

/-- Hands out `n` bytes as a token of the rule at a place in the table. -/
def accept? (c : CheckedLexer T) (rule n : Nat) : Checked (Lexeme T × CheckedLexer T) :=
  if c.maxLength < n then c.reject? n (.tokenTooLong c.maxLength)
  else do
    let (text, c') ← c.take? n
    let r ← get? c.lexicon.rules rule
    let value ← r.decode text
    let span ← locate (Span.covering? c.location text)
    return (.valid ⟨r.terminal, text, value, span⟩,
      { c' with tally := c.tally.addToken c.trackCounts r.terminal })

/-- Hands out a lexeme, or takes a line if it takes one to find the lexeme. -/
def attempt? (c : CheckedLexer T) :
    Checked ((Lexeme T × CheckedLexer T) ⊕ CheckedLexer T) :=
  if c.maxCount ≤ c.tally.total then
    .inl <$> { c with halted := true }.rejectAll? (.tooManyTokens c.maxCount)
  else do
    match ← c.lexicon.longestMatch? (← Text.from? c.cursor c.window) with
    | .matched rule n => .inl <$> c.accept? rule n
    | .needMore rule =>
      if c.maxLength < (← sub? (Text.size c.window) c.cursor) then
        .inl <$> c.rejectAll? (.tokenTooLong c.maxLength)
      else
        match ← c.pull? with
        | some c' => return .inr c'
        | none =>
          let r ← get? c.lexicon.rules rule
          .inl <$> c.rejectAll? (.unterminated (Terminal.name r.terminal))
    | .noMatch =>
      let n ← c.lexicon.unrecognizedSize? (← Text.from? c.cursor c.window)
      .inl <$> c.reject? n .unrecognizedInput

/-- What handing out a lexeme leaves as it was, and that it is counted. -/
structure Emits (c c' : CheckedLexer T) : Prop where
  lines : c'.lines = c.lines
  total : c'.tally.total = c.tally.total + 1
  maxCount : c'.maxCount = c.maxCount
  halted : c'.halted = c.halted
  finished : c'.finished = c.finished

omit [Terminal T] in
theorem of_take? {c c' : CheckedLexer T} {n : Nat} {text : Text}
    (h : c.take? n = .ok (text, c')) :
    ∃ location, c' = { c with cursor := c.cursor + n, location } := by
  obtain ⟨text', -, h⟩ := exists_of_bind h
  obtain ⟨location, -, h⟩ := exists_of_bind h
  cases h
  exact ⟨location, rfl⟩

omit [Terminal T] in
theorem emits_of_reject? {c c' : CheckedLexer T} {n : Nat} {e : LexicalError} {x : Lexeme T}
    (h : c.reject? n e = .ok (x, c')) : c.Emits c' := by
  obtain ⟨⟨text, c''⟩, htake, h⟩ := exists_of_bind h
  obtain ⟨location, rfl⟩ := of_take? htake
  obtain ⟨span, -, h⟩ := exists_of_bind h
  cases h
  exact ⟨rfl, rfl, rfl, rfl, rfl⟩

omit [Terminal T] in
theorem emits_of_rejectAll? {c c' : CheckedLexer T} {e : LexicalError} {x : Lexeme T}
    (h : c.rejectAll? e = .ok (x, c')) : c.Emits c' := by
  obtain ⟨n, -, h⟩ := exists_of_bind h
  exact emits_of_reject? h

theorem emits_of_accept? {c c' : CheckedLexer T} {rule n : Nat} {x : Lexeme T}
    (h : c.accept? rule n = .ok (x, c')) : c.Emits c' := by
  rw [accept?] at h
  split at h
  · exact emits_of_reject? h
  · obtain ⟨⟨text, c''⟩, htake, h⟩ := exists_of_bind h
    obtain ⟨location, rfl⟩ := of_take? htake
    obtain ⟨r, -, h⟩ := exists_of_bind h
    obtain ⟨value, -, h⟩ := exists_of_bind h
    obtain ⟨span, -, h⟩ := exists_of_bind h
    cases h
    exact ⟨rfl, rfl, rfl, rfl, rfl⟩

/-- What an attempt to hand out a lexeme may come to. -/
inductive Attempts (c : CheckedLexer T) : (Lexeme T × CheckedLexer T) ⊕ CheckedLexer T → Prop where
  | halts {x : Lexeme T} {c' : CheckedLexer T} : c'.halted = true → Attempts c (.inl (x, c'))
  | emits {x : Lexeme T} {c' : CheckedLexer T} : c.tally.total < c.maxCount → c.Emits c' →
      Attempts c (.inl (x, c'))
  | pulls {c' : CheckedLexer T} : c.pull? = .ok (some c') → Attempts c (.inr c')

theorem attempts_of_attempt? {c : CheckedLexer T}
    {r : (Lexeme T × CheckedLexer T) ⊕ CheckedLexer T} (h : c.attempt? = .ok r) :
    c.Attempts r := by
  rw [attempt?] at h
  split at h
  · obtain ⟨⟨x, c'⟩, hreject, rfl⟩ := exists_of_map h
    exact .halts (emits_of_rejectAll? hreject).halted
  · next hcount =>
    have hcount := Nat.not_le.1 hcount
    obtain ⟨behind, -, h⟩ := exists_of_bind h
    obtain ⟨found, -, h⟩ := exists_of_bind h
    cases found with
    | matched rule n =>
      obtain ⟨⟨x, c'⟩, haccept, rfl⟩ := exists_of_map h
      exact .emits hcount (emits_of_accept? haccept)
    | needMore rule =>
      obtain ⟨size, -, h⟩ := exists_of_bind h
      split at h
      · obtain ⟨⟨x, c'⟩, hreject, rfl⟩ := exists_of_map h
        exact .emits hcount (emits_of_rejectAll? hreject)
      · obtain ⟨pulled, hpull, h⟩ := exists_of_bind h
        cases pulled with
        | some c' =>
          cases h
          exact .pulls hpull
        | none =>
          obtain ⟨r, -, h⟩ := exists_of_bind h
          obtain ⟨⟨x, c'⟩, hreject, rfl⟩ := exists_of_map h
          exact .emits hcount (emits_of_rejectAll? hreject)
    | noMatch =>
      obtain ⟨behind, -, h⟩ := exists_of_bind h
      obtain ⟨n, -, h⟩ := exists_of_bind h
      obtain ⟨⟨x, c'⟩, hreject, rfl⟩ := exists_of_map h
      exact .emits hcount (emits_of_reject? hreject)

/-- Hands out a lexeme from a window in which something follows the cursor. -/
def classify? (c : CheckedLexer T) : Checked (Lexeme T × CheckedLexer T) :=
  match _h : c.attempt? with
  | .error e => .error e
  | .ok (.inl r) => .ok r
  | .ok (.inr c') => classify? c'
termination_by c.lines.remaining
decreasing_by
  cases attempts_of_attempt? _h with
  | pulls hpull => exact remaining_pull?_lt hpull

/-- The end of the input, at which the counts are told. -/
def finish? (c : CheckedLexer T) : Checked (Lexeme T × CheckedLexer T) := do
  let _ ← c.tally.significant?
  return (.endOfInput, { c with finished := true })

/-- At the end of the lines: a failure of the source is handed out once, then the input ends. -/
def exhaust? (c : CheckedLexer T) : Checked (Lexeme T × CheckedLexer T) :=
  match c.lines.takeFault with
  | (some fault, lines) =>
    let location := lines.endLocation
    .ok (.invalid ⟨[], .point location, .split fault⟩,
      { c with lines, location, tally := c.tally.addInvalid })
  | (none, lines) => { c with lines }.finish?

/-- Hands out the next lexeme. -/
def next? (c : CheckedLexer T) : Checked (Lexeme T × CheckedLexer T) :=
  if c.finished then .ok (.endOfInput, c)
  else if c.halted then c.finish?
  else do
    match ← c.fill? with
    | some c' => c'.classify?
    | none => c.exhaust?

/-! ### The end comes closer -/

/-- An upper bound for the lexemes that are still to come, by the number that there may be. -/
def remaining (c : CheckedLexer T) : Nat :=
  if c.halted || c.finished then 0
  else c.maxCount - c.tally.total + Lexer.faultRoom c.lines + 1

/-- A lexer that has not come to the end of its input. -/
structure IsLive (c : CheckedLexer T) : Prop where
  finished : c.finished = false
  halted : c.halted = false

omit [Terminal T] in
theorem IsLive.remaining_eq {c : CheckedLexer T} (h : c.IsLive) :
    c.remaining = c.maxCount - c.tally.total + Lexer.faultRoom c.lines + 1 := by
  simp [remaining, h.finished, h.halted]

omit [Terminal T] in
theorem IsLive.pull? {c c' : CheckedLexer T} (live : c.IsLive) (h : c.pull? = .ok (some c')) :
    c'.IsLive ∧ c'.remaining ≤ c.remaining := by
  obtain ⟨⟨line, hn⟩, htally, hcount, hhalted, hfinished⟩ := of_pull? h
  have live' : c'.IsLive := ⟨hfinished.trans live.finished, hhalted.trans live.halted⟩
  -- There was a line, so it was not certain that no failure comes.
  have hend : c.lines.isAtEnd = false := by
    cases hl : c.lines.lookahead with
    | none => simp [LineStream.next, hl] at hn
    | some l => simp [LineStream.isAtEnd, hl]
  have hroom : Lexer.faultRoom c'.lines ≤ Lexer.faultRoom c.lines := by
    simp only [Lexer.faultRoom, hend, Bool.false_and]
    split <;> simp
  rw [live.remaining_eq, live'.remaining_eq, htally, hcount]
  exact ⟨live', Nat.add_le_add_right (Nat.add_le_add_left hroom _) 1⟩

omit [Terminal T] in
theorem IsLive.fill? {c c' : CheckedLexer T} (live : c.IsLive) (h : c.fill? = .ok (some c')) :
    c'.IsLive ∧ c'.remaining ≤ c.remaining := by
  fun_induction CheckedLexer.fill? c with
  | case1 => cases h
  | case2 => cases h
  | case3 c _ c₁ hp ih =>
    obtain ⟨live₁, hle₁⟩ := live.pull? hp
    obtain ⟨live', hle⟩ := ih live₁ h
    exact ⟨live', hle.trans hle₁⟩
  | case4 c =>
    cases h
    exact ⟨live, Nat.le_refl _⟩

theorem IsLive.classify? {c c' : CheckedLexer T} {x : Lexeme T} (live : c.IsLive)
    (h : c.classify? = .ok (x, c')) : c'.remaining < c.remaining := by
  fun_induction CheckedLexer.classify? c with
  | case1 => cases h
  | case2 c r hr =>
    cases h
    rw [live.remaining_eq]
    cases attempts_of_attempt? hr with
    | halts hhalted =>
      rw [remaining, hhalted, Bool.true_or, if_pos rfl]
      exact Nat.succ_pos _
    | emits hcount he =>
      have live' : c'.IsLive := ⟨he.finished.trans live.finished, he.halted.trans live.halted⟩
      rw [live'.remaining_eq, he.lines, he.maxCount, he.total]
      omega
  | case3 c c₁ hr ih =>
    cases attempts_of_attempt? hr with
    | pulls hp =>
      obtain ⟨live₁, hle⟩ := live.pull? hp
      exact (ih live₁ h).trans_le hle

omit [Terminal T] in
theorem IsLive.exhaust? {c c' : CheckedLexer T} {x : Lexeme T} (live : c.IsLive)
    (h : c.exhaust? = .ok (x, c')) (hx : x ≠ .endOfInput) : c'.remaining < c.remaining := by
  rw [CheckedLexer.exhaust?] at h
  split at h
  · next fault lines hfault =>
    cases h
    rw [LineStream.takeFault] at hfault
    split at hfault
    · next hend =>
      obtain ⟨hsome, rfl⟩ := Prod.mk.inj hfault
      have live' : ({ c with
          lines := { c.lines with fault := none }
          location := c.lines.endLocation
          tally := c.tally.addInvalid } : CheckedLexer T).IsLive := ⟨live.finished, live.halted⟩
      have hnone : ({ c.lines with fault := none } : LineStream).isAtEnd = true := hend
      rw [live.remaining_eq, live'.remaining_eq]
      simp only [Lexer.faultRoom, hend, hnone, hsome, Tally.addInvalid]
      simp
      omega
    · cases hfault
  · obtain ⟨n, -, h⟩ := exists_of_bind h
    cases h
    exact absurd rfl hx

/-- **A lexeme that is handed out brings the end closer**, whether or not there are numbers. -/
theorem remaining_next?_lt {c c' : CheckedLexer T} {x : Lexeme T} (h : c.next? = .ok (x, c'))
    (hx : x ≠ .endOfInput) : c'.remaining < c.remaining := by
  rw [next?] at h
  split at h
  · cases h
    exact absurd rfl hx
  · next hfinished =>
    split at h
    · obtain ⟨n, -, h⟩ := exists_of_bind h
      cases h
      exact absurd rfl hx
    · next hhalted =>
      have live : c.IsLive := ⟨by simpa using hfinished, by simpa using hhalted⟩
      obtain ⟨filled, hfill, h⟩ := exists_of_bind h
      cases filled with
      | some c₁ =>
        obtain ⟨live₁, hle⟩ := live.fill? hfill
        exact (live₁.classify? h).trans_le hle
      | none => exact live.exhaust? h hx

/-! ### The lexer that a checked one stands for -/

/-- The lexer with another table, if this is what follows the cursor. -/
def view (c : CheckedLexer T) (lexicon : Lexicon T) (rest : Text) : Lexer T where
  lines := c.lines
  lexicon := lexicon
  trackCounts := c.trackCounts
  maxLength := c.maxLength
  maxCount := c.maxCount
  window := rest
  location := c.location
  tally := c.tally
  halted := c.halted
  finished := c.finished

/-- A checked lexer stands for a lexer whose table agrees with its own and whose window is what
follows the cursor. -/
inductive Views (c : CheckedLexer T) : Lexer T → Prop where
  | intro {lexicon : Lexicon T} {rest : Text} : c.lexicon.Agrees lexicon →
      c.window.HasRest c.cursor rest → Views c (c.view lexicon rest)

namespace Views

variable {c : CheckedLexer T} {l : Lexer T}

omit [Terminal T]

theorem lexicon (h : c.Views l) : c.lexicon.Agrees l.lexicon := by
  cases h with
  | intro hlexicon _ => exact hlexicon

theorem window (h : c.Views l) : c.window.HasRest c.cursor l.window := by
  cases h with
  | intro _ hrest => exact hrest

theorem maxLength (h : c.Views l) : c.maxLength = l.maxLength := by
  cases h
  rfl

theorem maxCount (h : c.Views l) : c.maxCount = l.maxCount := by
  cases h
  rfl

theorem tally (h : c.Views l) : c.tally = l.tally := by
  cases h
  rfl

theorem halted (h : c.Views l) : c.halted = l.halted := by
  cases h
  rfl

theorem finished (h : c.Views l) : c.finished = l.finished := by
  cases h
  rfl

end Views

end CheckedLexer

namespace Lexer

variable {T : Type} {l l' : Lexer T} {read : Text}

/-- A lexer that knows where it is, with numbers for what is still to come. -/
structure HasNumbers (l : Lexer T) (read : Text) : Prop where
  located : l.Located read
  lines : l.lines.HasNumbers
  length_lt : (read ++ l.pending).length + 1 < Location.maxOrdinal
  tally : l.tally.IsSound

/-- Where reading some text from the start of a unit leads to. -/
theorem isWithin_start (unit : String) (t : Text) :
    ((Location.start unit).advance t).IsWithin (1 + t.length) :=
  (Location.IsWithin.advance ⟨Nat.le_refl 1, Nat.le_refl 1⟩ t).1

/-- **A line can be taken.** -/
theorem HasNumbers.lines_next? (h : l.HasNumbers read) : l.lines.next? = .ok l.lines.next ∧
    ∀ line lines, l.lines.next = some (line, lines) → lines.HasNumbers := by
  refine h.lines.next fun line hline ↦ ?_
  have hlines : l.lines.lines = line :: l.lines.supply.lines := by rw [LineStream.lines, hline]; rfl
  obtain ⟨n, hn, hadvance⟩ := h.located.lines (by rw [hlines]; exact List.cons_ne_nil _ _)
  rw [hlines] at hn
  have hwithin := isWithin_start l.unit (read ++ l.window)
  rw [hadvance, ← hn.heads.location] at hwithin
  refine ⟨_, hwithin, ?_⟩
  have hlt := h.length_lt
  rw [pending, LineStream.pending, hlines] at hlt
  simp only [List.flatMap_cons, Line.raw, List.length_append] at hlt ⊢
  omega

/-- **Every front of the window leads to a location.** -/
theorem HasNumbers.advance? (h : l.HasNumbers read) {text rest : Text}
    (hw : l.window = text ++ rest) :
    l.location.advance? text = .ok (l.location.advance text) := by
  have hwithin := isWithin_start l.unit read
  rw [← h.located.location] at hwithin
  refine (hwithin.advance text).2 ?_
  have hlt := h.length_lt
  rw [pending, hw] at hlt
  simp only [List.length_append] at hlt
  omega

theorem HasNumbers.pull (h : l.HasNumbers read) (hp : l.pull = some l') : l'.HasNumbers read := by
  have hpending := pending_of_pull hp
  obtain ⟨⟨line, lines⟩, hn, rfl⟩ := Option.map_eq_some_iff.1 hp
  exact {
    located := (h.located.pull hp).1
    lines := h.lines_next?.2 line lines hn
    length_lt := hpending ▸ h.length_lt
    tally := h.tally }

variable [Terminal T]

theorem HasNumbers.classifies {p : Lexeme T × Lexer T} (h : l.HasNumbers read)
    (hp : Classifies l p) :
    p.2.lines.HasNumbers ∧ p.2.tally.IsSound := by
  induction hp with
  | full _ => exact ⟨h.lines, h.tally.addInvalid⟩
  | unrecognized _ _ => exact ⟨h.lines, h.tally.addInvalid⟩
  | matched _ _ _ =>
    rw [accept]
    split
    · exact ⟨h.lines, h.tally.addInvalid⟩
    · exact ⟨h.lines, h.tally.addToken _ _⟩
  | overlong _ _ _ => exact ⟨h.lines, h.tally.addInvalid⟩
  | unterminated _ _ _ _ => exact ⟨h.lines, h.tally.addInvalid⟩
  | more _ _ _ hpull _ ih => exact ih (h.pull hpull)

/-- **There are numbers to the end.** -/
theorem HasNumbers.next (h : l.HasNumbers read) (hl : Lexicon.KeepsBreaks l.lexicon.rules) :
    l.next.2.HasNumbers (read ++ l.next.1.text) ∧ Lexicon.KeepsBreaks l.next.2.lexicon.rules := by
  obtain ⟨hlocated, htiles⟩ := h.located.next hl
  have hpending := (text_next_append_pending h.located.isFed).1
  have hkept : l.next.2.lines.HasNumbers ∧ l.next.2.tally.IsSound := by
    have hsteps := steps_next h.located.isFed
    generalize l.next = p at hsteps ⊢
    cases hsteps with
    | finished _ => exact ⟨h.lines, h.tally⟩
    | halted _ _ => exact ⟨h.lines, h.tally⟩
    | fault _ _ _ _ => exact ⟨h.lines, h.tally.addInvalid⟩
    | exhausted _ _ _ _ => exact ⟨h.lines, h.tally⟩
    | filled _ _ hc => exact h.classifies hc
    | empty _ _ hpull hc => exact (h.pull hpull).classifies hc
  refine ⟨⟨hlocated, hkept.1, ?_, hkept.2⟩, htiles.lexicon ▸ hl⟩
  rw [List.append_assoc, hpending]
  exact h.length_lt

end Lexer

namespace CheckedLexer

variable {T : Type} {c : CheckedLexer T} {l : Lexer T} {read : Text}

theorem Views.pull (h : c.Views l) (hroom : l.HasNumbers read) :
    c.pull? = .ok none ∧ l.pull = none ∨
      ∃ c' l', c.pull? = .ok (some c') ∧ l.pull = some l' ∧ c'.Views l' := by
  have hnext := hroom.lines_next?.1
  cases h with
  | @intro lexicon rest hlexicon hrest =>
    have hnext : c.lines.next? = .ok (c.view lexicon rest).lines.next := hnext
    rw [pull?, hnext, ok_bind, Lexer.pull]
    cases (c.view lexicon rest).lines.next with
    | none => exact .inl ⟨rfl, rfl⟩
    | some p =>
      obtain ⟨line, lines⟩ := p
      have hsize := hrest.add_size
      cases rest with
      | nil =>
        have hend : c.cursor = Text.size c.window := hsize
        simp only [if_pos hend]
        exact .inr ⟨_, _, rfl, rfl, .intro hlexicon (Text.hasRest_zero line.raw)⟩
      | cons d rest =>
        have hpos := Text.size_pos (List.cons_ne_nil d rest)
        have hend : c.cursor ≠ Text.size c.window := by omega
        simp only [if_neg hend]
        by_cases hcursor : 0 < c.cursor
        · simp only [if_pos hcursor, hrest.from?_eq, ok_bind]
          exact .inr ⟨_, _, rfl, rfl, .intro hlexicon (Text.hasRest_zero (d :: rest ++ line.raw))⟩
        · simp only [if_neg hcursor]
          exact .inr ⟨_, _, rfl, rfl, .intro hlexicon (hrest.append_right line.raw)⟩

theorem Views.pull?_of_none (h : c.Views l) (hroom : l.HasNumbers read) (hp : l.pull = none) :
    c.pull? = .ok none := by
  rcases h.pull hroom with ⟨hpull, -⟩ | ⟨_, _, -, hl, -⟩
  · exact hpull
  · rw [hp] at hl
    cases hl

theorem Views.pull?_of_some {l' : Lexer T} (h : c.Views l) (hroom : l.HasNumbers read)
    (hp : l.pull = some l') : ∃ c', c.pull? = .ok (some c') ∧ c'.Views l' := by
  rcases h.pull hroom with ⟨-, hl⟩ | ⟨c', _, hpull, hl, hviews⟩
  · rw [hp] at hl
    cases hl
  · obtain rfl := Option.some.inj (hl.symm.trans hp)
    exact ⟨c', hpull, hviews⟩

theorem fill?_of_pull? {r : Option (CheckedLexer T)} (hw : c.cursor = Text.size c.window)
    (h : c.pull? = .ok r) : c.fill? = r.elim (.ok none) fill? := by
  rw [fill?, if_pos hw]
  split <;> rename_i h' <;> rw [h] at h' <;> cases h' <;> rfl

theorem Views.cursor_eq_iff (h : c.Views l) : c.cursor = Text.size c.window ↔ l.window = [] := by
  have hsize := h.window.add_size
  refine ⟨fun hend ↦ ?_, fun hnil ↦ ?_⟩
  · by_contra hne
    have hpos := Text.size_pos hne
    omega
  · rw [hnil] at hsize
    exact hsize

/-- Both lexers get to a window that is not empty, or to the end of the lines. -/
theorem Views.fill (h : c.Views l) (hroom : l.HasNumbers read) :
    c.fill? = .ok none ∧ l.fill = none ∨
      ∃ c' l', c.fill? = .ok (some c') ∧ l.fill = some l' ∧ c'.Views l' ∧ l'.HasNumbers read := by
  fun_induction Lexer.fill l generalizing c with
  | case1 l hw hp =>
    have hend := h.cursor_eq_iff.2 (List.isEmpty_iff.1 hw)
    exact .inl ⟨fill?_of_pull? hend (h.pull?_of_none hroom hp), rfl⟩
  | case2 l hw l₁ hp ih =>
    have hend := h.cursor_eq_iff.2 (List.isEmpty_iff.1 hw)
    obtain ⟨c₁, hpull, hviews⟩ := h.pull?_of_some hroom hp
    rw [fill?_of_pull? hend hpull]
    exact ih hviews (hroom.pull hp)
  | case3 l hw =>
    refine .inr ⟨c, l, ?_, rfl, h, hroom⟩
    rw [fill?, if_neg (mt h.cursor_eq_iff.1 (by simpa using hw))]

/-- What follows the cursor begins with a text that can be sliced off. -/
theorem take?_eq {text rest : Text} (hrest : c.window.HasRest c.cursor (text ++ rest))
    (hadvance : c.location.advance? text = .ok (c.location.advance text)) :
    c.take? (Text.size text) = .ok (text, { c with
      cursor := c.cursor + Text.size text
      location := c.location.advance text }) := by
  obtain ⟨front, hwindow, hcursor⟩ := hrest
  have hslice : Text.between? c.cursor (c.cursor + Text.size text) c.window = .ok text := by
    rw [hwindow, hcursor, Text.between?_append]
  rw [take?, hslice, ok_bind, hadvance]
  rfl

theorem covering?_eq {start : Location} {t : Text}
    (h : start.advance? t = .ok (start.advance t)) :
    locate (Span.covering? start t) = .ok (.covering start t) := by
  rw [Span.covering?, h]
  rfl

/-- **A front of the window is handed out as an invalid token.** -/
theorem Views.reject (h : c.Views l) {text rest : Text} (hw : l.window = text ++ rest)
    (hadvance : l.location.advance? text = .ok (l.location.advance text)) (e : LexicalError) :
    ∃ c', c.reject? (Text.size text) e = .ok ((l.reject (Text.size text) e).1, c') ∧
      c'.Views (l.reject (Text.size text) e).2 := by
  rw [Lexer.reject, hw, Lexer.cut_size_append]
  cases h with
  | @intro lexicon _ hlexicon hrest =>
    obtain rfl : _ = text ++ rest := hw
    have hadvance : c.location.advance? text = .ok (c.location.advance text) := hadvance
    rw [reject?, take?_eq hrest hadvance, ok_bind]
    simp only [covering?_eq hadvance, ok_bind]
    exact ⟨_, rfl, .intro hlexicon hrest.append⟩

theorem Views.rejectAll (h : c.Views l)
    (hadvance : l.location.advance? l.window = .ok (l.location.advance l.window))
    (e : LexicalError) :
    ∃ c', c.rejectAll? e = .ok ((l.rejectAll e).1, c') ∧ c'.Views (l.rejectAll e).2 := by
  obtain ⟨c', hreject, hviews⟩ := h.reject (List.append_nil _).symm hadvance e
  refine ⟨c', ?_, hviews⟩
  cases h with
  | @intro lexicon rest hlexicon hrest =>
    have hsize := hrest.add_size
    rw [rejectAll?, sub?_of_le (by omega), ok_bind, ← hsize, Nat.add_sub_cancel_left]
    exact hreject

variable [Terminal T]

/-- **A front of the window is handed out as a token.** -/
theorem Views.accept (h : c.Views l) {text rest : Text} (hw : l.window = text ++ rest)
    (hadvance : l.location.advance? text = .ok (l.location.advance text)) {i : Nat} {r : Rule T}
    (hr : l.lexicon.rules[i]? = some r) :
    ∃ c', c.accept? i (Text.size text) = .ok ((l.accept r (Text.size text)).1, c') ∧
      c'.Views (l.accept r (Text.size text)).2 := by
  rw [accept?, Lexer.accept, h.maxLength]
  split
  · exact h.reject hw hadvance _
  · rw [hw, Lexer.cut_size_append]
    cases h with
    | @intro lexicon _ hlexicon hrest =>
      obtain rfl : _ = text ++ rest := hw
      obtain ⟨r', hr', hagrees⟩ := hlexicon.get? hr
      have hadvance : c.location.advance? text = .ok (c.location.advance text) := hadvance
      rw [take?_eq hrest hadvance, ok_bind]
      simp only [hr', ok_bind, hagrees.decode, covering?_eq hadvance, hagrees.terminal]
      exact ⟨_, rfl, .intro hlexicon hrest.append⟩

/-- An attempt depends on what the table finds in the window. -/
theorem Views.attempt?_eq (h : c.Views l) (hcount : l.tally.total < l.maxCount) :
    c.attempt? = match Lexicon.longestMatch l.lexicon.rules l.window with
      | .matched rule n => .inl <$> c.accept? rule n
      | .needMore rule =>
        if l.maxLength < Text.size l.window then .inl <$> c.rejectAll? (.tokenTooLong l.maxLength)
        else do
          match ← c.pull? with
          | some c' => return .inr c'
          | none =>
            let r ← get? c.lexicon.rules rule
            .inl <$> c.rejectAll? (.unterminated (Terminal.name r.terminal))
      | .noMatch =>
        .inl <$> c.reject? (Lexicon.unrecognizedSize l.lexicon.rules l.window)
          .unrecognizedInput := by
  have hsize := h.window.add_size
  rw [attempt?, h.maxCount, h.tally, if_neg (Nat.not_le.2 hcount), h.window.from?_eq, ok_bind,
    h.lexicon.longestMatch?_eq, ok_bind, sub?_of_le (by omega), ← hsize, Nat.add_sub_cancel_left,
    h.maxLength]
  cases Lexicon.longestMatch l.lexicon.rules l.window with
  | matched rule n => rfl
  | needMore rule => rfl
  | noMatch => simp only [ok_bind, h.lexicon.unrecognizedSize?_eq]

/-- An attempt that hands out a lexeme is the last one. -/
theorem classify?_of_attempt? {r : Lexeme T × CheckedLexer T} (h : c.attempt? = .ok (.inl r)) :
    c.classify? = .ok r := by
  rw [classify?]
  split <;> rename_i h' <;> rw [h] at h' <;> cases h'
  rfl

theorem classify?_of_attempt?_pull {c' : CheckedLexer T} (h : c.attempt? = .ok (.inr c')) :
    c.classify? = c'.classify? := by
  rw [classify?]
  split <;> rename_i h' <;> rw [h] at h' <;> cases h'
  rfl

/-- **The window becomes a lexeme**, after lines were taken into it if need be. -/
theorem Views.classifies {p : Lexeme T × Lexer T} (hp : Lexer.Classifies l p) (h : c.Views l)
    (hroom : l.HasNumbers read) : ∃ c', c.classify? = .ok (p.1, c') ∧ c'.Views p.2 := by
  induction hp generalizing c with
  | @full l hcount =>
    have hhalted : Views { c with halted := true } { l with halted := true } := by
      cases h with
      | intro hlexicon hrest => exact .intro hlexicon hrest
    have hadvance := hroom.advance? (List.append_nil l.window).symm
    obtain ⟨c', hreject, hviews⟩ := hhalted.rejectAll hadvance (.tooManyTokens l.maxCount)
    have hcount : c.maxCount ≤ c.tally.total := by rwa [h.maxCount, h.tally]
    have herror := congrArg LexicalError.tooManyTokens h.maxCount
    refine ⟨c', classify?_of_attempt? ?_, hviews⟩
    rw [attempt?, if_pos hcount, herror, hreject, map_ok]
  | @unrecognized l hcount hmatch =>
    obtain ⟨text, rest, hw, hn⟩ := Lexicon.unrecognizedSize_eq_size l.lexicon.rules l.window
    obtain ⟨c', hreject, hviews⟩ := h.reject hw (hroom.advance? hw) .unrecognizedInput
    rw [hn]
    refine ⟨c', classify?_of_attempt? ?_, hviews⟩
    simp only [h.attempt?_eq hcount, hmatch, hn, hreject, map_ok]
  | @matched l i n r hcount hmatch hr =>
    obtain ⟨-, -, hb⟩ := Lexicon.scan_of_longestMatch_eq_matched hmatch
    obtain ⟨text, rest, hw, rfl⟩ := Text.isBoundary_iff.1 hb
    obtain ⟨c', haccept, hviews⟩ := h.accept hw (hroom.advance? hw) hr
    refine ⟨c', classify?_of_attempt? ?_, hviews⟩
    simp only [h.attempt?_eq hcount, hmatch, haccept, map_ok]
  | @overlong l i hcount hmatch hlong =>
    have hadvance := hroom.advance? (List.append_nil l.window).symm
    obtain ⟨c', hreject, hviews⟩ := h.rejectAll hadvance (.tokenTooLong l.maxLength)
    refine ⟨c', classify?_of_attempt? ?_, hviews⟩
    simp only [h.attempt?_eq hcount, hmatch, if_pos hlong, hreject, map_ok]
  | @unterminated l i hcount hmatch hshort hlines =>
    obtain ⟨r, hr, -⟩ := Lexicon.exists_needMore_of_longestMatch hmatch
    obtain ⟨r', hr', hagrees⟩ := h.lexicon.get? hr
    have hadvance := hroom.advance? (List.append_nil l.window).symm
    obtain ⟨c', hreject, hviews⟩ := h.rejectAll hadvance (.unterminated (l.construct i))
    have hpull := h.pull?_of_none hroom (Lexer.pull_eq_none_iff.2 hlines)
    have hname : l.construct i = Terminal.name r'.terminal := by
      rw [Lexer.construct, hr, hagrees.terminal]
      rfl
    refine ⟨c', classify?_of_attempt? ?_, hviews⟩
    rw [hname] at hreject ⊢
    simp only [h.attempt?_eq hcount, hmatch, if_neg (Nat.not_lt.2 hshort), hpull, ok_bind, hr',
      hreject, map_ok]
  | @more l l' i p hcount hmatch hshort hpull _ ih =>
    obtain ⟨c', hpull', hviews⟩ := h.pull?_of_some hroom hpull
    have hattempt : c.attempt? = .ok (.inr c') := by
      simp only [h.attempt?_eq hcount, hmatch, if_neg (Nat.not_lt.2 hshort), hpull', ok_bind,
        pure_eq]
    rw [classify?_of_attempt?_pull hattempt]
    exact ih hviews (hroom.pull hpull)

omit [Terminal T] in
theorem Views.exhaust (h : c.Views l) (htally : l.tally.IsSound) :
    ∃ c', c.exhaust? = .ok (l.exhaust.1, c') ∧ c'.Views l.exhaust.2 := by
  cases h with
  | @intro lexicon rest hlexicon hrest =>
    rw [exhaust?, Lexer.exhaust]
    simp only [view]
    generalize c.lines.takeFault = r
    obtain ⟨_ | fault, lines⟩ := r
    · have hsound : c.tally.significant? = .ok c.tally.significant := htally.significant?_eq
      simp only [finish?, hsound, ok_bind]
      exact ⟨_, rfl, .intro hlexicon hrest⟩
    · exact ⟨_, rfl, .intro hlexicon hrest⟩

/-- **As long as there are numbers both lexers hand out the same**, and the checked one stands for
the other one after that. -/
theorem Views.next (h : c.Views l) (hroom : l.HasNumbers read) :
    ∃ c', c.next? = .ok (l.next.1, c') ∧ c'.Views l.next.2 := by
  rw [next?, Lexer.next, h.finished, h.halted]
  split
  · exact ⟨c, rfl, h⟩
  · split
    · rw [finish?, h.tally, hroom.tally.significant?_eq]
      cases h with
      | intro hlexicon hrest => exact ⟨_, rfl, .intro hlexicon hrest⟩
    · rcases h.fill hroom with ⟨hfill, hl⟩ | ⟨c', l', hfill, hl, hviews, hroom'⟩
      · rw [hfill, hl, ok_bind]
        exact h.exhaust hroom.tally
      · rw [hfill, hl, ok_bind]
        exact hviews.classifies (Lexer.classifies_classify l') hroom'

end CheckedLexer

end LexFront
