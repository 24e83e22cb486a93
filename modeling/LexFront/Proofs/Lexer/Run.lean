import LexFront.Lexeme.Stream
import LexFront.Proofs.Line.Locating
import LexFront.Proofs.Line.Pending

/-!
# Runs of the lexer

What one call of the lexer may do, said once. `Classifies` has one case for each way in which a
window becomes a lexeme, and one for the window that grows by a line; `Steps` puts the ends of the
input beside it. Everything that holds of a whole run is an induction over calls, each of which is
one of these cases.

A run is looked at in two ways: `lexemes` is all that is handed out before the end of the input, and
`after n` is the lexer after `n` calls, whether or not the input has ended by then.

Key facts:

* `steps_next`: a call does one of the things that `Steps` lists.
* `Classifies.exists_cut`: a lexeme is cut off the front of the window, which may have grown first.
* `rest_ofSource_fst`: a stream over the lexer hands out the same lexemes.
-/

set_option autoImplicit false

namespace LexFront

/-- Why a lexeme is invalid. -/
def Lexeme.error? {T : Type} : Lexeme T → Option LexicalError
  | .invalid i => some i.error
  | _ => none

namespace Lexer

variable {T : Type}

/-- A lexer with other limits on its tokens. -/
def withLimits (l : Lexer T) (maxLength maxCount : Nat) : Lexer T := { l with maxLength, maxCount }

/-- The characters that are still to be handed out. -/
def pending (l : Lexer T) : Text := l.window ++ l.lines.pending

/-- The lines that are still to be taken follow each other. -/
def IsFed (l : Lexer T) : Prop := ∃ n, Line.Consecutive l.unit n l.lines.lines

/-- A lexer that has not come to the end of its input. -/
structure IsLive (l : Lexer T) : Prop where
  finished : l.finished = false
  halted : l.halted = false

/-! ### Taking lines -/

theorem pull_eq_some {l l' : Lexer T} (h : l.pull = some l') :
    ∃ line lines, l.lines.Takes line lines ∧
      l' = { l with
        lines
        window := l.window ++ line.raw
        location := if l.window.isEmpty then line.location else l.location
        tally := l.tally.addLine } := by
  obtain ⟨⟨line, lines⟩, hn, rfl⟩ := Option.map_eq_some_iff.1 h
  exact ⟨line, lines, LineStream.takes_of_next hn, rfl⟩

theorem pull_eq_none_iff {l : Lexer T} : l.pull = none ↔ l.lines.lines = [] := by
  rw [pull, Option.map_eq_none_iff, LineStream.next_eq_none_iff]

/-- A line that is taken moves into the window. -/
theorem pending_of_pull {l l' : Lexer T} (h : l.pull = some l') : l'.pending = l.pending := by
  obtain ⟨line, lines, ht, rfl⟩ := pull_eq_some h
  simp [pending, LineStream.pending, ht.lines]

theorem IsFed.pull {l l' : Lexer T} (hl : l.IsFed) (h : l.pull = some l') :
    l'.IsFed ∧ l'.window ≠ [] := by
  obtain ⟨line, lines, ht, rfl⟩ := pull_eq_some h
  obtain ⟨n, hn⟩ := hl
  rw [ht.lines] at hn
  have hline := hn.heads
  refine ⟨⟨n + 1, ?_⟩, by simp [hline.raw_ne_nil]⟩
  rw [unit, ht.unit]
  exact hline.rest

/-- A lexer whose window is empty takes one line, for no line is empty. -/
theorem fill_of_isFed {l : Lexer T} (hl : l.IsFed) :
    l.fill = if l.window.isEmpty then l.pull else some l := by
  rw [fill]
  split
  · split
    · next h => exact h.symm
    · next l' h => rw [fill, if_neg (by simpa using (hl.pull h).2), h]
  · rfl

/-! ### One call -/

variable [Terminal T]

/-- How a window becomes a lexeme. -/
inductive Classifies : Lexer T → Lexeme T × Lexer T → Prop where
  /-- There were as many lexemes as there may be. -/
  | full {l : Lexer T} : l.maxCount ≤ l.tally.total →
      Classifies l ({ l with halted := true }.rejectAll (.tooManyTokens l.maxCount))
  | unrecognized {l : Lexer T} : l.tally.total < l.maxCount →
      Lexicon.longestMatch l.lexicon.rules l.window = .noMatch →
      Classifies l
        (l.reject (Lexicon.unrecognizedSize l.lexicon.rules l.window) .unrecognizedInput)
  | matched {l : Lexer T} {i n : Nat} {r : Rule T} : l.tally.total < l.maxCount →
      Lexicon.longestMatch l.lexicon.rules l.window = .matched i n →
      l.lexicon.rules[i]? = some r → Classifies l (l.accept r n)
  /-- The window is too long for a token that does not end in it. -/
  | overlong {l : Lexer T} {i : Nat} : l.tally.total < l.maxCount →
      Lexicon.longestMatch l.lexicon.rules l.window = .needMore i →
      l.maxLength < Text.size l.window → Classifies l (l.rejectAll (.tokenTooLong l.maxLength))
  | unterminated {l : Lexer T} {i : Nat} : l.tally.total < l.maxCount →
      Lexicon.longestMatch l.lexicon.rules l.window = .needMore i →
      Text.size l.window ≤ l.maxLength → l.lines.lines = [] →
      Classifies l (l.rejectAll (.unterminated (l.construct i)))
  /-- A line is taken, and the longer window becomes the lexeme. -/
  | more {l l' : Lexer T} {i : Nat} {p : Lexeme T × Lexer T} : l.tally.total < l.maxCount →
      Lexicon.longestMatch l.lexicon.rules l.window = .needMore i →
      Text.size l.window ≤ l.maxLength → l.pull = some l' → Classifies l' p → Classifies l p

theorem classifies_classify (l : Lexer T) : Classifies l l.classify := by
  fun_induction classify l with
  | case1 l h => exact .full h
  | case2 l h hm => exact .unrecognized (Nat.not_le.1 h) hm
  | case3 l h i n hm r hr => exact .matched (Nat.not_le.1 h) hm hr
  | case4 l h i n hm hr =>
    obtain ⟨⟨r, hr', _⟩, _⟩ := Lexicon.scan_of_longestMatch_eq_matched hm
    rw [hr] at hr'
    cases hr'
  | case5 l h i hm hs => exact .overlong (Nat.not_le.1 h) hm hs
  | case6 l h i hm hs l' hp ih => exact .more (Nat.not_le.1 h) hm (Nat.not_lt.1 hs) hp ih
  | case7 l h i hm hs hp =>
    exact .unterminated (Nat.not_le.1 h) hm (Nat.not_lt.1 hs) (pull_eq_none_iff.1 hp)

/-- What a call may do. -/
inductive Steps (l : Lexer T) : Lexeme T × Lexer T → Prop where
  | finished : l.finished = true → Steps l (.endOfInput, l)
  | halted : l.finished = false → l.halted = true →
      Steps l (.endOfInput, { l with finished := true })
  /-- Everything was handed out, and the source failed behind it. -/
  | fault {e : SplitError} : l.IsLive → l.window = [] → l.lines.lines = [] →
      l.lines.ending = some e →
      Steps l (.invalid ⟨[], .point l.lines.endLocation, .split e⟩,
        { l with
          lines := { l.lines with fault := none }
          location := l.lines.endLocation
          tally := l.tally.addInvalid })
  | exhausted : l.IsLive → l.window = [] → l.lines.lines = [] → l.lines.ending = none →
      Steps l (.endOfInput,
        { l with lines := { l.lines with fault := none }, finished := true })
  | filled {p : Lexeme T × Lexer T} : l.IsLive → l.window ≠ [] → Classifies l p → Steps l p
  | empty {l' : Lexer T} {p : Lexeme T × Lexer T} : l.IsLive → l.window = [] →
      l.pull = some l' → Classifies l' p → Steps l p

theorem steps_next {l : Lexer T} (hl : l.IsFed) : Steps l l.next := by
  simp only [next]
  split
  · next hf => exact .finished hf
  · next hf =>
    have hf : l.finished = false := by simpa using hf
    split
    · next hh => exact .halted hf hh
    · next hh =>
      have live : l.IsLive := ⟨hf, by simpa using hh⟩
      rw [fill_of_isFed hl]
      by_cases hw : l.window = []
      · rw [if_pos (by simp [hw])]
        cases hp : l.pull with
        | some l' => exact .empty live hw hp (classifies_classify l')
        | none =>
          have hlines := pull_eq_none_iff.1 hp
          simp only [exhaust, LineStream.takeFault_of_lines_nil hlines]
          cases he : l.lines.ending with
          | some e => exact .fault live hw hlines he
          | none => exact .exhausted live hw hlines he
      · rw [if_neg (by simpa using hw)]
        exact .filled live hw (classifies_classify l)

/-! ### A lexeme is cut off the window -/

/-- The first part of a pair is cut off the front of a window, and nothing else changes but the
counts. -/
structure Cuts (l : Lexer T) (p : Lexeme T × Lexer T) : Prop where
  append : p.1.text ++ p.2.window = l.window
  text_ne_nil : p.1.text ≠ []
  span : p.1.span? = some (.covering l.location p.1.text)
  location : p.2.location = l.location.advance p.1.text
  lines : p.2.lines = l.lines
  lexicon : p.2.lexicon = l.lexicon
  maxLength : p.2.maxLength = l.maxLength
  maxCount : p.2.maxCount = l.maxCount
  finished : p.2.finished = l.finished
  total : p.2.tally.total = l.tally.total + 1

omit [Terminal T] in
theorem cuts_reject {l : Lexer T} {n : Nat} (hn : 0 < n) (hw : l.window ≠ [])
    (e : LexicalError) : l.Cuts (l.reject n e) where
  append := append_of_cut n l.window
  text_ne_nil := cut_ne_nil hn hw
  span := rfl
  location := rfl
  lines := rfl
  lexicon := rfl
  maxLength := rfl
  maxCount := rfl
  finished := rfl
  total := rfl

omit [Terminal T] in
theorem cuts_rejectAll {l : Lexer T} (hw : l.window ≠ []) (e : LexicalError) :
    l.Cuts (l.rejectAll e) :=
  cuts_reject (Text.size_pos hw) hw e

theorem cuts_accept {l : Lexer T} {r : Rule T} {n : Nat} (hn : 0 < n) (hw : l.window ≠ []) :
    l.Cuts (l.accept r n) := by
  simp only [accept]
  split
  · exact cuts_reject hn hw _
  · exact {
      append := append_of_cut n l.window
      text_ne_nil := cut_ne_nil hn hw
      span := rfl
      location := rfl
      lines := rfl
      lexicon := rfl
      maxLength := rfl
      maxCount := rfl
      finished := rfl
      total := rfl }

/-- Where a lexeme ends in its window: at the end, behind the match of a rule, or behind a stretch
that no rule accounts for. -/
inductive EndsAt (l : Lexer T) (p : Lexeme T × Lexer T) : Prop where
  | window : p.2.window = [] → EndsAt l p
  | rule {i n : Nat} : Lexicon.longestMatch l.lexicon.rules l.window = .matched i n →
      p.1.text = (cut n l.window).1 → p.2.window = (cut n l.window).2 → EndsAt l p
  | gap {n : Nat} : Lexicon.longestMatch l.lexicon.rules l.window = .noMatch →
      n = Lexicon.unrecognizedSize l.lexicon.rules l.window →
      p.1.text = (cut n l.window).1 → p.2.window = (cut n l.window).2 → EndsAt l p

omit [Terminal T] in
theorem cut_size_append (s t : Text) : cut (Text.size s) (s ++ t) = (s, t) := by
  simp [cut]

omit [Terminal T] in
theorem window_rejectAll (l : Lexer T) (e : LexicalError) : (l.rejectAll e).2.window = [] := by
  have h := cut_size_append l.window []
  rw [List.append_nil] at h
  simp [rejectAll, reject, drop, h]

theorem cut_accept (l : Lexer T) (r : Rule T) (n : Nat) :
    (l.accept r n).1.text = (cut n l.window).1 ∧ (l.accept r n).2.window = (cut n l.window).2 := by
  simp only [accept]
  split <;> exact ⟨rfl, rfl⟩

theorem halted_accept (l : Lexer T) (r : Rule T) (n : Nat) :
    (l.accept r n).2.halted = l.halted := by
  simp only [accept]
  split <;> rfl

/-- Lines are taken, one after the other. -/
inductive Pulls : Lexer T → Lexer T → Prop where
  | refl {l : Lexer T} : Pulls l l
  | step {l l' l'' : Lexer T} : l.pull = some l' → Pulls l' l'' → Pulls l l''

omit [Terminal T] in
/-- What taking a line preserves is preserved by taking any number of them. -/
theorem Pulls.preserves {P : Lexer T → Prop} (hP : ∀ l l', P l → l.pull = some l' → P l')
    {l l' : Lexer T} (h : Pulls l l') (hl : P l) : P l' := by
  induction h with
  | refl => exact hl
  | step hp _ ih => exact ih (hP _ _ hl hp)

omit [Terminal T] in
/-- Taking lines leaves all but the window, its location and the count of lines as it was. -/
theorem Pulls.frame {l l' : Lexer T} (h : Pulls l l') :
    l'.pending = l.pending ∧ l'.unit = l.unit ∧ l'.lexicon = l.lexicon ∧
      l'.maxLength = l.maxLength ∧ l'.maxCount = l.maxCount ∧ l'.halted = l.halted ∧
      l'.finished = l.finished ∧ l'.tally.total = l.tally.total ∧
      l'.lines.ending = l.lines.ending := by
  refine h.preserves (P := fun m ↦ m.pending = l.pending ∧ m.unit = l.unit ∧
    m.lexicon = l.lexicon ∧ m.maxLength = l.maxLength ∧ m.maxCount = l.maxCount ∧
    m.halted = l.halted ∧ m.finished = l.finished ∧ m.tally.total = l.tally.total ∧
    m.lines.ending = l.lines.ending) ?_ (by simp)
  rintro m m' ⟨hpending, hunit, hrest⟩ hp
  have hpending' := (pending_of_pull hp).trans hpending
  obtain ⟨line, lines, ht, rfl⟩ := pull_eq_some hp
  obtain ⟨h₁, h₂, h₃, h₄, h₅, h₆, h₇⟩ := hrest
  exact ⟨hpending', (by rw [← hunit]; exact ht.unit), h₁, h₂, h₃, h₄, h₅, h₆, ht.ending.trans h₇⟩

omit [Terminal T] in
theorem Pulls.isFed {l l' : Lexer T} (h : Pulls l l') (hl : l.IsFed) (hw : l.window ≠ []) :
    l'.IsFed ∧ l'.window ≠ [] :=
  h.preserves (P := fun m ↦ m.IsFed ∧ m.window ≠ []) (fun _ _ hm hp ↦ hm.1.pull hp) ⟨hl, hw⟩

/-- **A lexeme is cut off the front of the window**, after lines were taken into it. The lexer
goes on, unless it has handed out as many lexemes as it may. -/
theorem Classifies.exists_cut {l : Lexer T} {p : Lexeme T × Lexer T} (h : Classifies l p)
    (hl : l.IsFed) (hw : l.window ≠ []) :
    ∃ l', Pulls l l' ∧ l'.Cuts p ∧ l'.EndsAt p ∧
      (p.2.halted = l.halted ∨ p.1.error? = some (.tooManyTokens l.maxCount)) := by
  induction h with
  | @full l hc =>
    exact ⟨l, .refl, ⟨append_of_cut _ l.window, cut_ne_nil (Text.size_pos hw) hw, rfl, rfl, rfl,
      rfl, rfl, rfl, rfl, rfl⟩, .window (window_rejectAll _ _), .inr rfl⟩
  | @unrecognized l hc hm =>
    exact ⟨l, .refl, cuts_reject (Lexicon.unrecognizedSize_pos _ hw) hw _, .gap hm rfl rfl rfl,
      .inl rfl⟩
  | @matched l i n r hc hm hr =>
    have hn := (Lexicon.scan_of_longestMatch_eq_matched hm).2.1
    exact ⟨l, .refl, cuts_accept hn hw, .rule hm (cut_accept l r n).1 (cut_accept l r n).2,
      .inl (halted_accept l r n)⟩
  | @overlong l i hc hm hs =>
    exact ⟨l, .refl, cuts_rejectAll hw _, .window (window_rejectAll _ _), .inl rfl⟩
  | @unterminated l i hc hm hs hlines =>
    exact ⟨l, .refl, cuts_rejectAll hw _, .window (window_rejectAll _ _), .inl rfl⟩
  | @more l l' i p hc hm hs hp _ ih =>
    obtain ⟨hl', hw'⟩ := hl.pull hp
    obtain ⟨l'', hpulls, hcuts, hends, hhalted⟩ := ih hl' hw'
    have hframe := (Pulls.step hp .refl).frame
    refine ⟨l'', .step hp hpulls, hcuts, hends, ?_⟩
    rw [← hframe.2.2.2.2.1, ← hframe.2.2.2.2.2.1]
    exact hhalted

omit [Terminal T] in
theorem Cuts.isFed {l : Lexer T} {p : Lexeme T × Lexer T} (h : l.Cuts p) (hl : l.IsFed) :
    p.2.IsFed := by
  obtain ⟨n, hn⟩ := hl
  refine ⟨n, ?_⟩
  rw [unit, h.lines]
  exact hn

omit [Terminal T] in
theorem Cuts.pending {l : Lexer T} {p : Lexeme T × Lexer T} (h : l.Cuts p) :
    p.1.text ++ p.2.pending = l.pending := by
  rw [Lexer.pending, Lexer.pending, h.lines, ← List.append_assoc, h.append]

/-- A call that classifies, with the lexer that has taken the lines the lexeme is cut from. -/
theorem exists_cut_of_next {l : Lexer T} (hl : l.IsFed) (live : l.IsLive)
    (hp : l.pending ≠ []) :
    ∃ l', Pulls l l' ∧ l'.Cuts l.next ∧ l'.EndsAt l.next ∧
      (l.next.2.halted = l.halted ∨ l.next.1.error? = some (.tooManyTokens l.maxCount)) := by
  have hsteps := steps_next hl
  generalize l.next = p at hsteps
  cases hsteps with
  | finished hf => rw [live.finished] at hf; cases hf
  | halted _ hh => rw [live.halted] at hh; cases hh
  | fault _ hw hlines _ => simp [pending, LineStream.pending, hw, hlines] at hp
  | exhausted _ hw hlines _ => simp [pending, LineStream.pending, hw, hlines] at hp
  | filled _ hw hc => exact hc.exists_cut hl hw
  | @empty l' p _ hw hpull hc =>
    obtain ⟨hl', hw'⟩ := hl.pull hpull
    obtain ⟨l'', hpulls, hcuts, hends, hhalted⟩ := hc.exists_cut hl' hw'
    have hframe := (Pulls.step hpull .refl).frame
    refine ⟨l'', .step hpull hpulls, hcuts, hends, ?_⟩
    rw [← hframe.2.2.2.2.1, ← hframe.2.2.2.2.2.1]
    exact hhalted

omit [Terminal T] in
/-- The lines to come are known by their characters. -/
theorem IsFed.lines_eq_nil {l : Lexer T} (hl : l.IsFed) (hp : l.pending = []) :
    l.window = [] ∧ l.lines.lines = [] := by
  obtain ⟨n, hn⟩ := hl
  simp only [pending, LineStream.pending, List.append_eq_nil_iff] at hp
  refine ⟨hp.1, ?_⟩
  cases hlines : l.lines.lines with
  | nil => rfl
  | cons line rest =>
    rw [hlines] at hn hp
    simp [hn.heads.raw_ne_nil] at hp

/-! ### Runs -/

/-- All lexemes that are handed out before the end of the input. -/
def lexemes (l : Lexer T) : List (Lexeme T) :=
  if _h : l.next.1.isEnd then [] else l.next.1 :: lexemes l.next.2
termination_by l.remaining
decreasing_by exact remaining_next_lt fun he ↦ ‹¬ _› (by rw [he]; rfl)

/-- The lexer after `n` calls. -/
def after (l : Lexer T) : Nat → Lexer T
  | 0 => l
  | n + 1 => (l.after n).next.2

/-- What the first `n` calls hand out, ends of the input included. -/
def handedOut (l : Lexer T) : Nat → List (Lexeme T)
  | 0 => []
  | n + 1 => l.handedOut n ++ [(l.after n).next.1]

theorem lexemes_eq (l : Lexer T) :
    l.lexemes = if l.next.1.isEnd then [] else l.next.1 :: l.next.2.lexemes := by
  rw [lexemes, dite_eq_ite]

theorem lexemes_of_next_end {l : Lexer T} (h : l.next.1 = .endOfInput) : l.lexemes = [] := by
  rw [lexemes_eq, if_pos (by rw [h]; rfl)]

theorem lexemes_of_next {l : Lexer T} (h : l.next.1 ≠ .endOfInput) :
    l.lexemes = l.next.1 :: l.next.2.lexemes := by
  rw [lexemes_eq, if_neg]
  intro he
  cases hx : l.next.1 <;> simp_all [Lexeme.isEnd]

/-- What a stream over a lexer hands out: its look-ahead, and what the lexer does after it. -/
theorem rest_fst (s : LexemeStream (Lexer T) T) :
    s.rest.1 = if s.isAtEnd then [] else s.lookahead :: s.source.lexemes := by
  fun_induction LexemeStream.rest s with
  | case1 s h => simp [h]
  | case2 s h xs s' hr ih =>
    have hopen : s.isAtEnd = false := by simpa using h
    have hnext : s.next = (s.lookahead, ⟨s.source.next.2, s.source.next.1, s.consumed + 1⟩) := by
      rw [LexemeStream.next, if_neg (by simp [hopen])]
      rfl
    rw [hr] at ih
    rw [hnext] at ih ⊢
    simp only at ih
    rw [if_neg h, ih, lexemes_eq s.source]
    rfl

/-- **A stream over a lexer hands out the lexemes of the lexer.** -/
theorem rest_ofSource_fst (l : Lexer T) : (LexemeStream.ofSource l).rest.1 = l.lexemes := by
  rw [rest_fst, lexemes_eq l]
  rfl

end Lexer

end LexFront
