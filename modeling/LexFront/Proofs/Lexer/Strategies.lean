import LexFront.Proofs.Lexer.Run
import LexFront.Proofs.Line.Strategies

/-!
# A lexer does not see how its lines are split

A lexer takes lines and asks for the failure behind them, and does nothing else with its stream. So
if it is given another stream that has the same to come, it hands out the same lexemes, stands at
the same locations and has the same counts, for as long as it runs. In particular it makes no
difference whether the unit was split up front.

Every step of the lexer is looked at once: over another such stream it does what it does over its
own (`Agrees`), and the streams have the same to come again after it.

Key facts:

* `agrees_next`: one call does the same over both streams.
* `answers_eager_eq_onDemand`: the two ways of splitting a unit cannot be told apart, neither on
  the stream of its lines nor on a lexer over it.
-/

set_option autoImplicit false

namespace LexFront

namespace Lexer

variable {T : Type}

/-- The lexer over another stream. -/
def withLines (l : Lexer T) (lines : LineStream) : Lexer T := { l with lines }

section

variable (l : Lexer T) (lines : LineStream)

@[simp] theorem lines_withLines : (l.withLines lines).lines = lines := rfl

@[simp] theorem lexicon_withLines : (l.withLines lines).lexicon = l.lexicon := rfl

@[simp] theorem maxLength_withLines : (l.withLines lines).maxLength = l.maxLength := rfl

@[simp] theorem maxCount_withLines : (l.withLines lines).maxCount = l.maxCount := rfl

@[simp] theorem window_withLines : (l.withLines lines).window = l.window := rfl

@[simp] theorem tally_withLines : (l.withLines lines).tally = l.tally := rfl

@[simp] theorem halted_withLines : (l.withLines lines).halted = l.halted := rfl

@[simp] theorem finished_withLines : (l.withLines lines).finished = l.finished := rfl

end

/-- Two calls hand out the same lexeme and leave lexers that are the same, but for streams that
have the same to come. -/
def Agrees (p p' : Lexeme T × Lexer T) : Prop :=
  ∃ lines, p.2.lines.Alike lines ∧ p' = (p.1, p.2.withLines lines)

variable {l : Lexer T} {lines : LineStream}

/-- Both streams have the same line to take, or neither has one. -/
theorem pull_withLines (h : l.lines.Alike lines) :
    l.pull = none ∧ (l.withLines lines).pull = none ∨
      ∃ m lines', l.pull = some m ∧ m.lines.Alike lines' ∧
        (l.withLines lines).pull = some (m.withLines lines') := by
  obtain ⟨hn, hn'⟩ | ⟨line, t, t', hn, hn', ht⟩ := h.next
  · exact .inl ⟨by rw [pull, hn]; rfl, by rw [pull, withLines, hn']; rfl⟩
  · refine .inr ⟨_, t', by rw [pull, hn]; rfl, ht, ?_⟩
    rw [pull, withLines, hn']
    rfl

/-- A window is filled with the same characters, or with neither stream. -/
theorem fill_withLines (h : l.lines.Alike lines) :
    l.fill = none ∧ (l.withLines lines).fill = none ∨
      ∃ m lines', l.fill = some m ∧ m.lines.Alike lines' ∧
        (l.withLines lines).fill = some (m.withLines lines') := by
  fun_induction fill l generalizing lines with
  | case1 l hw hp =>
    refine .inl ⟨rfl, ?_⟩
    obtain ⟨-, hp'⟩ | ⟨m, -, hm, -⟩ := pull_withLines h
    · rw [fill, window_withLines, if_pos hw]
      split
      · rfl
      · next hsome => rw [hp'] at hsome; cases hsome
    · rw [hp] at hm; cases hm
  | case2 l hw m hp ih =>
    obtain ⟨hnone, -⟩ | ⟨m₀, lines', hm, halike, hm'⟩ := pull_withLines h
    · rw [hp] at hnone; cases hnone
    · obtain rfl : m = m₀ := Option.some.inj (hp.symm.trans hm)
      have hfill : (l.withLines lines).fill = (m.withLines lines').fill := by
        rw [fill, window_withLines, if_pos hw]
        split
        · next hnone => rw [hm'] at hnone; cases hnone
        · next n hsome => rw [Option.some.inj (hm'.symm.trans hsome)]
      rw [hfill]
      exact ih halike
  | case3 l hw =>
    refine .inr ⟨l, lines, rfl, h, ?_⟩
    rw [fill, window_withLines, if_neg hw]

theorem agrees_reject (h : l.lines.Alike lines) (n : Nat) (e : LexicalError) :
    Agrees (l.reject n e) ((l.withLines lines).reject n e) := ⟨lines, h, rfl⟩

theorem agrees_rejectAll (h : l.lines.Alike lines) (e : LexicalError) :
    Agrees (l.rejectAll e) ((l.withLines lines).rejectAll e) := agrees_reject h _ e

/-- At the end of the lines both streams have the same failure, or none. -/
theorem agrees_exhaust (h : l.lines.Alike lines) :
    Agrees l.exhaust (l.withLines lines).exhaust := by
  obtain ⟨hfault, hrest⟩ := h.takeFault
  have hpair : (l.withLines lines).lines.takeFault = (l.lines.takeFault.1, lines.takeFault.2) :=
    Prod.ext hfault rfl
  have hlocation := hrest.endLocation
  simp only [exhaust, hpair]
  generalize l.lines.takeFault = p at hrest hlocation ⊢
  obtain ⟨_ | e, s⟩ := p
  · exact ⟨_, hrest, rfl⟩
  · refine ⟨_, hrest, ?_⟩
    simp only [hlocation, withLines]

variable [Terminal T]

theorem agrees_accept (h : l.lines.Alike lines) (r : Rule T) (n : Nat) :
    Agrees (l.accept r n) ((l.withLines lines).accept r n) := by
  by_cases hn : l.maxLength < n
  · have hn' : (l.withLines lines).maxLength < n := hn
    rw [accept, accept, if_pos hn, if_pos hn']
    exact agrees_reject h n _
  · have hn' : ¬ (l.withLines lines).maxLength < n := hn
    rw [accept, accept, if_neg hn, if_neg hn']
    exact ⟨lines, h, rfl⟩

/-- The window becomes the same lexeme, whichever of the streams the lines are taken from. -/
theorem agrees_classify (h : l.lines.Alike lines) :
    Agrees l.classify (l.withLines lines).classify := by
  fun_induction classify l generalizing lines with
  | case1 l hfull =>
    rw [classify]
    simp only [maxCount_withLines, tally_withLines, hfull, if_true]
    exact agrees_rejectAll (l := { l with halted := true }) h _
  | case2 l hfull hm =>
    rw [classify]
    simp only [maxCount_withLines, tally_withLines, hfull, if_false, lexicon_withLines,
      window_withLines, hm]
    exact agrees_reject h _ _
  | case3 l hfull i n hm r hr =>
    rw [classify]
    simp only [maxCount_withLines, tally_withLines, hfull, if_false, lexicon_withLines,
      window_withLines, hm, hr]
    exact agrees_accept h r n
  | case4 l hfull i n hm hr =>
    rw [classify]
    simp only [maxCount_withLines, tally_withLines, hfull, if_false, lexicon_withLines,
      window_withLines, hm, hr]
    exact agrees_rejectAll h _
  | case5 l hfull i hm hs =>
    rw [classify]
    simp only [maxCount_withLines, tally_withLines, hfull, if_false, lexicon_withLines,
      window_withLines, hm, maxLength_withLines, hs, if_true]
    exact agrees_rejectAll h _
  | case6 l hfull i hm hs m hp ih =>
    obtain ⟨hnone, -⟩ | ⟨m₀, lines', hm₀, halike, hm'⟩ := pull_withLines h
    · rw [hp] at hnone; cases hnone
    · obtain rfl : m = m₀ := Option.some.inj (hp.symm.trans hm₀)
      have hmore : (l.withLines lines).classify = (m.withLines lines').classify := by
        rw [classify]
        simp only [maxCount_withLines, tally_withLines, hfull, if_false, lexicon_withLines,
          window_withLines, hm, maxLength_withLines, hs]
        split
        · next n hsome => rw [Option.some.inj (hm'.symm.trans hsome)]
        · next hnone => rw [hm'] at hnone; cases hnone
      rw [hmore]
      exact ih halike
  | case7 l hfull i hm hs hp =>
    obtain ⟨-, hp'⟩ | ⟨m, -, hm₀, -⟩ := pull_withLines h
    · rw [classify]
      simp only [maxCount_withLines, tally_withLines, hfull, if_false, lexicon_withLines,
        window_withLines, hm, maxLength_withLines, hs]
      split
      · next n hsome => rw [hp'] at hsome; cases hsome
      · exact agrees_rejectAll h _
    · rw [hp] at hm₀; cases hm₀

/-- **One call does the same over both streams.** -/
theorem agrees_next (h : l.lines.Alike lines) : Agrees l.next (l.withLines lines).next := by
  by_cases hf : l.finished
  · rw [next, next, finished_withLines, if_pos hf, if_pos hf]
    exact ⟨lines, h, rfl⟩
  by_cases hh : l.halted
  · rw [next, next, finished_withLines, halted_withLines, if_neg hf, if_pos hh, if_neg hf,
      if_pos hh]
    exact ⟨lines, h, rfl⟩
  rw [next, next, finished_withLines, halted_withLines, if_neg hf, if_neg hh, if_neg hf, if_neg hh]
  obtain ⟨hn, hn'⟩ | ⟨m, lines', hm, halike, hm'⟩ := fill_withLines h
  · rw [hn, hn']
    exact agrees_exhaust h
  · rw [hm, hm']
    exact agrees_classify halike

/-- Any number of calls does the same over both streams. -/
theorem after_withLines (h : l.lines.Alike lines) (n : Nat) :
    (l.withLines lines).handedOut n = l.handedOut n ∧
      ∃ lines', (l.after n).lines.Alike lines' ∧
        (l.withLines lines).after n = (l.after n).withLines lines' := by
  induction n with
  | zero => exact ⟨rfl, lines, h, rfl⟩
  | succ n ih =>
    obtain ⟨hout, lines', halike, hafter⟩ := ih
    obtain ⟨lines'', halike', hnext⟩ := agrees_next halike
    refine ⟨?_, lines'', halike', ?_⟩
    · rw [handedOut, handedOut, hout, hafter, hnext]
    · rw [after, after, hafter, hnext]

omit [Terminal T] in
/-- Lexers that are opened over such streams are the same in the same way. -/
theorem ofLines_withLimits {s s' : LineStream} (h : s.Alike s') (lexicon : Lexicon T)
    (preferences : LexicalPreferences) (maxLength maxCount : Nat) :
    (ofLines lexicon preferences s').withLimits maxLength maxCount =
      ((ofLines lexicon preferences s).withLimits maxLength maxCount).withLines s' := by
  simp only [ofLines, withLimits, withLines, h.unit]

/-- **Splitting up front and splitting on demand cannot be told apart.** Asked the same questions in
any order, the two streams over a splitter give the same answers, before the end of the lines and
behind it. And two lexers that are opened over them at any time hand out the same lexemes and have,
after every one of them, the same location and the same counts. -/
theorem answers_eager_eq_onDemand (s : Splitter) (questions : List LineStream.Query) :
    let eager := (LineStream.eager s).askAll questions
    let onDemand := (LineStream.onDemand s).askAll questions
    onDemand.1 = eager.1 ∧
      ∀ (lexicon : Lexicon T) (preferences : LexicalPreferences) (maxLength maxCount n : Nat),
        let l := (ofLines lexicon preferences eager.2).withLimits maxLength maxCount
        let l' := (ofLines lexicon preferences onDemand.2).withLimits maxLength maxCount
        l'.handedOut n = l.handedOut n ∧ (l'.after n).location = (l.after n).location ∧
          (l'.after n).tally = (l.after n).tally := by
  intro eager onDemand
  have h : onDemand.1 = eager.1 ∧ eager.2.Alike onDemand.2 :=
    (LineStream.alike_ofSplitter true false s).askAll questions
  refine ⟨h.1, fun lexicon preferences maxLength maxCount n ↦ ?_⟩
  intro l l'
  have hl' : l' = l.withLines onDemand.2 := ofLines_withLimits h.2 _ _ _ _
  obtain ⟨hout, lines, -, hafter⟩ := after_withLines (l := l) h.2 n
  rw [hl', hafter]
  exact ⟨hout, rfl, rfl⟩

end Lexer

end LexFront
