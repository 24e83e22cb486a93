import LexFront.CMake.Lexicon
import LexFront.Proofs.Parser.Driving

/-!
# How often a driver is called

A driver is called as long as there is something left to do. `Rounds` is the loop that does so, as
it would be written down if there were no need to show that it ends: nothing bounds the number of
its rounds, so that whoever has such a run to show knows that the loop ends. A `Course` is kept of
it, with the steps that were taken, the lexemes that were consumed on behalf of the driver, and
whether the driver was stopped.

A round begins in front of a lexeme that is no trivia. Either this lexeme is consumed in the round,
by the step or on its behalf, or the round is the last one. So every step may be charged to a lexeme
of its own.

Key facts:

* `exists_rounds`, `drive_of_rounds`: the loop ends, and does what `drive` does.
* `Rounds.length_turns_le`: every step has a lexeme of its own.
* `Rounds.countP_isIdle`: the idle steps, one by one.
* `course_of_parseWith`: what a run of a driver comes to.
-/

set_option autoImplicit false

namespace LexFront

namespace Parser

variable {σ T δ γ : Type}

/-- A step of a driver: the parser before it and after it. -/
structure Turn (σ T δ : Type) where
  before : Parser σ T δ
  after : Parser σ T δ

/-- How it went with a driver. -/
structure Course (γ σ T δ : Type) where
  /-- The steps, in order. -/
  turns : List (Turn σ T δ) := []
  /-- The lexemes that were consumed on behalf of the driver. -/
  taken : List (Lexeme T) := []
  /-- Whether the driver was stopped because it did nothing too often. -/
  isStopped : Bool := false
  /-- The state of the driver after its last step. -/
  state : γ
  /-- The parser when nothing was left to do. -/
  parser : Parser σ T δ

/-- Whether a step consumed nothing, with input left and no abort. -/
def Turn.isIdle [LexemeSource σ T] (t : Turn σ T δ) : Bool := t.after.isIdle t.before.consumed

section

variable [LexemeSource σ T] [DiagnosticSink δ]

/-- **What is consumed on behalf of a driver** is the next lexeme, which is reported once. An
invalid one aborts the parse. -/
theorem force_spec {p : Parser σ T δ} (h : p.isOver = false) :
    ∃ d, p.tokens.lookahead.Reports d ∧ Effect p [p.tokens.lookahead] [d] p.force ∧
      p.force.aborted = p.tokens.lookahead.isInvalid := by
  obtain ⟨ha, hopen⟩ := Bool.or_eq_false_iff.1 h
  obtain ⟨hfst, he, haborted⟩ := advance_spec p
  rw [upcoming, objections, if_neg (by simp [hopen]), if_neg (by simp [ha])] at he
  rw [ha, Bool.false_or] at haborted
  cases hl : p.tokens.lookahead with
  | endOfInput => rw [isAtEnd_of_lookahead hl] at hopen; cases hopen
  | invalid i =>
    have hp : p.advance = (.invalid i, p.advance.2) := Prod.ext (hfst.trans hl) rfl
    rw [hl] at he haborted
    rw [force, hp]
    exact ⟨_, .invalid i, he, haborted⟩
  | valid t =>
    have hp : p.advance = (.valid t, p.advance.2) := Prod.ext (hfst.trans hl) rfl
    rw [hl, Lexeme.objections_eq_nil rfl] at he
    rw [hl] at haborted
    rw [force, hp]
    exact ⟨_, .unexpected t, he.trans (effect_reportError p.advance.2 t.text t.span), haborted⟩

end

variable [FiniteSource σ T] [Terminal T] [DiagnosticSink δ]

/-- The rounds of a driver from the number of idle steps so far. Trivia is skipped; if something is
left to do the driver takes a step, and if this was idle, a lexeme is consumed on its behalf or it
is stopped. -/
inductive Rounds (step : γ → Parser σ T δ → γ × Parser σ T δ) :
    Nat → γ → Parser σ T δ → Course γ σ T δ → Prop where
  | ended {forced : Nat} {g : γ} {p : Parser σ T δ} : p.skipTrivia.2.isOver = true →
      Rounds step forced g p { state := g, parser := p.skipTrivia.2 }
  | stalled {forced : Nat} {g : γ} {p : Parser σ T δ} : p.skipTrivia.2.isOver = false →
      (step g p.skipTrivia.2).2.isIdle p.skipTrivia.2.consumed = true →
      (step g p.skipTrivia.2).2.skipLimit ≤ forced →
      Rounds step forced g p {
        turns := [⟨p.skipTrivia.2, (step g p.skipTrivia.2).2⟩]
        isStopped := true
        state := (step g p.skipTrivia.2).1
        parser := (step g p.skipTrivia.2).2.stall (forced + 1) }
  | idle {forced : Nat} {g : γ} {p : Parser σ T δ} {c : Course γ σ T δ} :
      p.skipTrivia.2.isOver = false →
      (step g p.skipTrivia.2).2.isIdle p.skipTrivia.2.consumed = true →
      ¬ (step g p.skipTrivia.2).2.skipLimit ≤ forced →
      Rounds step (forced + 1) (step g p.skipTrivia.2).1 (step g p.skipTrivia.2).2.force c →
      Rounds step forced g p { c with
        turns := ⟨p.skipTrivia.2, (step g p.skipTrivia.2).2⟩ :: c.turns
        taken := (step g p.skipTrivia.2).2.tokens.lookahead :: c.taken }
  | busy {forced : Nat} {g : γ} {p : Parser σ T δ} {c : Course γ σ T δ} :
      p.skipTrivia.2.isOver = false →
      (step g p.skipTrivia.2).2.isIdle p.skipTrivia.2.consumed = false →
      Rounds step forced (step g p.skipTrivia.2).1 (step g p.skipTrivia.2).2 c →
      Rounds step forced g p { c with
        turns := ⟨p.skipTrivia.2, (step g p.skipTrivia.2).2⟩ :: c.turns }

variable {step : γ → Parser σ T δ → γ × Parser σ T δ} {forced : Nat} {g : γ} {p : Parser σ T δ}
  {c : Course γ σ T δ}

/-- **The rounds of a driver come to an end.** -/
theorem exists_rounds (hs : IsForward step) (forced : Nat) (g : γ) (p : Parser σ T δ) :
    ∃ c, Rounds step forced g p c := by
  induction forced, g, p using drive_induction hs with
  | ended forced g p ho => exact ⟨_, .ended ho⟩
  | stalled forced g p ho hi hl => exact ⟨_, .stalled ho hi hl⟩
  | idle forced g p ho hi hl ih =>
    obtain ⟨c, hc⟩ := ih
    exact ⟨_, .idle ho hi hl hc⟩
  | busy forced g p ho hi ih =>
    obtain ⟨c, hc⟩ := ih
    exact ⟨_, .busy ho hi hc⟩

/-- **The rounds of a driver** are those that `drive` goes through. -/
theorem drive_of_rounds (hs : IsForward step) (h : Rounds step forced g p c) :
    drive step forced g p = (c.state, c.parser) := by
  induction h with
  | ended ho => exact drive_of_isOver ho
  | stalled ho hi hl => exact drive_of_stalled ho hi hl
  | idle ho hi hl _ ih => exact (drive_of_idle hs ho hi hl).trans ih
  | busy ho hi _ ih => exact (drive_of_busy hs ho hi).trans ih

/-! ### Steps and lexemes -/

/-- How many of the lexemes that are still to come are no trivia. -/
def significantAhead (p : Parser σ T δ) : Nat := p.tokens.rest.1.countP fun x ↦ !x.isTrivia

omit [DiagnosticSink δ] in
theorem significantAhead_of_yields {p q : Parser σ T δ} {xs : List (Lexeme T)}
    (h : p.tokens.Yields xs q.tokens) :
    p.significantAhead = xs.countP (fun x ↦ !x.isTrivia) + q.significantAhead := by
  rw [significantAhead, significantAhead, LexemeStream.rest_of_yields h, List.countP_append]

theorem significantAhead_skipTrivia (p : Parser σ T δ) :
    p.skipTrivia.2.significantAhead = p.significantAhead := by
  obtain ⟨-, xs, he, hxs⟩ := (skips_skipTrivia p).effect
  have hnone : xs.countP (fun x ↦ !x.isTrivia) = 0 :=
    List.countP_eq_zero.2 fun x hx ↦ by simp [hxs x hx]
  rw [significantAhead_of_yields he.tokens, hnone, Nat.zero_add]

omit [DiagnosticSink δ] in
theorem significantAhead_pos {p : Parser σ T δ} (hopen : p.isAtEnd = false)
    (hstop : p.tokens.lookahead.isTrivia = false) : 0 < p.significantAhead := by
  rw [significantAhead, LexemeStream.rest_of_open hopen, List.countP_cons]
  simp [hstop]

omit [DiagnosticSink δ] in
/-- A parser that consumed something from in front of a lexeme that is no trivia has one such lexeme
less ahead, at least. -/
theorem significantAhead_lt {p q : Parser σ T δ} {xs : List (Lexeme T)}
    (hstop : p.tokens.lookahead.isTrivia = false) (h : p.tokens.Yields xs q.tokens)
    (hne : xs ≠ []) : q.significantAhead < p.significantAhead := by
  rw [significantAhead_of_yields h]
  obtain ⟨x, ys, rfl⟩ := List.exists_cons_of_ne_nil hne
  generalize q.tokens = s at h
  cases h with
  | cons _ _ =>
    rw [List.countP_cons_of_pos (by simp [hstop])]
    omega

/-- Where nothing is left to do no step is taken. -/
theorem Rounds.turns_of_isOver (h : Rounds step forced g p c) (ho : p.isOver = true) :
    c.turns = [] := by
  have hover := isOver_skipTrivia ho
  cases h with
  | ended _ => rfl
  | stalled ho' _ _ => rw [hover] at ho'; cases ho'
  | idle ho' _ _ _ => rw [hover] at ho'; cases ho'
  | busy ho' _ _ => rw [hover] at ho'; cases ho'

/-- **Every step has a lexeme of its own** that is no trivia. -/
theorem Rounds.length_turns_le (hs : IsForward step) (h : Rounds step forced g p c) :
    c.turns.length ≤ p.significantAhead := by
  induction h with
  | ended _ => exact Nat.zero_le _
  | @stalled _ _ p ho _ _ =>
    rw [← significantAhead_skipTrivia]
    exact significantAhead_pos (of_not_isOver ho).2 (skipTrivia_spec p)
  | @idle _ g p _ ho hi _ _ ih =>
    have hstop := skipTrivia_spec p
    have hstay := hs.tokens_eq hi
    obtain ⟨d, -, he, -⟩ := force_spec (isOver_of_isIdle hi)
    have hlt := significantAhead_lt (hstay ▸ hstop) he.tokens (List.cons_ne_nil _ _)
    have hsame : (step g p.skipTrivia.2).2.significantAhead = p.significantAhead := by
      rw [← significantAhead_skipTrivia p, significantAhead, significantAhead, hstay]
    rw [List.length_cons]
    omega
  | @busy _ g p _ ho hi hrest ih =>
    rw [← significantAhead_skipTrivia, List.length_cons]
    rcases hs.exists_yields hi with ⟨xs, hne, hy⟩ | hover
    · have := significantAhead_lt (skipTrivia_spec p) hy hne
      omega
    · rw [hrest.turns_of_isOver hover]
      exact significantAhead_pos (of_not_isOver ho).2 (skipTrivia_spec p)

/-! ### Idle steps -/

theorem skipLimit_skipTrivia (p : Parser σ T δ) : p.skipTrivia.2.skipLimit = p.skipLimit := by
  obtain ⟨-, xs, he, -⟩ := (skips_skipTrivia p).effect
  exact he.skipLimit

/-- **The idle steps, one by one.** On behalf of the driver the lexeme is consumed that was next
after an idle step, for all of them but one that is one too many. There are as many as the driver
is allowed if it is stopped, and no more in any case. -/
theorem Rounds.countP_isIdle (hlimit : ∀ g p, (step g p).2.skipLimit = p.skipLimit)
    (h : Rounds step forced g p c) (hforced : forced ≤ p.skipLimit) :
    c.taken <+: (c.turns.filter Turn.isIdle).map (·.after.tokens.lookahead) ∧
      c.turns.countP Turn.isIdle = c.taken.length + c.isStopped.toNat ∧
      forced + c.taken.length ≤ p.skipLimit ∧
      (c.isStopped = true → forced + c.taken.length = p.skipLimit) := by
  induction h with
  | ended _ => exact ⟨List.nil_prefix, rfl, hforced, fun hstop ↦ by cases hstop⟩
  | @stalled forced g p _ hi hl =>
    rw [hlimit, skipLimit_skipTrivia] at hl
    refine ⟨List.nil_prefix, ?_, hforced, fun _ ↦ ?_⟩
    · simp [Turn.isIdle, hi]
    · exact Nat.le_antisymm hforced hl
  | @idle forced g p c ho hi hl _ ih =>
    have hforce : (step g p.skipTrivia.2).2.force.skipLimit = p.skipLimit := by
      obtain ⟨ds, he⟩ := exists_effect_force (step g p.skipTrivia.2).2
      rw [he.skipLimit, hlimit, skipLimit_skipTrivia]
    rw [hlimit, skipLimit_skipTrivia] at hl
    rw [hforce] at ih
    obtain ⟨hfront, hcount, hle, hstop⟩ := ih (by omega)
    have hidle : Turn.isIdle ⟨p.skipTrivia.2, (step g p.skipTrivia.2).2⟩ = true := hi
    refine ⟨?_, ?_, ?_, fun hs ↦ ?_⟩
    · rw [List.filter_cons_of_pos hidle, List.map_cons]
      exact List.cons_prefix_cons.2 ⟨rfl, hfront⟩
    · rw [List.countP_cons_of_pos hidle, hcount]
      exact Nat.add_right_comm _ _ _
    · rw [List.length_cons]
      omega
    · have := hstop hs
      rw [List.length_cons]
      omega
  | @busy forced g p c ho hi _ ih =>
    rw [hlimit, skipLimit_skipTrivia] at ih
    have hbusy : ¬ Turn.isIdle ⟨p.skipTrivia.2, (step g p.skipTrivia.2).2⟩ = true := by
      simp [Turn.isIdle, hi]
    rw [List.filter_cons_of_neg hbusy, List.countP_cons_of_neg hbusy]
    exact ih hforced

/-- **How the rounds of a driver end**: with nothing left to do, or because the driver is stopped
after its last step. -/
theorem Rounds.ending (h : Rounds step forced g p c) :
    (c.isStopped = false → c.parser.isOver = true) ∧
      (c.isStopped = true → ∃ t, c.turns.getLast? = some t ∧ t.isIdle = true ∧
        c.parser = t.after.stall (forced + c.taken.length + 1)) := by
  induction h with
  | ended ho => exact ⟨fun _ ↦ ho, fun hstop ↦ (nomatch hstop)⟩
  | stalled _ hi _ => exact ⟨fun hstop ↦ (nomatch hstop), fun _ ↦ ⟨_, rfl, hi, rfl⟩⟩
  | @idle forced _ _ c _ _ _ _ ih =>
    refine ⟨ih.1, fun hstop ↦ ?_⟩
    obtain ⟨t, hlast, hi, hstall⟩ := ih.2 hstop
    refine ⟨t, ?_, hi, ?_⟩
    · rw [List.getLast?_cons, hlast]
      rfl
    · rw [show forced + (_ :: c.taken).length + 1 = forced + 1 + c.taken.length + 1 by
        rw [List.length_cons]; omega]
      exact hstall
  | busy _ _ _ ih =>
    refine ⟨ih.1, fun hstop ↦ ?_⟩
    obtain ⟨t, hlast, hi, hstall⟩ := ih.2 hstop
    refine ⟨t, ?_, hi, hstall⟩
    rw [List.getLast?_cons, hlast]
    rfl

/-- **Running a driver comes to an end**, whatever the driver does in its steps, as long as these
give no lexeme back and leave the limit alone. A parse that is finished is left as it is, and the
driver is not called. Else the loop is gone through once and ends. There are no more steps than
lexemes ahead that are no trivia. Of the idle steps at most as many as the limit have a lexeme
consumed for them, the one that was next, which is reported once, a token as unexpected. The driver
is stopped, and the parse aborted for it, exactly if there is one idle step more than that. -/
theorem course_of_parseWith (hs : IsForward step)
    (hlimit : ∀ g p, (step g p).2.skipLimit = p.skipLimit) (g : γ) (p : Parser σ T δ) :
    (∀ o, p.outcome = some o → p.parseWith step g = (o.accepted, g, p)) ∧
      (p.outcome = none → (∃ c, Rounds step 0 g p c) ∧ ∀ c, Rounds step 0 g p c →
        p.parseWith step g = (c.parser.finish.1.accepted, c.state, c.parser.finish.2) ∧
        c.turns.length ≤ p.tokens.rest.1.countP (fun x ↦ !x.isTrivia) ∧
        c.taken.length ≤ p.skipLimit ∧
        c.taken <+: (c.turns.filter Turn.isIdle).map (·.after.tokens.lookahead) ∧
        c.turns.countP Turn.isIdle = c.taken.length + c.isStopped.toNat ∧
        (∀ t ∈ c.turns, t.isIdle = true → ∃ d, t.after.tokens.lookahead.Reports d ∧
          Effect t.after [t.after.tokens.lookahead] [d] t.after.force) ∧
        (c.isStopped = true ↔ c.turns.countP Turn.isIdle = p.skipLimit + 1) ∧
        (c.isStopped = false → c.parser.isOver = true) ∧
        (c.isStopped = true → ∃ t, c.turns.getLast? = some t ∧
          c.parser = t.after.stall (p.skipLimit + 1))) := by
  refine ⟨fun o ho ↦ by rw [parseWith, ho], fun ho ↦ ⟨exists_rounds hs 0 g p, fun c hc ↦ ?_⟩⟩
  obtain ⟨hfront, hcount, hle, hstop⟩ := hc.countP_isIdle hlimit (Nat.zero_le _)
  rw [Nat.zero_add] at hle hstop
  obtain ⟨hover, hstalled⟩ := hc.ending
  refine ⟨?_, hc.length_turns_le hs, hle, hfront, hcount, fun t _ hi ↦ ?_, ?_, hover,
    fun hs ↦ ?_⟩
  · rw [parseWith_eq hs ho, drive_of_rounds hs hc]
  · obtain ⟨d, hd, he, -⟩ := force_spec (p := t.after) (isOver_of_isIdle hi)
    exact ⟨d, hd, he⟩
  · cases hb : c.isStopped with
    | true =>
      rw [hcount, hstop hb, hb]
      exact iff_of_true rfl rfl
    | false =>
      rw [hcount, hb]
      exact iff_of_false Bool.false_ne_true (Nat.ne_of_lt (Nat.lt_succ_of_le hle))
  · obtain ⟨t, hlast, -, hstall⟩ := hstalled hs
    exact ⟨t, hlast, by rw [hstall, Nat.zero_add, hstop hs]⟩

/-- A driver that does nothing, which may have one lexeme consumed for it, on a name, a blank and
another name. -/
theorem course_of_parseWith_idle :
    let source := LexemeList.ofPairs "u"
      [(CMake.Kind.identifier, ['x']), (.whitespace, [' ']), (.identifier, ['y'])]
    let p := { ofSource source ({} : Recorder) with skipLimit := 1 }
    let step (g : Unit) (p : Parser (LexemeList CMake.Kind) CMake.Kind Recorder) := (g, p)
    IsForward step ∧ p.outcome = none ∧ ∃ c, Rounds step 0 () p c ∧ c.turns.length ≤ 2 ∧
      c.taken.length ≤ 1 ∧ (c.isStopped = true ↔ c.turns.countP Turn.isIdle = 2) ∧
      p.parseWith step () = (c.parser.finish.1.accepted, c.state, c.parser.finish.2) := by
  intro source p step
  have hs : IsForward step := fun _ _ ↦ ⟨[], .nil⟩
  obtain ⟨⟨c, hc⟩, hall⟩ := (course_of_parseWith hs (fun _ _ ↦ rfl) () p).2 rfl
  obtain ⟨hrun, hturns, htaken, -, -, -, hstop, -⟩ := hall c hc
  have hrest : p.tokens.rest.1 = source.pending :=
    LexemeStream.rest_ofSource_list (s := source) (by decide)
  rw [hrest] at hturns
  exact ⟨hs, rfl, c, hc, hturns, htaken, hstop, hrun⟩

end Parser

end LexFront
