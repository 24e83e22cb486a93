import LexFront.Proofs.Parser.Effects

/-!
# Running a driver to the end

The loop of a driver is given as much fuel as there can be lexemes. For a driver that only takes
lexemes, as every operation of a parser does, that is enough: each round takes one at least, or is
the last but one. So the fuel may be forgotten. `drive` is the loop without it; it satisfies the
equations that one would write down for the loop, one for each way in which a round may end, and
comes with an induction that has the same cases (`drive_induction`).

Over a finite source skipping trivia always gets to a lexeme that is none.

Key facts:

* `skips_skipTrivia`: `skipTrivia` skips trivia.
* `drive_of_isOver`, `drive_of_stalled`, `drive_of_idle`, `drive_of_busy`: a round of a driver.
* `parseWith_eq`: a driver is run to the end, and the parse is finished there.
* `IsForward.parseWith`: a driver may be run in a step of another one.
-/

set_option autoImplicit false

namespace LexFront

namespace Parser

variable {σ T δ γ : Type} [FiniteSource σ T] [Terminal T]

/-- **Skipping trivia gets to the next lexeme that is none.** -/
theorem skips_skipTrivia (p : Parser σ T δ) : Skips p p.skipTrivia.2 := by
  fun_induction skipTrivia p with
  | case1 p h n p' hr ih =>
    rw [hr] at ih
    exact .take h ih
  | case2 p h => exact .stop (by simpa using h)

/-- Where there is no trivia nothing is skipped. -/
theorem skipTrivia_of_not_isTrivia {p : Parser σ T δ}
    (h : p.tokens.lookahead.isTrivia = false) : p.skipTrivia = (0, p) := by
  rw [skipTrivia, if_neg (by simp [h])]

theorem skipTrivia_of_isAtEnd {p : Parser σ T δ} (h : p.isAtEnd = true) :
    p.skipTrivia = (0, p) := by
  apply skipTrivia_of_not_isTrivia
  cases hl : p.tokens.lookahead with
  | valid t => simp [isAtEnd, LexemeStream.isAtEnd, hl, Lexeme.isEnd] at h
  | _ => rfl

theorem isOver_skipTrivia {p : Parser σ T δ} (h : p.isOver = true) :
    p.skipTrivia.2.isOver = true := by
  rcases Bool.or_eq_true_iff.1 h with ha | he
  · simp [isOver, ha]
  · rw [skipTrivia_of_isAtEnd he]
    exact h

/-- How many lexemes are still to come. -/
def ahead (p : Parser σ T δ) : Nat := p.tokens.rest.1.length

omit [Terminal T] in
theorem ahead_of_yields {p q : Parser σ T δ} {xs : List (Lexeme T)}
    (h : p.tokens.Yields xs q.tokens) : p.ahead = xs.length + q.ahead := by
  rw [ahead, ahead, LexemeStream.rest_of_yields h, List.length_append]

omit [Terminal T] in
theorem ahead_pos {p : Parser σ T δ} (h : p.isAtEnd = false) : 0 < p.ahead := by
  rw [ahead, LexemeStream.rest_of_open h]
  exact Nat.succ_pos _

omit [FiniteSource σ T] [Terminal T] in
theorem of_not_isOver [LexemeSource σ T] {p : Parser σ T δ} (h : p.isOver = false) :
    p.aborted = false ∧ p.isAtEnd = false := Bool.or_eq_false_iff.1 h

omit [FiniteSource σ T] [Terminal T] in
/-- After an idle step there is something left to do. -/
theorem isOver_of_isIdle {p : Parser σ T δ} {before : Nat} (h : p.isIdle before = true) :
    p.isOver = false := by
  simpa using (Bool.and_eq_true_iff.1 h).2

variable [DiagnosticSink δ]

theorem ahead_skipTrivia_le (p : Parser σ T δ) : p.skipTrivia.2.ahead ≤ p.ahead := by
  obtain ⟨-, xs, he, -⟩ := (skips_skipTrivia p).effect
  rw [ahead_of_yields he.tokens]
  exact Nat.le_add_left _ _

omit [Terminal T] in
/-- Before its end a parser has one lexeme less ahead after it was forced. -/
theorem ahead_force_lt {p : Parser σ T δ} (h : p.isAtEnd = false) : p.force.ahead < p.ahead := by
  obtain ⟨ds, he⟩ := exists_effect_force p
  rw [ahead_of_yields he.tokens, upcoming, if_neg (by simp [h]), List.length_singleton]
  omega

/-! ### The loop without fuel -/

variable {step : γ → Parser σ T δ → γ × Parser σ T δ}

/-- A driver takes lexemes, and gives none back. -/
def IsForward (step : γ → Parser σ T δ → γ × Parser σ T δ) : Prop :=
  ∀ (g : γ) (p : Parser σ T δ), ∃ xs, p.tokens.Yields xs (step g p).2.tokens

omit [Terminal T] [DiagnosticSink δ] in
/-- An idle step of such a driver leaves the stream where it was. -/
theorem IsForward.tokens_eq (hs : IsForward step) {g : γ} {p : Parser σ T δ}
    (h : (step g p).2.isIdle p.consumed = true) : (step g p).2.tokens = p.tokens := by
  obtain ⟨xs, hy⟩ := hs g p
  have hconsumed : (step g p).2.consumed = p.consumed + xs.length := hy.consumed
  have hidle : (step g p).2.consumed = p.consumed := by
    simpa using (Bool.and_eq_true_iff.1 h).1
  obtain rfl : xs = [] := List.eq_nil_of_length_eq_zero (by omega)
  generalize (step g p).2.tokens = s at hy
  cases hy
  rfl

omit [Terminal T] [DiagnosticSink δ] in
/-- A step of such a driver that is not idle consumes something, or leaves nothing to do. -/
theorem IsForward.exists_yields (hs : IsForward step) {g : γ} {p : Parser σ T δ}
    (h : (step g p).2.isIdle p.consumed = false) :
    (∃ xs, xs ≠ [] ∧ p.tokens.Yields xs (step g p).2.tokens) ∨ (step g p).2.isOver = true := by
  obtain ⟨xs, hy⟩ := hs g p
  have hconsumed : (step g p).2.consumed = p.consumed + xs.length := hy.consumed
  cases ho : (step g p).2.isOver with
  | true => exact .inr rfl
  | false =>
    refine .inl ⟨xs, ?_, hy⟩
    rintro rfl
    simp [isIdle, ho, hconsumed] at h

omit [Terminal T] [DiagnosticSink δ] in
theorem IsForward.ahead_lt (hs : IsForward step) {g : γ} {p : Parser σ T δ}
    (h : (step g p).2.isIdle p.consumed = false) :
    (step g p).2.ahead < p.ahead ∨ (step g p).2.isOver = true := by
  refine (hs.exists_yields h).imp_left fun ⟨xs, hne, hy⟩ ↦ ?_
  have hpos := List.length_pos_iff.2 hne
  rw [ahead_of_yields hy]
  omega

omit [Terminal T] [DiagnosticSink δ] in
theorem IsForward.ahead_eq (hs : IsForward step) {g : γ} {p : Parser σ T δ}
    (h : (step g p).2.isIdle p.consumed = true) :
    (step g p).2.ahead = p.ahead ∧ (step g p).2.isAtEnd = false :=
  ⟨by rw [ahead, ahead, hs.tokens_eq h], (of_not_isOver (isOver_of_isIdle h)).2⟩

/-- What a driver at work may do next, for whoever argues along its rounds. A round ends the work if
nothing is left to do or the driver is stopped; else the work goes on, with one lexeme forced if the
step was idle. -/
theorem drive_induction (hs : IsForward step) {motive : Nat → γ → Parser σ T δ → Prop}
    (ended : ∀ forced g p, p.skipTrivia.2.isOver = true → motive forced g p)
    (stalled : ∀ forced g p, p.skipTrivia.2.isOver = false →
      (step g p.skipTrivia.2).2.isIdle p.skipTrivia.2.consumed = true →
      (step g p.skipTrivia.2).2.skipLimit ≤ forced → motive forced g p)
    (idle : ∀ forced g p, p.skipTrivia.2.isOver = false →
      (step g p.skipTrivia.2).2.isIdle p.skipTrivia.2.consumed = true →
      ¬ (step g p.skipTrivia.2).2.skipLimit ≤ forced →
      motive (forced + 1) (step g p.skipTrivia.2).1 (step g p.skipTrivia.2).2.force →
      motive forced g p)
    (busy : ∀ forced g p, p.skipTrivia.2.isOver = false →
      (step g p.skipTrivia.2).2.isIdle p.skipTrivia.2.consumed = false →
      motive forced (step g p.skipTrivia.2).1 (step g p.skipTrivia.2).2 → motive forced g p)
    (forced : Nat) (g : γ) (p : Parser σ T δ) : motive forced g p := by
  induction hn : p.ahead using Nat.strongRecOn generalizing forced g p with
  | ind n ih =>
    subst hn
    have hle := ahead_skipTrivia_le p
    cases ho : p.skipTrivia.2.isOver with
    | true => exact ended forced g p ho
    | false =>
      cases hi : (step g p.skipTrivia.2).2.isIdle p.skipTrivia.2.consumed with
      | true =>
        by_cases hl : (step g p.skipTrivia.2).2.skipLimit ≤ forced
        · exact stalled forced g p ho hi hl
        · obtain ⟨hahead, hopen⟩ := hs.ahead_eq hi
          have := ahead_force_lt hopen
          exact idle forced g p ho hi hl (ih _ (by omega) _ _ _ rfl)
      | false =>
        refine busy forced g p ho hi ?_
        rcases hs.ahead_lt hi with hlt | hover
        · exact ih _ (by omega) _ _ _ rfl
        · exact ended _ _ _ (isOver_skipTrivia hover)

/-- Runs a driver until the input is used up or the parse is aborted. `forced` counts the steps that
consumed nothing so far. -/
def drive (step : γ → Parser σ T δ → γ × Parser σ T δ) (forced : Nat) (g : γ)
    (p : Parser σ T δ) : γ × Parser σ T δ :=
  loop step (p.ahead + 1) forced g p

/-- Fuel that is enough: there is a round for every lexeme, and one to find nothing left to do. -/
def IsEnough (fuel : Nat) (p : Parser σ T δ) : Prop :=
  0 < fuel ∧ (p.isOver = false → p.ahead < fuel)

/-- With enough fuel there is enough for the rest of the work after a round. -/
theorem IsEnough.next {fuel : Nat} {p q : Parser σ T δ} (h : IsEnough (fuel + 1) p)
    (ho : p.skipTrivia.2.isOver = false)
    (hq : q.ahead < p.skipTrivia.2.ahead ∨ q.isOver = true) : IsEnough fuel q := by
  have hp : p.isOver = false := by
    cases hover : p.isOver with
    | false => rfl
    | true => rw [isOver_skipTrivia hover] at ho; cases ho
  have hfuel := h.2 hp
  have hle := ahead_skipTrivia_le p
  have hpos := ahead_pos (of_not_isOver ho).2
  refine ⟨by omega, fun hopen ↦ ?_⟩
  rcases hq with hlt | hover
  · omega
  · rw [hover] at hopen; cases hopen

omit [Terminal T] [DiagnosticSink δ] in
theorem IsEnough.exists_succ {fuel : Nat} {p : Parser σ T δ} (h : IsEnough fuel p) :
    ∃ n, fuel = n + 1 := Nat.exists_eq_succ_of_ne_zero (Nat.ne_of_gt h.1)

omit [Terminal T] [DiagnosticSink δ] in
theorem isEnough_ahead (p : Parser σ T δ) : IsEnough (p.ahead + 1) p :=
  ⟨Nat.succ_pos _, fun _ ↦ Nat.lt_succ_self _⟩

/-- **Enough fuel is as good as any**: any two amounts that are enough do the same. -/
theorem loop_eq_loop (hs : IsForward step) (forced : Nat) (g : γ) (p : Parser σ T δ) {n m : Nat}
    (hn : IsEnough n p) (hm : IsEnough m p) :
    loop step n forced g p = loop step m forced g p := by
  induction forced, g, p using drive_induction hs generalizing n m with
  | ended forced g p ho =>
    obtain ⟨n, rfl⟩ := hn.exists_succ
    obtain ⟨m, rfl⟩ := hm.exists_succ
    simp only [loop, ho, if_true]
  | stalled forced g p ho hi hl =>
    obtain ⟨n, rfl⟩ := hn.exists_succ
    obtain ⟨m, rfl⟩ := hm.exists_succ
    simp only [loop, ho, hi, hl, if_true, Bool.false_eq_true, if_false]
  | idle forced g p ho hi hl ih =>
    obtain ⟨n, rfl⟩ := hn.exists_succ
    obtain ⟨m, rfl⟩ := hm.exists_succ
    obtain ⟨hahead, hopen⟩ := hs.ahead_eq hi
    have hlt := hahead ▸ ahead_force_lt hopen
    simp only [loop, ho, hi, hl, if_true, Bool.false_eq_true, if_false]
    exact ih (hn.next ho (.inl hlt)) (hm.next ho (.inl hlt))
  | busy forced g p ho hi ih =>
    obtain ⟨n, rfl⟩ := hn.exists_succ
    obtain ⟨m, rfl⟩ := hm.exists_succ
    simp only [loop, ho, hi, Bool.false_eq_true, if_false]
    exact ih (hn.next ho (hs.ahead_lt hi)) (hm.next ho (hs.ahead_lt hi))

/-! A round of a driver, by the way in which it ends. -/

theorem drive_of_isOver {forced : Nat} {g : γ} {p : Parser σ T δ}
    (ho : p.skipTrivia.2.isOver = true) : drive step forced g p = (g, p.skipTrivia.2) := by
  simp only [drive, loop, ho, if_true]

theorem drive_of_stalled {forced : Nat} {g : γ} {p : Parser σ T δ}
    (ho : p.skipTrivia.2.isOver = false)
    (hi : (step g p.skipTrivia.2).2.isIdle p.skipTrivia.2.consumed = true)
    (hl : (step g p.skipTrivia.2).2.skipLimit ≤ forced) :
    drive step forced g p =
      ((step g p.skipTrivia.2).1, (step g p.skipTrivia.2).2.stall (forced + 1)) := by
  simp only [drive, loop, ho, hi, hl, if_true, Bool.false_eq_true, if_false]

theorem drive_of_idle (hs : IsForward step) {forced : Nat} {g : γ} {p : Parser σ T δ}
    (ho : p.skipTrivia.2.isOver = false)
    (hi : (step g p.skipTrivia.2).2.isIdle p.skipTrivia.2.consumed = true)
    (hl : ¬ (step g p.skipTrivia.2).2.skipLimit ≤ forced) :
    drive step forced g p =
      drive step (forced + 1) (step g p.skipTrivia.2).1 (step g p.skipTrivia.2).2.force := by
  obtain ⟨hahead, hopen⟩ := hs.ahead_eq hi
  have hlt := hahead ▸ ahead_force_lt hopen
  simp only [drive, loop, ho, hi, hl, if_true, Bool.false_eq_true, if_false]
  exact loop_eq_loop hs _ _ _ ((isEnough_ahead p).next ho (.inl hlt)) (isEnough_ahead _)

theorem drive_of_busy (hs : IsForward step) {forced : Nat} {g : γ} {p : Parser σ T δ}
    (ho : p.skipTrivia.2.isOver = false)
    (hi : (step g p.skipTrivia.2).2.isIdle p.skipTrivia.2.consumed = false) :
    drive step forced g p =
      drive step forced (step g p.skipTrivia.2).1 (step g p.skipTrivia.2).2 := by
  simp only [drive, loop, ho, hi, Bool.false_eq_true, if_false]
  exact loop_eq_loop hs _ _ _ ((isEnough_ahead p).next ho (hs.ahead_lt hi)) (isEnough_ahead _)

/-- **A driver is run to the end, and the parse is finished there.** -/
theorem parseWith_eq (hs : IsForward step) {p : Parser σ T δ} (h : p.outcome = none) (g : γ) :
    p.parseWith step g =
      let r := drive step 0 g p
      (r.2.finish.1.accepted, r.1, r.2.finish.2) := by
  have hfuel : loop step (p.tokens.remaining + 1) 0 g p = drive step 0 g p :=
    loop_eq_loop hs 0 g p
      ⟨Nat.succ_pos _, fun _ ↦ Nat.lt_succ_of_le p.tokens.length_rest_le_remaining⟩
      (isEnough_ahead p)
  rw [parseWith, h]
  simp only [hfuel]

theorem exists_yields_skipTrivia (p : Parser σ T δ) :
    ∃ xs, p.tokens.Yields xs p.skipTrivia.2.tokens := by
  obtain ⟨-, xs, he, -⟩ := (skips_skipTrivia p).effect
  exact ⟨xs, he.tokens⟩

theorem exists_yields_finish (p : Parser σ T δ) :
    ∃ xs, p.tokens.Yields xs p.finish.2.tokens := by
  rw [finish]
  split
  · exact ⟨[], .nil⟩
  · split
    · exact ⟨[], .nil⟩
    · exact exists_yields_skipTrivia p

theorem exists_yields_drive (hs : IsForward step) (forced : Nat) (g : γ) (p : Parser σ T δ) :
    ∃ xs, p.tokens.Yields xs (drive step forced g p).2.tokens := by
  induction forced, g, p using drive_induction hs with
  | ended forced g p ho =>
    rw [drive_of_isOver ho]
    exact exists_yields_skipTrivia p
  | stalled forced g p ho hi hl =>
    obtain ⟨xs, hxs⟩ := exists_yields_skipTrivia p
    obtain ⟨ys, hys⟩ := hs g p.skipTrivia.2
    rw [drive_of_stalled ho hi hl]
    exact ⟨_, hxs.trans hys⟩
  | idle forced g p ho hi hl ih =>
    obtain ⟨xs, hxs⟩ := exists_yields_skipTrivia p
    obtain ⟨ys, hys⟩ := hs g p.skipTrivia.2
    obtain ⟨ds, he⟩ := exists_effect_force (step g p.skipTrivia.2).2
    obtain ⟨zs, hzs⟩ := ih
    rw [drive_of_idle hs ho hi hl]
    exact ⟨_, ((hxs.trans hys).trans he.tokens).trans hzs⟩
  | busy forced g p ho hi ih =>
    obtain ⟨xs, hxs⟩ := exists_yields_skipTrivia p
    obtain ⟨ys, hys⟩ := hs g p.skipTrivia.2
    obtain ⟨zs, hzs⟩ := ih
    rw [drive_of_busy hs ho hi]
    exact ⟨_, (hxs.trans hys).trans hzs⟩

/-- **Running a driver gives no lexeme back** if its steps do not, so that it may be part of a step
of another driver. -/
theorem IsForward.parseWith (hs : IsForward step) :
    IsForward fun g p ↦ (p.parseWith step g).2 := by
  intro g p
  show ∃ xs, p.tokens.Yields xs (p.parseWith step g).2.2.tokens
  cases ho : p.outcome with
  | some o =>
    have hrefuse : p.parseWith step g = (o.accepted, g, p) := by simp only [Parser.parseWith, ho]
    rw [hrefuse]
    exact ⟨[], .nil⟩
  | none =>
    obtain ⟨xs, hxs⟩ := exists_yields_drive hs 0 g p
    obtain ⟨ys, hys⟩ := exists_yields_finish (drive step 0 g p).2
    rw [parseWith_eq hs ho]
    exact ⟨_, hxs.trans hys⟩

end Parser

end LexFront
