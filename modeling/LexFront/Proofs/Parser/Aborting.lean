import LexFront.CMake.Lexicon
import LexFront.Proofs.Parser.Expecting
import LexFront.Proofs.Parser.Rounds
import LexFront.Proofs.Parser.Session

/-!
# What is consumed when a parse is aborted

An invalid lexeme aborts the parse, whichever operation meets it. A driver that heeds this makes no
further call. Its step ends, and so do the steps of the drivers that run it; but the loop of each of
them skips trivia before it asks whether the parse is aborted. So the blanks and comments behind the
invalid lexeme are consumed as well, and the outcome counts them, unless it had been settled before.

`Heeds` are the moves of such drivers. A parse is followed along them through three stages: first
nothing has been met (`Unharmed`), then the invalid lexeme was the last one consumed (`Halted`), and
with the end of the step the trivia behind it is gone (`Stopped`).

Key facts:

* `uses_of_calls`, `uses_force`: a parse is aborted on the invalid lexeme that is consumed last.
* `Halted.round`: the loop of a driver, after its step was broken off.
* `consumed_of_broken`: what was consumed and what was recorded when the parse returns.
-/

set_option autoImplicit false

namespace LexFront

namespace Parser

variable {σ T δ : Type}

/-! ### The operations -/

section

variable [LexemeSource σ T] [DiagnosticSink δ]

/-- A parse is aborted on an invalid lexeme, and this is the last one that is consumed. -/
structure GivesUp (p : Parser σ T δ) (xs : List (Lexeme T)) (i : InvalidToken)
    (q : Parser σ T δ) : Prop where
  running : p.aborted = false
  effect : Effect p (xs ++ [.invalid i]) [.invalidToken i] q
  valid : ∀ x ∈ xs, x.isInvalid = false
  aborted : q.aborted = true

/-- What becomes of a parser that is used: it gives up, or no invalid token is reported. -/
inductive Uses (p q : Parser σ T δ) : Prop where
  | harmless {xs : List (Lexeme T)} {ds : List Diagnostic} : Effect p xs ds q →
      q.aborted = p.aborted → Diagnostic.count .invalidToken ds = 0 → Uses p q
  | givesUp {xs : List (Lexeme T)} {i : InvalidToken} : GivesUp p xs i q → Uses p q

variable {p q r : Parser σ T δ}

theorem GivesUp.of_invalid {i : InvalidToken} (ha : p.aborted = false)
    (he : Effect p [.invalid i] [.invalidToken i] q) (haborted : q.aborted = true) :
    GivesUp p [] i q :=
  ⟨ha, he, fun _ hx ↦ absurd hx List.not_mem_nil, haborted⟩

/-- What comes before, and consumes nothing invalid, makes no difference. -/
theorem Uses.prepend {xs : List (Lexeme T)} (he : Effect p xs [] q) (ha : q.aborted = p.aborted)
    (hxs : ∀ x ∈ xs, x.isInvalid = false) (h : Uses q r) : Uses p r := by
  cases h with
  | harmless he' ha' hcount => exact .harmless (he.trans he') (ha'.trans ha) hcount
  | @givesUp ys i hgive =>
    have heffect := he.trans hgive.effect
    rw [← List.append_assoc] at heffect
    refine .givesUp ⟨ha ▸ hgive.running, heffect, fun x hx ↦ ?_, hgive.aborted⟩
    exact (List.mem_append.1 hx).elim (hxs x) (hgive.valid x)

theorem uses_take_abort {i : InvalidToken} (h : p.tokens.lookahead = .invalid i) :
    Uses p (p.take.2.abort i) := by
  obtain ⟨he, haborted⟩ := effect_take_abort h
  cases ha : p.aborted with
  | true =>
    rw [if_pos ha] at he
    exact .harmless he (haborted.trans ha.symm) rfl
  | false =>
    rw [if_neg (by simp [ha])] at he
    exact .givesUp (.of_invalid ha he haborted)

theorem uses_advance (p : Parser σ T δ) : Uses p p.advance.2 := by
  obtain ⟨-, he, ha⟩ := advance_spec p
  cases hl : p.tokens.lookahead with
  | invalid i =>
    have hp : p.take = (.invalid i, p.take.2) := Prod.ext ((take_fst p).trans hl) rfl
    rw [advance, hp]
    exact uses_take_abort hl
  | _ =>
    rw [objections, hl, Lexeme.objections_eq_nil rfl, ite_self] at he
    rw [hl] at ha
    exact .harmless he (ha.trans (Bool.or_false _)) rfl

theorem uses_expectNext (p : Parser σ T δ) (accept : T → Bool) :
    Uses p (p.expectNext accept).2 := by
  cases hl : p.tokens.lookahead with
  | valid t =>
    have hopen : p.isAtEnd = false := congrArg Lexeme.isEnd hl
    have he := effect_take hopen (congrArg Lexeme.isInvalid hl)
    rw [expectNext_of_valid hl]
    split
    · exact .harmless he rfl rfl
    · exact .harmless (he.trans (effect_reportError p.take.2 t.text t.span)) rfl rfl
  | invalid i =>
    rw [expectNext_of_invalid hl]
    exact uses_take_abort hl
  | endOfInput =>
    obtain ⟨-, he⟩ := take_of_isAtEnd (isAtEnd_of_lookahead hl)
    rw [expectNext_of_end hl]
    exact .harmless (he.trans (effect_report (d := .noMoreToken p.endLocation) rfl)) rfl rfl

/-- **A lexeme that is consumed for a driver** aborts the parse if it is invalid. -/
theorem uses_force (h : p.isOver = false) : Uses p p.force := by
  obtain ⟨d, hd, he, haborted⟩ := force_spec h
  have ha := (Bool.or_eq_false_iff.1 h).1
  generalize p.tokens.lookahead = x at hd he haborted
  cases hd with
  | unexpected t => exact .harmless he (haborted.trans ha.symm) rfl
  | invalid i => exact .givesUp (.of_invalid ha he haborted)

/-- At the end of the input there is nothing to give up on. -/
theorem Uses.aborted_of_isAtEnd (h : Uses p q) (hend : p.isAtEnd = true) :
    q.aborted = p.aborted := by
  cases h with
  | harmless _ ha _ => exact ha
  | givesUp hgive =>
    obtain ⟨hnil, -⟩ := hgive.effect.tokens.of_isAtEnd hend
    exact absurd hnil (List.append_ne_nil_of_right_ne_nil _ (List.cons_ne_nil _ _))

variable [Terminal T]

theorem Skips.uses (hskip : Skips p q) (h : Uses q r) : Uses p r := by
  obtain ⟨-, xs, he, hxs⟩ := hskip.effect
  exact h.prepend he hskip.aborted fun x hx ↦ (Lexeme.of_isTrivia (hxs x hx)).1

theorem uses_of_expects {accept : T → Bool} (h : Expects p accept q) : Uses p q := by
  cases h with
  | aborted _ => exact .harmless (.refl p) rfl rfl
  | next _ hskip => exact hskip.uses (uses_expectNext _ accept)

variable [DecidableEq T]

/-- **No operation reports an invalid token but by giving up on it.** -/
theorem uses_of_calls (h : Calls p q) : Uses p q := by
  cases h with
  | skipTrivia hskip => exact hskip.uses (.harmless (.refl q) rfl rfl)
  | advance => exact uses_advance p
  | reportError text span => exact .harmless (effect_reportError p text span) rfl rfl
  | expect t h =>
    exact (uses_of_expects h).prepend (effect_announce p _ _) (aborted_announce p _ _) (by simp)
  | expectAny ts h =>
    exact (uses_of_expects h).prepend (effect_announce p _ _) (aborted_announce p _ _) (by simp)

end

/-! ### Sessions -/

namespace Session

variable [LexemeSource σ T] [Terminal T] [DiagnosticSink δ] [DecidableEq T]

/-- An invalid lexeme was met, and the parse was aborted on it. -/
def IsBroken (p : Parser σ T (δ × Recorder)) : Prop :=
  p.aborted = true ∧ ∃ i, Diagnostic.invalidToken i ∈ p.sink.2.diagnostics

/-- The moves of drivers that make no call once the parse is aborted on an invalid lexeme, so that
nothing but the end of a step is left to do. -/
def Heeds (s s' : Session σ T (δ × Recorder)) : Prop :=
  Does s s' ∧ (IsBroken s.parser → s'.drivers.length < s.drivers.length)

theorem admits_heeds : Admits (Heeds (σ := σ) (T := T) (δ := δ)) :=
  fun hdoes hends ↦ ⟨hdoes, fun hbroken ↦ hends hbroken.1⟩

/-! ### The stages of a parse -/

variable {source : σ} {p q : Parser σ T (δ × Recorder)}

/-- A parse that has met no invalid lexeme. If its outcome is settled, it was settled on the way. -/
structure Unharmed (source : σ) (p : Parser σ T (δ × Recorder)) : Prop where
  tokens : ∃ xs, (LexemeStream.ofSource source).Yields xs p.tokens ∧ ∀ x ∈ xs, x.isInvalid = false
  reported : ∀ i, Diagnostic.invalidToken i ∉ p.sink.2.diagnostics
  outcome : ∀ o, p.outcome = some o → o.aborted = false ∧ o.tokensConsumed ≤ p.consumed

/-- A parse that was aborted on the invalid lexeme `i`, behind the lexemes `xs`, and has consumed
nothing since. If its outcome is settled, it was settled before. -/
structure Halted (source : σ) (xs : List (Lexeme T)) (i : InvalidToken)
    (p : Parser σ T (δ × Recorder)) : Prop where
  tokens : (LexemeStream.ofSource source).Yields (xs ++ [.invalid i]) p.tokens
  valid : ∀ x ∈ xs, x.isInvalid = false
  reported : Diagnostic.invalidToken i ∈ p.sink.2.diagnostics
  aborted : p.aborted = true
  outcome : ∀ o, p.outcome = some o → o.aborted = false ∧ o.tokensConsumed ≤ xs.length

/-- A parse that was aborted on the invalid lexeme `i`, behind the lexemes `xs`, and has consumed
the trivia `ys` since. Its outcome is settled, here or before the abort. -/
structure Stopped (source : σ) (xs : List (Lexeme T)) (i : InvalidToken) (ys : List (Lexeme T))
    (o : Outcome) (p : Parser σ T (δ × Recorder)) : Prop where
  tokens : (LexemeStream.ofSource source).Yields (xs ++ .invalid i :: ys) p.tokens
  valid : ∀ x ∈ xs, x.isInvalid = false
  trivia : ∀ y ∈ ys, y.isTrivia = true
  stop : p.tokens.lookahead.isTrivia = false
  reported : Diagnostic.invalidToken i ∈ p.sink.2.diagnostics
  aborted : p.aborted = true
  outcome : p.outcome = some o
  late : o.aborted = true → o.tokensConsumed = xs.length + 1 + ys.length
  early : o.aborted = false → o.tokensConsumed ≤ xs.length

omit [Terminal T] [DiagnosticSink δ] [DecidableEq T] in
theorem consumed_of_yields {xs : List (Lexeme T)}
    (h : (LexemeStream.ofSource source).Yields xs p.tokens) : p.consumed = xs.length :=
  h.consumed.trans (Nat.zero_add _)

omit [Terminal T] [DiagnosticSink δ] [DecidableEq T] in
theorem unharmed_start (source : σ) (sink : δ) (skipLimit : Nat) (logExpectations : Bool) :
    Unharmed source (start (T := T) source (sink, {}) skipLimit logExpectations).parser where
  tokens := ⟨[], .nil, by simp⟩
  reported := fun _ hi ↦ absurd hi List.not_mem_nil
  outcome := fun _ ho ↦ by cases ho

omit [Terminal T] [DecidableEq T] in
/-- As long as the parse is not aborted it is unharmed. -/
theorem Unharmed.effect {xs : List (Lexeme T)} {ds : List Diagnostic} (h : Unharmed source p)
    (he : Effect p xs ds q) (ha : q.aborted = false) : Unharmed source q := by
  obtain ⟨zs, hzs, hvalid⟩ := h.tokens
  refine ⟨⟨_, hzs.trans he.tokens, fun x hx ↦ ?_⟩, fun i hi ↦ ?_, fun o ho ↦ ?_⟩
  · exact (List.mem_append.1 hx).elim (hvalid x) (he.sound ha x)
  · rw [he.recorded] at hi
    rcases List.mem_append.1 hi with hi | hi
    · exact h.reported i hi
    · have hpos : 0 < Diagnostic.count .invalidToken ds := List.countP_pos_iff.2 ⟨_, hi, rfl⟩
      have hnone := he.aborts
      rw [ha, Bool.toNat_false] at hnone
      omega
  · obtain ⟨haborted, hle⟩ := h.outcome o (he.outcome ▸ ho)
    exact ⟨haborted, Nat.le_trans hle (by rw [he.consumed]; exact Nat.le_add_right _ _)⟩

omit [DecidableEq T] in
theorem Unharmed.finishes (h : Unharmed source p) (hfinish : Finishes p q)
    (ha : q.aborted = false) : Unharmed source q := by
  cases hfinish with
  | again _ => exact h
  | @first r _ hconclude =>
    obtain ⟨xs, he⟩ := exists_effect_of_concludes hconclude
    have hr : Unharmed source r := h.effect he ha
    refine ⟨hr.tokens, hr.reported, fun o ho ↦ ?_⟩
    obtain rfl : r.verdict = o := Option.some.inj ho
    exact ⟨ha, Nat.le_refl _⟩

/-- **Every move leaves a parse unharmed** that is not aborted after it. -/
theorem unharmed_of_does {s s' : Session σ T (δ × Recorder)}
    (h : s.parser.aborted = false → Unharmed source s.parser) (hdoes : Does s s')
    (ha : s'.parser.aborted = false) : Unharmed source s'.parser := by
  cases moves_of_does hdoes with
  | on he _ => exact (h (he.aborted_of_aborted ha)).effect he ha
  | @closes m _ _ he hfinish _ =>
    have hm : m.aborted = false := aborted_of_finishes hfinish ▸ ha
    exact ((h (he.aborted_of_aborted hm)).effect he hm).finishes hfinish ha

theorem unharmed_of_reaches {s s' : Session σ T (δ × Recorder)}
    (h : s.parser.aborted = false → Unharmed source s.parser) (hreach : Reaches s s')
    (ha : s'.parser.aborted = false) : Unharmed source s'.parser := by
  induction hreach with
  | refl => exact h ha
  | tail _ hdoes ih => exact unharmed_of_does ih hdoes ha

omit [Terminal T] [DecidableEq T] in
theorem Unharmed.givesUp {xs : List (Lexeme T)} {i : InvalidToken} (h : Unharmed source p)
    (hgive : GivesUp p xs i q) : ∃ zs, Halted source zs i q := by
  obtain ⟨zs, hzs, hvalid⟩ := h.tokens
  have htokens := hzs.trans hgive.effect.tokens
  rw [← List.append_assoc] at htokens
  refine ⟨zs ++ xs, htokens, fun x hx ↦ ?_, ?_, hgive.aborted, fun o ho ↦ ?_⟩
  · exact (List.mem_append.1 hx).elim (hvalid x) (hgive.valid x)
  · rw [hgive.effect.recorded]
    exact List.mem_append_right _ List.mem_cons_self
  · obtain ⟨haborted, hle⟩ := h.outcome o (hgive.effect.outcome ▸ ho)
    rw [consumed_of_yields hzs] at hle
    refine ⟨haborted, Nat.le_trans hle ?_⟩
    rw [List.length_append]
    exact Nat.le_add_right _ _

variable {s s' : Session σ T (δ × Recorder)} {xs ys : List (Lexeme T)} {i : InvalidToken}
  {o : Outcome}

omit [DecidableEq T] in
/-- **The loop of a driver after an abort** skips the trivia behind the invalid lexeme before it
finds the parse aborted and finishes it. -/
theorem Halted.round {forced : Nat} (h : Halted source xs i s.parser) (hround : Round forced s s') :
    ∃ ys o, Stopped source xs i ys o s'.parser := by
  obtain ⟨q, hskip, ⟨hfinish⟩⟩ := hround.closes_of_aborted h.aborted
  obtain ⟨hstop, ys, he, htrivia⟩ := hskip.effect
  have haborted : q.aborted = true := hskip.aborted.trans h.aborted
  have htokens : (LexemeStream.ofSource source).Yields (xs ++ .invalid i :: ys) q.tokens := by
    rw [List.append_cons]
    exact h.tokens.trans he.tokens
  have hreported : Diagnostic.invalidToken i ∈ q.sink.2.diagnostics := by
    rw [he.recorded]
    exact List.mem_append_left _ h.reported
  cases hfinish with
  | @again o ho =>
    obtain ⟨hearly, hle⟩ := h.outcome o (he.outcome ▸ ho)
    exact ⟨ys, o, htokens, h.valid, htrivia, hstop, hreported, haborted, ho,
      fun hlate ↦ absurd (hearly.symm.trans hlate) Bool.false_ne_true, fun _ ↦ hle⟩
  | first _ hconclude =>
    cases hconclude with
    | aborted _ =>
      refine ⟨ys, q.verdict, htokens, h.valid, htrivia, hstop, hreported, haborted, rfl,
        fun _ ↦ ?_, fun hearly ↦ absurd (hearly.symm.trans haborted) Bool.false_ne_true⟩
      refine (consumed_of_yields htokens).trans ?_
      rw [List.length_append, List.length_cons]
      omega
    | skips hrunning _ => exact absurd (hrunning.symm.trans haborted) Bool.false_ne_true

omit [DiagnosticSink δ] [DecidableEq T] in
/-- The loops of the other drivers find nothing to skip and nothing to settle. -/
theorem Stopped.round {forced : Nat} (h : Stopped source xs i ys o s.parser)
    (hround : Round forced s s') : Stopped source xs i ys o s'.parser := by
  obtain ⟨q, hskip, ⟨hfinish⟩⟩ := hround.closes_of_aborted h.aborted
  obtain rfl := Skips.unique (.stop h.stop) hskip
  rw [show _ = s.parser from hfinish.eq_of_finished h.outcome]
  exact h

/-- All that a heeding driver does in a broken parse is to end its step. -/
theorem exists_round_of_broken (h : Heeds s s') (hb : IsBroken s.parser) :
    ∃ forced t, t.parser = s.parser ∧ Round forced t s' := by
  cases ends_of_does h.1 (h.2 hb) with
  | round _ hsame hround => exact ⟨_, _, hsame hb.1, hround⟩
  | stalled hrunning _ => exact absurd (hrunning.symm.trans hb.1) Bool.false_ne_true

/-- How far a parse has come that is run while `n` drivers are at work already. -/
inductive Stage (source : σ) (n : Nat) (s : Session σ T (δ × Recorder)) : Prop where
  | sound : (∀ i, Diagnostic.invalidToken i ∉ s.parser.sink.2.diagnostics) →
      (s.parser.aborted = false → Unharmed source s.parser) → Stage source n s
  | halted {xs : List (Lexeme T)} {i : InvalidToken} : n < s.drivers.length →
      Halted source xs i s.parser → Stage source n s
  | stopped {xs ys : List (Lexeme T)} {i : InvalidToken} {o : Outcome} :
      Stopped source xs i ys o s.parser → Stage source n s

omit [Terminal T] [DecidableEq T] in
theorem not_mem_of_effect {xs : List (Lexeme T)} {ds : List Diagnostic} (he : Effect p xs ds q)
    (hcount : Diagnostic.count .invalidToken ds = 0)
    (h : ∀ i, Diagnostic.invalidToken i ∉ p.sink.2.diagnostics) (i : InvalidToken) :
    Diagnostic.invalidToken i ∉ q.sink.2.diagnostics := by
  rw [he.recorded]
  refine fun hi ↦ (List.mem_append.1 hi).elim (h i) fun hi ↦ ?_
  exact List.countP_eq_zero.1 hcount _ hi rfl

/-- **Every move of a heeding driver** leaves the parse in one of the stages. -/
theorem Stage.next {n : Nat} (h : Stage source n s) (hmove : Inside Heeds n s s') :
    Stage source n s' := by
  obtain ⟨hn, hheeds⟩ := hmove
  cases h with
  | sound hclean hunharmed =>
    have hafter := unharmed_of_does hunharmed hheeds.1
    cases hheeds.1 with
    | call hcall =>
      cases uses_of_calls hcall with
      | harmless he _ hcount => exact .sound (not_mem_of_effect he hcount hclean) hafter
      | givesUp hgive =>
        obtain ⟨xs, hhalted⟩ := (hunharmed hgive.running).givesUp hgive
        exact .halted hn hhalted
    | finish hclose =>
      obtain ⟨hfinish⟩ := hclose
      exact .sound (by rw [hfinish.sink]; exact hclean) hafter
    | enter _ hround => exact .sound (by rw [hround.sink]; exact hclean) hafter
    | refuse _ => exact .sound hclean hunharmed
    | busy _ hround => exact .sound (by rw [hround.sink]; exact hclean) hafter
    | @idle p f fs log _ hi _ hround =>
      cases uses_force (isOver_of_isIdle hi) with
      | harmless he _ hcount =>
        exact .sound (by rw [hround.sink]; exact not_mem_of_effect he hcount hclean) hafter
      | givesUp hgive =>
        -- The lexeme that was consumed for the driver was invalid, so its loop ends at once.
        obtain ⟨xs, hhalted⟩ := (hunharmed hgive.running).givesUp hgive
        obtain ⟨ys, o, hstopped⟩ := Halted.round (s := ⟨p.force, fs, log⟩) hhalted hround
        exact .stopped hstopped
    | stalled _ _ hclose =>
      obtain ⟨hfinish⟩ := hclose
      exact .sound (by rw [hfinish.sink]; exact hclean) hafter
  | halted _ hhalted =>
    obtain ⟨forced, t, ht, hround⟩ := exists_round_of_broken hheeds
      ⟨hhalted.aborted, _, hhalted.reported⟩
    obtain ⟨ys, o, hstopped⟩ := (ht ▸ hhalted : Halted source _ _ t.parser).round hround
    exact .stopped hstopped
  | stopped hstopped =>
    obtain ⟨forced, t, ht, hround⟩ := exists_round_of_broken hheeds
      ⟨hstopped.aborted, _, hstopped.reported⟩
    exact .stopped ((ht ▸ hstopped : Stopped source _ _ _ _ t.parser).round hround)

/-- A run of heeding drivers leaves the parse in one of the stages. -/
theorem Stage.run {n : Nat} (h : Stage source n s)
    (hpath : Relation.ReflTransGen (Inside Heeds n) s s') : Stage source n s' := by
  induction hpath with
  | refl => exact h
  | tail _ hmove ih => exact ih.next hmove

/-- **What is consumed when a parse is aborted on an invalid lexeme.** A driver is run on a parser
in whatever session, it makes no call after the abort, and neither do the drivers that it runs. When
it returns, the invalid lexeme has been consumed and all the trivia behind it, and nothing more. If
the outcome was settled after the abort it counts both; if it was settled before, it counts neither.
So it is the place of the invalid lexeme that is recorded exactly if there was no such trivia, and
the outcome was settled after the abort. -/
theorem consumed_of_broken (source : σ) (sink : δ) (skipLimit : Nat) (logExpectations : Bool)
    {s₀ s : Session σ T (δ × Recorder)} {accepted : Bool}
    (h₀ : Reaches (start source (sink, {}) skipLimit logExpectations) s₀)
    (ha : s₀.parser.aborted = false) (h : Returns Heeds s₀ accepted s)
    (hb : IsBroken s.parser) :
    ∃ xs i ys o, (LexemeStream.ofSource source).Yields (xs ++ .invalid i :: ys) s.parser.tokens ∧
      Diagnostic.invalidToken i ∈ s.parser.sink.2.diagnostics ∧
      (∀ x ∈ xs, x.isInvalid = false) ∧ (∀ y ∈ ys, y.isTrivia = true) ∧
      s.parser.tokens.lookahead.isTrivia = false ∧ s.parser.outcome = some o ∧
      (o.aborted = true → o.tokensConsumed = xs.length + 1 + ys.length) ∧
      (o.aborted = false → o.tokensConsumed ≤ xs.length) ∧
      (o.tokensConsumed = xs.length + 1 ↔ o.aborted = true ∧ ys = []) := by
  obtain ⟨hrunning, ⟨r, hround, hpath⟩, hdrivers, -⟩ := h
  have hstart : Unharmed source s₀.parser :=
    unharmed_of_reaches (fun _ ↦ unharmed_start source sink skipLimit logExpectations) h₀ ha
  have hr : Stage source s₀.drivers.length r :=
    .sound (by rw [hround.sink]; exact hstart.reported)
      (unharmed_of_does (fun _ ↦ hstart) (.enter hrunning hround))
  cases hr.run hpath with
  | sound hclean _ =>
    obtain ⟨-, i, hi⟩ := hb
    exact absurd hi (hclean i)
  | halted hn _ =>
    rw [hdrivers] at hn
    exact absurd hn (Nat.lt_irrefl _)
  | @stopped xs ys i o hstopped =>
    refine ⟨xs, i, ys, o, hstopped.tokens, hstopped.reported, hstopped.valid, hstopped.trivia,
      hstopped.stop, hstopped.outcome, hstopped.late, hstopped.early, ?_⟩
    cases haborted : o.aborted with
    | true =>
      rw [hstopped.late haborted, ← List.length_eq_zero_iff, Nat.add_eq_left, eq_self, true_and]
    | false =>
      have := hstopped.early haborted
      simp only [Bool.false_eq_true, false_and, iff_false]
      omega

/-- A stray character with a name behind it, when everything is consumed. -/
theorem consumed_of_broken_stray :
    let stray : InvalidToken := ⟨['^'], .covering (.start "u") ['^'], .unrecognizedInput⟩
    let name : Token CMake.Kind := .covering .identifier ['x'] ['x'] stray.span.stop
    let source : LexemeList CMake.Kind := .ofList "u" [.invalid stray, .valid name]
    let s := start source ((), ({} : Recorder)) 3 false
    ∃ log, Returns Heeds s s.parser.parse.1 ⟨s.parser.parse.2, [], log⟩ ∧
      IsBroken s.parser.parse.2 ∧ s.parser.parse.2.outcome.map (·.tokensConsumed) = some 1 := by
  intro stray name source s
  obtain ⟨log, hreturns⟩ := returns_parse admits_heeds (p := s.parser) rfl [] []
  have hbroken : IsBroken s.parser.parse.2 := ⟨by decide +kernel, stray, by decide +kernel⟩
  obtain ⟨xs, i, ys, o, htokens, -, -, -, -, ho, hlate, -, -⟩ :=
    consumed_of_broken source () 3 false .refl rfl hreturns hbroken
  have hlength : s.parser.parse.2.consumed = (xs ++ .invalid i :: ys).length :=
    consumed_of_yields htokens
  have hone : s.parser.parse.2.consumed = 1 := by decide +kernel
  have haborted : s.parser.parse.2.outcome.map (·.aborted) = some true := by decide +kernel
  rw [show s.parser.parse.2.outcome = some o from ho] at haborted ⊢
  refine ⟨log, hreturns, hbroken, congrArg some ((hlate (Option.some.inj haborted)).trans ?_)⟩
  rw [hone, List.length_append, List.length_cons] at hlength
  omega

/-- The invalid lexeme comes first and a blank is behind it, and two lexemes are recorded. -/
theorem consumed_past_stray :
    let stray : InvalidToken := ⟨['^'], .covering (.start "u") ['^'], .unrecognizedInput⟩
    let blank : Token CMake.Kind := .covering .whitespace [' '] [' '] stray.span.stop
    let source : LexemeList CMake.Kind := .ofList "u" [.invalid stray, .valid blank]
    let s := start source ((), ({} : Recorder)) 3 false
    (∃ log, Returns Heeds s s.parser.parse.1 ⟨s.parser.parse.2, [], log⟩) ∧
      s.parser.tokens.lookahead = .invalid stray ∧
      s.parser.parse.2.outcome.map (·.tokensConsumed) = some 2 := by
  intro stray blank source s
  exact ⟨returns_parse admits_heeds rfl [] [], rfl, by decide +kernel⟩

end Session

end Parser

end LexFront
