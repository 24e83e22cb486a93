import LexFront.Proofs.Parser.Aborting
import LexFront.Proofs.Parser.Acceptance

/-!
# The outcome and the parser that returns it

The outcome of a parse is recorded by the first call of `finish`, whoever makes it, and every later
call answers it again. A driver may call `finish` in one of its steps, or run a driver in it, which
does so too, and then go on. So when the outermost driver returns, the parser may have come further
than its outcome says. What has happened since is an `Effect`, by which the two differ and no more;
it is none at all if nobody else called `finish`, and next to none if the parse was accepted, since
there was nothing left to consume.

Key facts:

* `aborted_of_does`: at the end of the input no move aborts the parse.
* `outcome_of_returns`: the recorded numbers and those of the parser.
-/

set_option autoImplicit false

namespace LexFront

namespace Parser

variable {σ T δ : Type} [LexemeSource σ T] [Terminal T]

theorem Concludes.unique {m q r : Parser σ T δ} (h : Concludes m q) (h' : Concludes m r) :
    q = r := by
  cases h with
  | aborted ha =>
    cases h' with
    | aborted _ => rfl
    | skips ha' _ => exact absurd (ha'.symm.trans ha) Bool.false_ne_true
  | skips ha hskip =>
    cases h' with
    | aborted ha' => exact absurd (ha.symm.trans ha') Bool.false_ne_true
    | skips _ hskip' => exact hskip.unique hskip'

variable [DiagnosticSink δ]

namespace Session

/-- An accepted parse is at the end of its input, and not aborted. -/
def IsCalm (p : Parser σ T δ) : Prop :=
  ∀ o, p.outcome = some o → o.accepted = true → p.isAtEnd = true ∧ p.aborted = false

variable [DecidableEq T] {s s' : Session σ T δ}

/-- **At the end of the input no move aborts the parse**, for a driver is stopped only before it. -/
theorem aborted_of_does (h : Does s s') (hend : s.parser.isAtEnd = true) :
    s'.parser.aborted = s.parser.aborted := by
  cases h with
  | call hcall => exact (uses_of_calls hcall).aborted_of_isAtEnd hend
  | finish hclose =>
    obtain ⟨hfinish⟩ := hclose
    exact aborted_of_finishes hfinish
  | enter _ hround => exact hround.aborted
  | refuse _ => rfl
  | busy _ hround => exact hround.aborted
  | idle hi _ _ =>
    have hopen := (of_not_isOver (isOver_of_isIdle hi)).2
    exact absurd (hopen.symm.trans hend) Bool.false_ne_true
  | stalled hi _ _ =>
    have hopen := (of_not_isOver (isOver_of_isIdle hi)).2
    exact absurd (hopen.symm.trans hend) Bool.false_ne_true

/-- **Every move keeps an accepted parse calm.** -/
theorem isCalm_of_does (h : IsCalm s.parser) (hdoes : Does s s') : IsCalm s'.parser := by
  intro o ho haccepted
  cases hs : s.parser.outcome with
  | some o' =>
    have ho' := (moves_of_does hdoes).outcome hs
    obtain rfl : o = o' := Option.some.inj (ho.symm.trans ho')
    obtain ⟨hend, hrunning⟩ := h o hs haccepted
    obtain ⟨xs, hxs⟩ := exists_yields_of_reaches (.single hdoes)
    obtain ⟨-, htokens⟩ := hxs.of_isAtEnd hend
    refine ⟨?_, (aborted_of_does hdoes hend).trans hrunning⟩
    rw [isAtEnd, htokens]
    exact hend
  | none =>
    cases moves_of_does hdoes with
    | on he _ =>
      rw [he.outcome, hs] at ho
      cases ho
    | closes he hfinish _ =>
      -- The outcome has just been settled, so that it is the verdict on this parser.
      obtain ⟨r, -, hr⟩ := hfinish.exists_concludes (he.outcome.trans hs)
      rw [hr] at ho ⊢
      obtain rfl : r.verdict = o := Option.some.inj ho
      obtain ⟨⟨hrunning, hend⟩, -⟩ : (r.aborted = false ∧ r.isAtEnd = true) ∧ r.errorCount = 0 := by
        simpa [verdict] using haccepted
      exact ⟨hend, hrunning⟩

theorem isCalm_of_reaches (h : IsCalm s.parser) (hreach : Reaches s s') : IsCalm s'.parser := by
  induction hreach with
  | refl => exact h
  | tail _ hdoes ih => exact isCalm_of_does ih hdoes

omit [DiagnosticSink δ] [DecidableEq T] in
/-- Where `finish` was called once only, and last, the parser is as it was left then. -/
theorem parser_of_finishes {u s : Session σ T δ} {m q : Parser σ T δ} (h : Closes u s)
    (hlog : s.finishes = [m]) (hm : m.outcome = none) (hconclude : Concludes m q) :
    s.parser = q.settle.2 := by
  obtain ⟨hfinish⟩ := h
  have hlog : u.finishes ++ [u.parser] = [] ++ [m] := hlog
  obtain ⟨-, hlast⟩ := List.append_inj' hlog rfl
  obtain rfl : u.parser = m := List.singleton_inj.1 hlast
  obtain ⟨r, hconclude', hr⟩ := hfinish.exists_concludes hm
  rw [hconclude.unique hconclude']
  exact hr

/-- **The outcome when a parse returns.** A driver is run on a new parser, over whatever source, and
may do in its steps whatever it wants to, finishing the parse and running drivers included. When it
returns, the recorded numbers are those of the parser behind the trivia at the first call of
`finish`. Since then the parser has consumed the lexemes `ys` and reported the diagnostics `ds`, and
its own numbers are larger by these; an abort may have been added, but none was taken back. If
`finish` was called at the end only, nothing has happened since. If it returns that the parse is
accepted, no error had been counted by then, nothing was consumed since, and the parse has not been
aborted. -/
theorem outcome_of_returns (source : σ) (sink : δ) (skipLimit : Nat) (logExpectations : Bool)
    {s : Session σ T δ} {accepted : Bool}
    (h : Returns Does (start source sink skipLimit logExpectations) accepted s) :
    ∃ m ms q o ys ds, s.finishes = m :: ms ∧ Concludes m q ∧
      Effect q.settle.2 ys ds s.parser ∧ s.parser.outcome = some o ∧ accepted = o.accepted ∧
      o.errorCount = q.errorCount ∧ o.aborted = q.aborted ∧ o.tokensConsumed = q.consumed ∧
      s.parser.errorCount = o.errorCount + Diagnostic.count .unexpectedToken ds ∧
      s.parser.consumed = o.tokensConsumed + ys.length ∧
      (o.aborted = true → s.parser.aborted = true) ∧
      (ms = [] → ys = [] ∧ ds = [] ∧ s.parser.aborted = o.aborted) ∧
      (accepted = true → o.errorCount = 0 ∧ ys = [] ∧
        o.aborted = false ∧ s.parser.aborted = false) := by
  have hreach := h.reaches
  have hcalm : IsCalm s.parser :=
    isCalm_of_reaches (fun o ho ↦ by cases ho) hreach
  obtain ⟨o, ho, haccepted⟩ := h.answer
  cases judged_of_reaches rfl hreach with
  | running hlog he => rw [he.outcome] at ho; cases ho
  | @settled m q ms xs ys ds es hlog he hconclude hafter =>
    obtain rfl : q.verdict = o := Option.some.inj (hafter.outcome.symm.trans ho)
    have hfirst : ms = [] → s.parser = q.settle.2 := by
      rintro rfl
      obtain ⟨u, hclose⟩ := h.exists_closes id
      exact parser_of_finishes hclose hlog he.outcome hconclude
    obtain ⟨ys, es, hsince, hnone⟩ : ∃ ys ds, Effect q.settle.2 ys ds s.parser ∧
        (ms = [] → ys = [] ∧ ds = [] ∧ s.parser.aborted = q.aborted) := by
      by_cases hms : ms = []
      · rw [hfirst hms]
        exact ⟨[], [], .refl _, fun _ ↦ ⟨rfl, rfl, rfl⟩⟩
      · exact ⟨ys, es, hafter, fun h ↦ absurd h hms⟩
    refine ⟨m, ms, q, q.verdict, ys, es, hlog, hconclude, hsince, ho, haccepted.symm, rfl, rfl,
      rfl, hsince.errorCount, hsince.consumed, fun ha ↦ ?_, hnone, fun htrue ↦ ?_⟩
    · cases hs : s.parser.aborted with
      | true => rfl
      | false => exact (hsince.aborted_of_aborted hs).symm.trans ha
    · obtain ⟨⟨hrunning, hend⟩, hcount⟩ :
          (q.aborted = false ∧ q.isAtEnd = true) ∧ q.errorCount = 0 := by
        simpa [verdict] using haccepted.trans htrue
      obtain ⟨rfl, -⟩ := hsince.tokens.of_isAtEnd hend
      exact ⟨hcount, rfl, hrunning, (hcalm _ ho (haccepted.trans htrue)).2⟩

/-- A driver that runs another one in its step, which consumes everything, on a name. -/
theorem outcome_of_returns_nested :
    let source := LexemeList.ofPairs "u" [(CMake.Kind.identifier, ['x'])]
    let s := start source ({} : Recorder) 3 false
    let r := s.parser.parseWith (fun g p ↦ (p.parseWith drain g).2) ()
    ∃ log, Returns Does s r.1 ⟨r.2.2, [], log⟩ ∧ r.1 = true ∧ r.2.2.aborted = false ∧
      ∃ o ds, r.2.2.outcome = some o ∧ o.errorCount = 0 ∧ r.2.2.consumed = o.tokensConsumed ∧
        r.2.2.errorCount = Diagnostic.count .unexpectedToken ds := by
  intro source s r
  have hdrain : Performs Does (drain (σ := LexemeList CMake.Kind) (δ := Recorder)) :=
    performs_of_calls (fun hdoes _ ↦ hdoes) fun _ ↦ .advance
  obtain ⟨log, hreturns⟩ := returns_parseWith (p := s.parser) isForward_drain.parseWith
    (fun hdoes _ ↦ hdoes) (performs_parseWith isForward_drain (fun hdoes _ ↦ hdoes) hdrain) () rfl
    [] []
  have htrue : r.1 = true := by decide +kernel
  obtain ⟨m, ms, q, o, ys, ds, -, -, -, ho, -, -, -, -, hcount, hconsumed, -, -, haccepted⟩ :=
    outcome_of_returns source ({} : Recorder) 3 false hreturns
  obtain ⟨hnone, rfl, -, hrunning⟩ := haccepted htrue
  rw [hnone, Nat.zero_add] at hcount
  exact ⟨log, hreturns, htrue, hrunning, o, ds, ho, hnone, hconsumed, hcount⟩

/-- A driver that takes the only name, finishes, and reports the name after that: the parse is
accepted and its outcome knows of no error, but the parser has counted one. -/
theorem outcome_before_report :
    let name : Token CMake.Kind := .covering .identifier ['x'] ['x'] (.start "u")
    let source : LexemeList CMake.Kind := .ofList "u" [.valid name]
    let step (g : Unit) (p : Parser (LexemeList CMake.Kind) CMake.Kind Recorder) :=
      (g, p.advance.2.finish.2.reportError name.text name.span)
    let r := (ofSource source {}).parseWith step ()
    r.1 = true ∧ r.2.2.outcome.map (·.errorCount) = some 0 ∧ r.2.2.errorCount = 1 := by
  decide +kernel

end Session

end Parser

end LexFront
