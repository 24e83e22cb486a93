import Mathlib.Data.List.Induction
import LexFront.CMake.Lexicon
import LexFront.Proofs.Parser.Session

/-!
# What the sink of a parser hears

A parser counts the unexpected tokens that it reports, and so does a sink that collects. Nothing
compares the two counts; they agree because there is one way only in which a diagnostic leaves a
parser. `Reports` says what has been reported between two states of a parser, and everything else
follows from the list of it: the count, the abort, and what is left in any sink.

A session leaves the settings of its parser alone, but whoever owns the parser may change them in
between. That is an act like any other here, for it must not lose a report either.

Key facts:

* `exists_reports_of_leads`: what happens to a parser is a list of reports.
* `foldl_receive_collector`: what a collector makes of a list of reports.
* `reports_of_session`: the parser and its sinks agree at every point of every session.
-/

set_option autoImplicit false

namespace LexFront

/-! ### What sinks make of a list of reports -/

/-- The members of a pair hear the same. -/
theorem DiagnosticSink.foldl_receive_prod {α β : Type} [DiagnosticSink α] [DiagnosticSink β]
    (s : α × β) (ds : List Diagnostic) :
    ds.foldl receive s = (ds.foldl receive s.1, ds.foldl receive s.2) := by
  induction ds generalizing s with
  | nil => rfl
  | cons d ds ih => exact ih (receive s d)

namespace Collector

/-- **A collector keeps the first diagnostics** and counts the others, and it counts all unexpected
tokens, kept or not. -/
theorem foldl_receive_collector (capacity : Nat) (ds : List Diagnostic) :
    ds.foldl DiagnosticSink.receive ({ capacity } : Collector) =
      { capacity
        diagnostics := ds.take capacity
        dropped := ds.length - capacity
        parseErrors := Diagnostic.count .unexpectedToken ds } := by
  induction ds using List.reverseRecOn with
  | nil => simp
  | append_singleton ds d ih =>
    rw [List.foldl_append, ih]
    show receive _ d = _
    have hcount : Diagnostic.count .unexpectedToken (ds ++ [d]) =
        Diagnostic.count .unexpectedToken ds + if d.kind.isCounted then 1 else 0 := by
      simp [Diagnostic.count, Diagnostic.Kind.isCounted, List.countP_cons]
    have hgrow : (ds ++ [d]).length = ds.length + 1 := List.length_append
    rcases Nat.lt_or_ge ds.length capacity with hroom | hfull
    · have hall : ds.take capacity = ds := List.take_of_length_le (Nat.le_of_lt hroom)
      have hnext : (ds ++ [d]).take capacity = ds ++ [d] :=
        List.take_of_length_le (by omega)
      have hdropped : ds.length - capacity = (ds ++ [d]).length - capacity := by omega
      simp only [receive, hall, hroom, hcount, hnext, hdropped, if_true]
      split <;> rfl
    · have hkept : (ds.take capacity).length = capacity := List.length_take_of_le hfull
      have hnext : (ds ++ [d]).take capacity = ds.take capacity :=
        List.take_append_of_le_length hfull
      have hdropped : (ds ++ [d]).length - capacity = ds.length - capacity + 1 := by omega
      simp only [receive, hkept, hcount, hnext, hdropped, Nat.lt_irrefl, if_false]
      split <;> rfl

end Collector

namespace Parser

variable {σ T δ : Type} [LexemeSource σ T] [DiagnosticSink δ]

/-! ### What is reported between two states of a parser -/

/-- The diagnostics that a parser handed to its sink between two of its states. -/
structure Reports (p : Parser σ T δ) (ds : List Diagnostic) (q : Parser σ T δ) : Prop where
  sink : q.sink = ds.foldl DiagnosticSink.receive p.sink
  errorCount : q.errorCount = p.errorCount + Diagnostic.count .unexpectedToken ds
  /-- An invalid token is reported by the abort that it causes, and nothing takes an abort back. -/
  aborts : Diagnostic.count .invalidToken ds + p.aborted.toNat ≤ q.aborted.toNat

namespace Reports

variable {p q r : Parser σ T δ} {ds es : List Diagnostic}

omit [LexemeSource σ T] in
/-- Nothing has been reported as long as sink, count and abort are what they were. -/
theorem of_eq (hsink : q.sink = p.sink) (hcount : q.errorCount = p.errorCount)
    (habort : q.aborted = p.aborted) : Reports p [] q where
  sink := hsink
  errorCount := hcount
  aborts := by simp [habort]

theorem of_effect {xs : List (Lexeme T)} (h : Effect p xs ds q) : Reports p ds q :=
  ⟨h.sink, h.errorCount, h.aborts⟩

omit [LexemeSource σ T] in
theorem trans (h : Reports p ds q) (h' : Reports q es r) : Reports p (ds ++ es) r where
  sink := by rw [h'.sink, h.sink, List.foldl_append]
  errorCount := by
    rw [h'.errorCount, h.errorCount, Diagnostic.count_append]
    omega
  aborts := by
    have := h.aborts
    have := h'.aborts
    rw [Diagnostic.count_append]
    omega

omit [LexemeSource σ T] in
/-- An invalid token has been reported only if the parse is aborted. -/
theorem aborted (h : Reports p ds q) (hd : 0 < Diagnostic.count .invalidToken ds) :
    q.aborted = true := by
  have := h.aborts
  cases hq : q.aborted with
  | true => rfl
  | false =>
    rw [hq, Bool.toNat_false] at this
    omega

omit [LexemeSource σ T] in
/-- What is aborted stays so. -/
theorem aborted_of_aborted (h : Reports p ds q) (hp : p.aborted = true) : q.aborted = true := by
  have := h.aborts
  cases hq : q.aborted with
  | true => rfl
  | false =>
    rw [hq, hp, Bool.toNat_false, Bool.toNat_true] at this
    omega

end Reports

namespace Session

variable [Terminal T]

/-- Settling the outcome reports nothing, and neither does asking for it again. -/
theorem reports_of_finishes {p q : Parser σ T δ} (h : Finishes p q) : Reports p [] q := by
  cases h with
  | again _ => exact .of_eq rfl rfl rfl
  | first _ hconclude =>
    obtain ⟨xs, he⟩ := exists_effect_of_concludes hconclude
    exact (Reports.of_effect he).trans (.of_eq rfl rfl rfl)

variable [DecidableEq T]

/-- What may be done with a parser: a move of its session, or other settings in between. -/
inductive Acts : Session σ T δ → Session σ T δ → Prop where
  | move {s s' : Session σ T δ} : Does s s' → Acts s s'
  | configure {s : Session σ T δ} (skipLimit : Nat) (logExpectations : Bool) :
      Acts s { s with parser := { s.parser with skipLimit, logExpectations } }

/-- One session goes on to the other by anything that may be done. -/
def Leads : Session σ T δ → Session σ T δ → Prop := Relation.ReflTransGen Acts

theorem exists_reports_of_acts {s s' : Session σ T δ} (h : Acts s s') :
    ∃ ds, Reports s.parser ds s'.parser := by
  cases h with
  | configure => exact ⟨[], .of_eq rfl rfl rfl⟩
  | move h =>
    cases moves_of_does h with
    | on he _ => exact ⟨_, .of_effect he⟩
    | closes he hfinish _ =>
      exact ⟨_, (Reports.of_effect he).trans (reports_of_finishes hfinish)⟩

/-- **What happens to a parser is a list of reports.** -/
theorem exists_reports_of_leads {s s' : Session σ T δ} (h : Leads s s') :
    ∃ ds, Reports s.parser ds s'.parser := by
  induction h with
  | refl => exact ⟨[], .of_eq rfl rfl rfl⟩
  | tail _ h ih =>
    obtain ⟨ds, hds⟩ := ih
    obtain ⟨es, hes⟩ := exists_reports_of_acts h
    exact ⟨ds ++ es, hds.trans hes⟩

variable {α β : Type} [DiagnosticSink α] [DiagnosticSink β]

/-- **No report is lost, and none is counted twice.** A recorder beside the other sinks tells which
calls they received. At every point of every session the parser has counted the unexpected tokens
among them. At most one of them is about an invalid token, and then the parse is aborted for good.
Both members of a pair of sinks have received all of them in order. A collector holds the first of
them, as many as it has room for, and has counted the others and the errors. Whatever is done next
adds calls behind these, and only unexpected tokens among the new ones change the count. -/
theorem reports_of_session (source : σ) (sinks : α × β) (capacity skipLimit : Nat)
    (logExpectations : Bool) {s : Session σ T ((α × β) × Collector × Recorder)}
    (h : Leads (start source (sinks, { capacity }, {}) skipLimit logExpectations) s) :
    let calls := s.parser.sink.2.2.diagnostics
    let kept := s.parser.sink.2.1
    s.parser.errorCount = Diagnostic.count .unexpectedToken calls ∧
      Diagnostic.count .invalidToken calls ≤ 1 ∧
      s.parser.sink.1.1 = calls.foldl DiagnosticSink.receive sinks.1 ∧
      s.parser.sink.1.2 = calls.foldl DiagnosticSink.receive sinks.2 ∧
      kept.diagnostics = calls.take capacity ∧
      kept.diagnostics.length + kept.dropped = calls.length ∧
      kept.parseErrors = s.parser.errorCount ∧
      ∀ s', Leads s s' → ∃ later, s'.parser.sink.2.2.diagnostics = calls ++ later ∧
        s'.parser.errorCount =
          s.parser.errorCount + Diagnostic.count .unexpectedToken later ∧
        (0 < Diagnostic.count .invalidToken calls → s'.parser.aborted = true) := by
  -- The sinks of the session have heard one list of calls, and the recorder tells which.
  have hheard : ∀ {t t' : Session σ T ((α × β) × Collector × Recorder)}, Leads t t' →
      ∃ ds, Reports t.parser ds t'.parser ∧
        t'.parser.sink.2.2.diagnostics = t.parser.sink.2.2.diagnostics ++ ds := by
    intro t t' ht
    obtain ⟨ds, hds⟩ := exists_reports_of_leads ht
    refine ⟨ds, hds, ?_⟩
    rw [hds.sink, DiagnosticSink.foldl_receive_prod]
    exact Recorder.foldl_receive _ ds
  obtain ⟨ds, hds, hcalls⟩ := hheard h
  have hsink := hds.sink
  rw [DiagnosticSink.foldl_receive_prod, DiagnosticSink.foldl_receive_prod,
    DiagnosticSink.foldl_receive_prod] at hsink
  have hkept : s.parser.sink.2.1 = ds.foldl DiagnosticSink.receive ({ capacity } : Collector) :=
    congrArg (·.2.1) hsink
  have hcount : s.parser.errorCount = Diagnostic.count .unexpectedToken ds :=
    hds.errorCount.trans (Nat.zero_add _)
  intro calls kept
  obtain rfl : calls = ds := hcalls
  rw [Collector.foldl_receive_collector] at hkept
  refine ⟨hcount, ?_, congrArg (·.1.1) hsink, congrArg (·.1.2) hsink,
    congrArg (·.diagnostics) hkept, ?_, ?_, fun s' hs' ↦ ?_⟩
  · exact Nat.le_trans (Nat.le_add_right _ _) (Nat.le_trans hds.aborts (Bool.toNat_le _))
  · show s.parser.sink.2.1.diagnostics.length + s.parser.sink.2.1.dropped = _
    rw [hkept, List.length_take]
    show min capacity calls.length + (calls.length - capacity) = _
    omega
  · exact (congrArg (·.parseErrors) hkept).trans hcount.symm
  · obtain ⟨later, hlater, hcalls'⟩ := hheard hs'
    exact ⟨later, hcalls', hlater.errorCount, fun hinvalid ↦
      hlater.aborted_of_aborted (hds.aborted hinvalid)⟩

/-- A keyword that was expected where a name stands, and a stray character behind it, before a
collector with room for one diagnostic. -/
theorem reports_of_session_stray :
    let name : Token CMake.Kind := .covering .identifier ['x'] ['x'] (.start "u")
    let stray : InvalidToken := ⟨['^'], .covering name.span.stop ['^'], .unrecognizedInput⟩
    let source : LexemeList CMake.Kind := .ofList "u" [.valid name, .invalid stray]
    let s := start source (((), ()), ({ capacity := 1 } : Collector), ({} : Recorder)) 3 false
    let p := (s.parser.expect .keyword).2.advance.2
    Leads s { s with parser := p } ∧ p.sink.2.2.diagnostics.length = 2 ∧ p.errorCount = 1 ∧
      p.sink.2.1.dropped = 1 ∧ p.aborted = true := by
  intro name stray source s p
  have hleads : Leads s { s with parser := p } :=
    .tail (.single (.move (.call (calls_expect s.parser .keyword)))) (.move (.call .advance))
  obtain ⟨hcount, -, -, -, hkept, hdropped, -, -⟩ :=
    reports_of_session source ((), ()) 1 3 false hleads
  have hp : p = (s.parser.expectNext (· = .keyword)).2.advance.2 := by
    show (s.parser.expectWhere (· = .keyword)).2.advance.2 = _
    rw [expectWhere, if_neg (show ¬ s.parser.aborted = true from Bool.false_ne_true),
      skipTrivia_of_not_isTrivia rfl]
  have hcalls : p.sink.2.2.diagnostics =
      [.unexpectedToken ['x'] name.span, .invalidToken stray] := by
    rw [hp]
    rfl
  rw [hcalls] at hcount hkept hdropped
  refine ⟨hleads, by rw [hcalls]; rfl, hcount, ?_, by rw [hp]; rfl⟩
  rw [hkept] at hdropped
  exact Nat.add_left_cancel hdropped

end Session

end Parser

end LexFront
