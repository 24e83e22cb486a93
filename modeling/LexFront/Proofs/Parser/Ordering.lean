import Mathlib.Data.List.Forall2
import Mathlib.Logic.Relation
import LexFront.Proofs.Languages
import LexFront.Proofs.Lexer.Endings
import LexFront.Proofs.Parser.Driving

/-!
# Diagnostics in the order of the source

A parser reports a lexeme at the moment at which it consumes it, and consumes every lexeme once. So
whatever a driver does, the lexemes that are reported stand in the order of the unit, none of them
twice, and the complaints that no lexeme is left come last, for behind the end nothing is consumed
any more. `Orderly` adds this to what is known of an effect; it is kept by every operation that
takes lexemes, by the lexeme that is forced on an idle driver, and by the stop of a driver that does
nothing.

The lexemes of a unit tile it, so that the order of the lexemes is that of their locations. The end
of the input is complained of only while the parse is not aborted. Then no lexeme was invalid, and
so all of the unit was read: the location of such a complaint is just past it, although a stream
that looks ahead is in general further on than the parser.

Key facts:

* `Orderly.trans`: reports in order, one after the other, are in order.
* `exists_orderly_parseWith`: what a driver reports is in order.
* `IsTiled.pairwise_lexemes`: the lexemes of a unit are in the order of their locations.
* `diagnostics_in_order`: both together, for both languages.
-/

set_option autoImplicit false

namespace LexFront

/-! ### Lexemes in the order of their locations -/

/-- The first span neither begins nor ends after the second begins. -/
def Span.Precedes (a b : Span) : Prop :=
  a.start.notAfter b.start = true ∧ a.stop.notAfter b.start = true

namespace Lexer

variable {T : Type}

theorem texts_prefix_append (xs ys : List (Lexeme T)) : texts xs <+: texts (xs ++ ys) := by
  rw [texts_append]
  exact List.prefix_append _ _

theorem texts_prefix_cons (xs : List (Lexeme T)) (x : Lexeme T) (ys : List (Lexeme T)) :
    texts (xs ++ [x]) <+: texts (xs ++ x :: ys) := by
  have h := texts_prefix_append (xs ++ [x]) ys
  rwa [List.append_assoc, List.singleton_append] at h

variable [Terminal T] {l : Lexer T}

/-- Each lexeme goes forward, and not beyond the text of the run. -/
theorem IsTiled.span_of_mem (h : l.IsTiled) {x : Lexeme T} (hx : x ∈ l.lexemes) :
    ∃ a, x.span? = some a ∧ a.start.notAfter a.stop = true ∧
      a.start.notAfter ((Location.start l.unit).advance (texts l.lexemes)) = true ∧
      a.stop.notAfter ((Location.start l.unit).advance (texts l.lexemes)) = true := by
  obtain ⟨xs, ys, hxs⟩ := List.append_of_mem hx
  refine ⟨_, h.span xs x ys hxs, ?_, ?_, ?_⟩
  · exact Location.notAfter_advance_of_prefix (texts_prefix_append xs [x]) _
  · rw [hxs]
    exact Location.notAfter_advance_of_prefix (texts_prefix_append xs (x :: ys)) _
  · rw [hxs]
    exact Location.notAfter_advance_of_prefix (texts_prefix_cons xs x ys) _

/-- **The lexemes of a unit are in the order of their locations.** -/
theorem IsTiled.pairwise_lexemes (h : l.IsTiled) :
    l.lexemes.Pairwise fun x y ↦ ∀ a ∈ x.span?, ∀ b ∈ y.span?, Span.Precedes a b := by
  suffices hsuffix : ∀ zs xs, l.lexemes = xs ++ zs →
      zs.Pairwise fun x y ↦ ∀ a ∈ x.span?, ∀ b ∈ y.span?, Span.Precedes a b from
    hsuffix l.lexemes [] rfl
  intro zs
  induction zs with
  | nil => exact fun _ _ ↦ .nil
  | cons x zs ih =>
    intro xs hxs
    refine .cons ?_ (ih (xs ++ [x]) (by rw [hxs, List.append_assoc]; rfl))
    intro y hy a ha b hb
    obtain ⟨us, vs, rfl⟩ := List.append_of_mem hy
    have hy : l.lexemes = (xs ++ x :: us) ++ y :: vs := by rw [hxs, List.append_assoc]; rfl
    obtain rfl := Option.some.inj ((h.span xs x _ hxs).symm.trans ha)
    obtain rfl := Option.some.inj ((h.span _ y vs hy).symm.trans hb)
    constructor
    · exact Location.notAfter_advance_of_prefix (texts_prefix_append xs (x :: us)) _
    · exact Location.notAfter_advance_of_prefix (texts_prefix_cons xs x us) _

end Lexer

/-! ### Reports in order -/

namespace Parser

variable {σ T δ γ : Type}

section

variable [LexemeSource σ T] [DiagnosticSink δ]

/-- An effect whose reports are in order: of some of the lexemes that were consumed, and after them
of the end of the input. -/
structure Orderly (p : Parser σ T δ) (xs : List (Lexeme T)) (ds : List Diagnostic)
    (q : Parser σ T δ) : Prop extends Effect p xs ds q where
  reports : ∃ ys es k, ys.Sublist xs ∧ List.Forall₂ Lexeme.Reports ys es ∧
    ds = es ++ List.replicate k (.noMoreToken q.endLocation) ∧
    -- The end is complained of only if nothing was invalid up to there.
    (0 < k → p.aborted = false ∧ q.isAtEnd = true ∧ ∀ x ∈ xs, x.isInvalid = false)

variable {p q r : Parser σ T δ} {xs ys : List (Lexeme T)} {ds es : List Diagnostic}

/-- Without a report there is nothing out of order. -/
theorem Effect.orderly (h : Effect p xs [] q) : Orderly p xs [] q :=
  ⟨h, [], [], 0, List.nil_sublist _, .nil, rfl, fun hk ↦ absurd hk (Nat.lt_irrefl 0)⟩

/-- A report of the lexeme that was consumed. -/
theorem Effect.orderly_single {x : Lexeme T} {d : Diagnostic} (h : Effect p [x] [d] q)
    (hd : x.Reports d) : Orderly p [x] [d] q :=
  ⟨h, [x], [d], 0, List.Sublist.refl _, .cons hd .nil, rfl, fun hk ↦ absurd hk (Nat.lt_irrefl 0)⟩

/-- **Reports in order, one after the other, are in order.** Once the end has been complained of no
lexeme can be reported any more, for there is none left. -/
theorem Orderly.trans (h : Orderly p xs ds q) (h' : Orderly q ys es r) :
    Orderly p (xs ++ ys) (ds ++ es) r := by
  have heffect := h.toEffect.trans h'.toEffect
  obtain ⟨us, as, k, hus, has, rfl, hk⟩ := h.reports
  obtain ⟨vs, bs, k', hvs, hbs, rfl, hk'⟩ := h'.reports
  refine ⟨heffect, ?_⟩
  rcases Nat.eq_zero_or_pos k with rfl | hpos
  · refine ⟨us ++ vs, as ++ bs, k', hus.append hvs, List.rel_append has hbs, by simp,
      fun hpos' ↦ ?_⟩
    obtain ⟨hq, hend, hvalid⟩ := hk' hpos'
    refine ⟨h.aborted_of_aborted hq, hend, fun x hx ↦ ?_⟩
    rcases List.mem_append.1 hx with hx | hx
    · exact h.sound hq x hx
    · exact hvalid x hx
  · obtain ⟨hp, hend, hvalid⟩ := hk hpos
    obtain ⟨rfl, htokens⟩ := h'.tokens.of_isAtEnd hend
    obtain rfl := List.sublist_nil.1 hvs
    obtain rfl := List.forall₂_nil_left_iff.1 hbs
    have hlocation : r.endLocation = q.endLocation := congrArg LexemeStream.endLocation htokens
    have hend' : r.isAtEnd = true := (congrArg LexemeStream.isAtEnd htokens).trans hend
    rw [List.append_nil]
    refine ⟨us, as, k + k', hus, has, ?_, fun _ ↦ ⟨hp, hend', hvalid⟩⟩
    rw [hlocation, List.nil_append, List.append_assoc, List.replicate_append_replicate]

/-! The operations report in order. -/

theorem orderly_advance (p : Parser σ T δ) : Orderly p p.upcoming p.objections p.advance.2 := by
  obtain ⟨-, he, -⟩ := advance_spec p
  cases hl : p.tokens.lookahead with
  | invalid i =>
    have hopen : ¬ p.isAtEnd = true := by simp [isAtEnd, LexemeStream.isAtEnd, hl, Lexeme.isEnd]
    cases ha : p.aborted with
    | true =>
      rw [objections, if_pos ha] at he ⊢
      exact he.orderly
    | false =>
      rw [upcoming, if_neg hopen, objections, if_neg (by simp [ha]), hl] at he ⊢
      exact he.orderly_single (.invalid i)
  | endOfInput =>
    rw [objections, hl, Lexeme.objections_eq_nil rfl, ite_self] at he ⊢
    exact he.orderly
  | valid t =>
    rw [objections, hl, Lexeme.objections_eq_nil rfl, ite_self] at he ⊢
    exact he.orderly

/-- A token that is consumed and then reported. -/
theorem orderly_reportError {t : Token T} (hl : p.tokens.lookahead = .valid t) :
    Orderly p [.valid t] [.unexpectedToken t.text (.ordered t.span.start t.span.stop)]
      (p.advance.2.reportError t.text t.span) := by
  obtain ⟨-, he, -⟩ := advance_spec p
  have hopen : ¬ p.isAtEnd = true := by simp [isAtEnd, LexemeStream.isAtEnd, hl, Lexeme.isEnd]
  rw [upcoming, if_neg hopen, objections, hl, Lexeme.objections_eq_nil rfl, ite_self] at he
  exact (he.trans (effect_reportError _ t.text t.span)).orderly_single (.unexpected t)

/-- A complaint that nothing is left, where that is so. -/
theorem orderly_report_end (ha : p.aborted = false) (hend : p.isAtEnd = true) :
    Orderly p [] [.noMoreToken p.endLocation] (p.report (.noMoreToken p.endLocation)) :=
  ⟨effect_report rfl, [], [], 1, List.nil_sublist _, .nil, rfl, fun _ ↦ ⟨ha, hend, by simp⟩⟩

theorem exists_orderly_expectNext (ha : p.aborted = false) (accept : T → Bool) :
    ∃ xs ds, Orderly p xs ds (p.expectNext accept).2 := by
  obtain ⟨hfst, he, haborted⟩ := advance_spec p
  have hadvance := orderly_advance p
  rw [expectNext_eq]
  cases hl : p.tokens.lookahead with
  | endOfInput =>
    have hp : p.advance = (.endOfInput, p.advance.2) := Prod.ext (hfst.trans hl) rfl
    have hend : p.advance.2.isAtEnd = true := by
      have hopen : p.isAtEnd = true := isAtEnd_of_lookahead hl
      obtain ⟨-, htokens⟩ := he.tokens.of_isAtEnd hopen
      exact (congrArg LexemeStream.isAtEnd htokens).trans hopen
    have ha' : p.advance.2.aborted = false := by rw [haborted, ha, hl]; rfl
    rw [hp]
    exact ⟨_, _, hadvance.trans (orderly_report_end ha' hend)⟩
  | invalid i =>
    have hp : p.advance = (.invalid i, p.advance.2) := Prod.ext (hfst.trans hl) rfl
    rw [hp]
    exact ⟨_, _, hadvance⟩
  | valid t =>
    have hp : p.advance = (.valid t, p.advance.2) := Prod.ext (hfst.trans hl) rfl
    rw [hp]
    simp only
    split
    · exact ⟨_, _, hadvance⟩
    · exact ⟨_, _, orderly_reportError hl⟩

theorem exists_orderly_force (p : Parser σ T δ) : ∃ xs ds, Orderly p xs ds p.force := by
  obtain ⟨hfst, -, -⟩ := advance_spec p
  have hadvance := orderly_advance p
  rw [force]
  cases hl : p.tokens.lookahead with
  | valid t =>
    have hp : p.advance = (.valid t, p.advance.2) := Prod.ext (hfst.trans hl) rfl
    rw [hp]
    exact ⟨_, _, orderly_reportError hl⟩
  | endOfInput =>
    have hp : p.advance = (.endOfInput, p.advance.2) := Prod.ext (hfst.trans hl) rfl
    rw [hp]
    exact ⟨_, _, hadvance⟩
  | invalid i =>
    have hp : p.advance = (.invalid i, p.advance.2) := Prod.ext (hfst.trans hl) rfl
    rw [hp]
    exact ⟨_, _, hadvance⟩

end

/-! ### Drivers -/

section

variable [FiniteSource σ T] [Terminal T] [DiagnosticSink δ]

theorem exists_orderly_skipTrivia (p : Parser σ T δ) :
    ∃ xs, Orderly p xs [] p.skipTrivia.2 := by
  obtain ⟨-, xs, he, -⟩ := (skips_skipTrivia p).effect
  exact ⟨xs, he.orderly⟩

theorem exists_orderly_expectWhere (p : Parser σ T δ) (accept : T → Bool) :
    ∃ xs ds, Orderly p xs ds (p.expectWhere accept).2 := by
  rw [expectWhere]
  split
  · exact ⟨_, _, (Effect.refl p).orderly⟩
  · next ha =>
    obtain ⟨xs, hskip⟩ := exists_orderly_skipTrivia p
    obtain ⟨ys, ds, hnext⟩ := exists_orderly_expectNext (p := p.skipTrivia.2)
      ((aborted_skipTrivia p).trans (by simpa using ha)) accept
    exact ⟨_, _, hskip.trans hnext⟩

variable [DecidableEq T]

/-- The calls by which a driver takes lexemes, or looks at them. -/
inductive Takes (p : Parser σ T δ) : Parser σ T δ → Prop where
  | skipTrivia : Takes p p.skipTrivia.2
  | peek : Takes p p.peek.2
  | peekTerminal : Takes p p.peekTerminal.2
  | advance : Takes p p.advance.2
  | expect (t : T) : Takes p (p.expect t).2
  | expectAny (ts : List T) : Takes p (p.expectAny ts).2

/-- Every step of a driver is made of such calls. -/
def OnlyTakes (step : γ → Parser σ T δ → γ × Parser σ T δ) : Prop :=
  ∀ (g : γ) (p : Parser σ T δ), Relation.ReflTransGen Takes p (step g p).2

variable {p q : Parser σ T δ} {step : γ → Parser σ T δ → γ × Parser σ T δ}

/-- **Every such call reports in order.** -/
theorem Takes.exists_orderly (h : Takes p q) : ∃ xs ds, Orderly p xs ds q := by
  have hskip : ∃ xs ds, Orderly p xs ds p.skipTrivia.2 :=
    (exists_orderly_skipTrivia p).imp fun xs h ↦ ⟨[], h⟩
  have hexpect : ∀ what expected accept,
      ∃ xs ds, Orderly p xs ds ((p.announce what expected).expectWhere accept).2 := by
    intro what expected accept
    obtain ⟨xs, ds, h⟩ := exists_orderly_expectWhere (p.announce what expected) accept
    exact ⟨_, _, (effect_announce p what expected).orderly.trans h⟩
  cases h with
  | skipTrivia => exact hskip
  | peek => exact hskip
  | peekTerminal => exact hskip
  | advance => exact ⟨_, _, orderly_advance p⟩
  | expect t => exact hexpect _ _ _
  | expectAny ts => exact hexpect _ _ _

theorem exists_orderly_of_takes (h : Relation.ReflTransGen Takes p q) :
    ∃ xs ds, Orderly p xs ds q := by
  induction h with
  | refl => exact ⟨_, _, (Effect.refl p).orderly⟩
  | tail _ htake ih =>
    obtain ⟨xs, ds, h⟩ := ih
    obtain ⟨ys, es, h'⟩ := htake.exists_orderly
    exact ⟨_, _, h.trans h'⟩

theorem OnlyTakes.isForward (hs : OnlyTakes step) : IsForward step := by
  intro g p
  obtain ⟨xs, ds, h⟩ := exists_orderly_of_takes (hs g p)
  exact ⟨xs, h.tokens⟩

/-- What a driver reports is in order, round by round. -/
theorem exists_orderly_drive (hs : OnlyTakes step) (forced : Nat) (g : γ) (p : Parser σ T δ) :
    ∃ xs ds, Orderly p xs ds (drive step forced g p).2 := by
  induction forced, g, p using drive_induction hs.isForward with
  | ended forced g p ho =>
    rw [drive_of_isOver ho]
    exact (exists_orderly_skipTrivia p).imp fun xs h ↦ ⟨[], h⟩
  | stalled forced g p ho hi hl =>
    obtain ⟨xs, hskip⟩ := exists_orderly_skipTrivia p
    obtain ⟨ys, ds, hstep⟩ := exists_orderly_of_takes (hs g p.skipTrivia.2)
    rw [drive_of_stalled ho hi hl]
    exact ⟨_, _, (hskip.trans hstep).trans (effect_stall _ _).1.orderly⟩
  | idle forced g p ho hi hl ih =>
    obtain ⟨xs, hskip⟩ := exists_orderly_skipTrivia p
    obtain ⟨ys, ds, hstep⟩ := exists_orderly_of_takes (hs g p.skipTrivia.2)
    obtain ⟨zs, es, hforce⟩ := exists_orderly_force (step g p.skipTrivia.2).2
    obtain ⟨us, fs, hrest⟩ := ih
    rw [drive_of_idle hs.isForward ho hi hl]
    exact ⟨_, _, ((hskip.trans hstep).trans hforce).trans hrest⟩
  | busy forced g p ho hi ih =>
    obtain ⟨xs, hskip⟩ := exists_orderly_skipTrivia p
    obtain ⟨ys, ds, hstep⟩ := exists_orderly_of_takes (hs g p.skipTrivia.2)
    obtain ⟨us, fs, hrest⟩ := ih
    rw [drive_of_busy hs.isForward ho hi]
    exact ⟨_, _, (hskip.trans hstep).trans hrest⟩

omit [DecidableEq T] in
/-- Finishing reports nothing, but it may skip trivia before. -/
theorem exists_orderly_finish (p : Parser σ T δ) :
    ∃ q xs, Orderly p xs [] q ∧ p.finish.2.sink = q.sink := by
  rw [finish]
  split
  · exact ⟨p, _, (Effect.refl p).orderly, rfl⟩
  · split
    · exact ⟨p, _, (Effect.refl p).orderly, rfl⟩
    · obtain ⟨xs, hskip⟩ := exists_orderly_skipTrivia p
      exact ⟨_, xs, hskip, rfl⟩

/-- **What a driver reports is in order**, from its first step to the end of the parse. -/
theorem exists_orderly_parseWith (hs : OnlyTakes step) (h : p.outcome = none) (g : γ) :
    ∃ q xs ds, Orderly p xs ds q ∧ (p.parseWith step g).2.2.sink = q.sink := by
  obtain ⟨xs, ds, hdrive⟩ := exists_orderly_drive hs 0 g p
  obtain ⟨q, ys, hfinish, hsink⟩ := exists_orderly_finish (drive step 0 g p).2
  rw [parseWith_eq hs.isForward h]
  exact ⟨q, _, _, hdrive.trans hfinish, hsink⟩

end

end Parser

/-! ### The diagnostics of a unit -/

/-- A diagnostic is about a lexeme: it has its text and its span. -/
def Diagnostic.IsAbout {T : Type} (d : Diagnostic) (x : Lexeme T) : Prop :=
  d.kind ≠ .noMoreToken ∧ d.text = x.text ∧ x.span? = some d.span

/-- The report of a lexeme that goes forward is about it. -/
theorem Lexeme.Reports.isAbout {T : Type} {x : Lexeme T} {d : Diagnostic} (h : x.Reports d)
    (hx : ∀ a ∈ x.span?, a.start.notAfter a.stop = true) : d.IsAbout x := by
  cases h with
  | invalid i => exact ⟨by simp [Diagnostic.kind], rfl, rfl⟩
  | unexpected t =>
    refine ⟨by simp [Diagnostic.kind], rfl, ?_⟩
    rw [Diagnostic.span, Span.ordered, if_pos (hx t.span rfl), Lexeme.span?]

namespace Lexer

variable {T : Type} [Terminal T]

/-- A stream over a lexer has called it once for every lexeme, and once more to look ahead. -/
theorem source_of_yields {l : Lexer T} {s t : LexemeStream (Lexer T) T} {xs : List (Lexeme T)}
    (h : s.Yields xs t) {n : Nat} (hs : s.source = l.after n) :
    t.source = l.after (n + xs.length) := by
  induction h generalizing n with
  | nil => exact hs
  | @cons s t xs ho _ ih =>
    have hnext : s.next.2.source = l.after (n + 1) := by
      rw [LexemeStream.next, if_neg (by simp [ho])]
      exact congrArg (fun m ↦ m.next.2) hs
    rw [ih hnext, List.length_cons, Nat.add_assoc, Nat.add_comm 1]

/-- At its end a stream over a lexer has handed out all lexemes, and is where they lead to. -/
theorem Located.endLocation_of_yields {l : Lexer T} (h : l.Located [])
    (hl : Lexicon.KeepsBreaks l.lexicon.rules) {s : LexemeStream (Lexer T) T}
    {xs : List (Lexeme T)} (hs : (LexemeStream.ofSource l).Yields xs s) (hend : s.isAtEnd = true) :
    xs = l.lexemes ∧
      s.endLocation = (Location.start l.unit).advance (texts l.lexemes) := by
  have hxs : xs = l.lexemes := by
    have hrest := LexemeStream.rest_of_yields hs
    rw [LexemeStream.rest_of_isAtEnd hend, List.append_nil] at hrest
    rw [← rest_ofSource_fst, hrest]
  have hsource : s.source = l.after (l.lexemes.length + 1) := by
    rw [source_of_yields hs (n := 1) rfl, hxs, Nat.add_comm]
  obtain ⟨hout, -, -⟩ := handedOut_lexemes_add h.isFed 1
  refine ⟨hxs, ?_⟩
  show s.source.location = _
  rw [hsource, (h.isTiled hl).location, hout, texts_append]
  simp [texts, Lexeme.text]

omit [Terminal T] in
/-- What is about one of some lexemes. -/
theorem exists_of_isAbout {xs : List (Lexeme T)} {ds : List Diagnostic}
    (h : List.Forall₂ (fun x d ↦ d.IsAbout x) xs ds) : ∀ d ∈ ds, ∃ x ∈ xs, d.IsAbout x := by
  induction h with
  | nil => simp
  | @cons x d xs ds hd _ ih =>
    refine List.forall_mem_cons.2 ⟨⟨x, List.mem_cons_self, hd⟩, fun e he ↦ ?_⟩
    obtain ⟨y, hy, hey⟩ := ih e he
    exact ⟨y, List.mem_cons_of_mem x hy, hey⟩

omit [Terminal T] in
/-- What is about lexemes in the order of their locations is in that order. -/
theorem pairwise_of_isAbout {xs : List (Lexeme T)} {ds : List Diagnostic}
    (h : List.Forall₂ (fun x d ↦ d.IsAbout x) xs ds)
    (hxs : xs.Pairwise fun x y ↦ ∀ a ∈ x.span?, ∀ b ∈ y.span?, Span.Precedes a b) :
    ds.Pairwise fun d e ↦ d.span.Precedes e.span := by
  induction h with
  | nil => exact .nil
  | @cons x d xs ds hd hds ih =>
    obtain ⟨hx, hxs⟩ := List.pairwise_cons.1 hxs
    refine .cons (fun e he ↦ ?_) (ih hxs)
    obtain ⟨y, hy, hey⟩ := exists_of_isAbout hds e he
    exact hx y hy d.span hd.2.2 e.span hey.2.2

/-- Diagnostics in order that go forward stay so with complaints of an end behind all of them. -/
theorem pairwise_append_noMoreToken {ds : List Diagnostic} {stop : Location} (k : Nat)
    (hds : ds.Pairwise fun d e ↦ d.span.Precedes e.span)
    (hspans : ∀ d ∈ ds, d.span.start.notAfter d.span.stop = true ∧
      d.span.Precedes (.point stop)) :
    let all := ds ++ List.replicate k (Diagnostic.noMoreToken stop)
    (all.Pairwise fun d e ↦ d.span.Precedes e.span) ∧
      ∀ d ∈ all, d.span.start.notAfter d.span.stop = true := by
  have hrefl := Location.notAfter_refl stop
  refine ⟨List.pairwise_append.2 ⟨hds, List.pairwise_replicate.2 (.inr ⟨hrefl, hrefl⟩), ?_⟩, ?_⟩
  · intro d hd e he
    obtain rfl := List.eq_of_mem_replicate he
    exact (hspans d hd).2
  · intro d hd
    rcases List.mem_append.1 hd with hd | hd
    · exact (hspans d hd).1
    · obtain rfl := List.eq_of_mem_replicate hd
      exact hrefl

/-- Some diagnostics are in the order of a unit. -/
structure InOrder (l : Lexer T) (bytes : List UInt8) (ds : List Diagnostic) : Prop where
  /-- No diagnostic begins before one that was reported before it begins or ends. -/
  pairwise : ds.Pairwise fun d e ↦ d.span.Precedes e.span
  /-- A span does not end before it begins. -/
  forward : ∀ d ∈ ds, d.span.start.notAfter d.span.stop = true
  /-- They are about some lexemes of the unit, each about another one, and then about the end of the
  text. -/
  lexemes : ∃ ys es k, ys.Sublist l.lexemes ∧ List.Forall₂ (fun x d ↦ d.IsAbout x) ys es ∧
    ds = es ++ List.replicate k
      (.noMoreToken ((Location.start l.unit).advance (texts l.lexemes)))
  /-- If one is about the end of the text, then all of the text was read. -/
  ended : ∀ loc, .noMoreToken loc ∈ ds → Text.encode (texts l.lexemes) = bytes

/-- **What is reported in the order of a run is in the order of its unit.** -/
theorem Located.inOrder {l : Lexer T} {bytes : List UInt8} (h : l.Located [])
    (hl : Lexicon.KeepsBreaks l.lexicon.rules)
    (hread : (∀ x ∈ l.lexemes, x.isInvalid = false) → Text.encode (texts l.lexemes) = bytes)
    {δ : Type} [DiagnosticSink δ] {p q : Parser (Lexer T) T δ} {xs : List (Lexeme T)}
    {ds : List Diagnostic} (hp : p.tokens = LexemeStream.ofSource l)
    (ho : Parser.Orderly p xs ds q) : l.InOrder bytes ds := by
  have htiled := h.isTiled hl
  obtain ⟨ys, es, k, hys, hes, rfl, hk⟩ := ho.reports
  have hyields : (LexemeStream.ofSource l).Yields xs q.tokens := hp ▸ ho.tokens
  have hxs : xs.Sublist l.lexemes := by
    rw [← rest_ofSource_fst, LexemeStream.rest_of_yields hyields]
    exact List.sublist_append_left _ _
  have hys := hys.trans hxs
  let stop := (Location.start l.unit).advance (texts l.lexemes)
  -- The end is complained of where it is.
  have hend : 0 < k → xs = l.lexemes ∧ q.endLocation = stop := fun hpos ↦
    h.endLocation_of_yields hl hyields (hk hpos).2.1
  have hreplicate : List.replicate k (Diagnostic.noMoreToken q.endLocation) =
      List.replicate k (.noMoreToken stop) := by
    rcases Nat.eq_zero_or_pos k with rfl | hpos
    · rfl
    · rw [(hend hpos).2]
  have hforward : ∀ x ∈ ys, ∀ a ∈ x.span?, a.start.notAfter a.stop = true ∧
      a.start.notAfter stop = true ∧ a.stop.notAfter stop = true := by
    intro x hx a ha
    obtain ⟨b, hb, hspan⟩ := htiled.span_of_mem (hys.subset hx)
    obtain rfl := Option.some.inj (hb.symm.trans ha)
    exact hspan
  have habout : List.Forall₂ (fun x d ↦ d.IsAbout x) ys es :=
    ((List.forall₂_and_left ys es).2 ⟨hforward, hes⟩).imp fun x d hd ↦
      hd.2.isAbout fun a ha ↦ (hd.1 a ha).1
  have hspans : ∀ d ∈ es, d.kind ≠ .noMoreToken ∧ d.span.start.notAfter d.span.stop = true ∧
      d.span.Precedes (.point stop) := by
    intro d hd
    obtain ⟨x, hx, hkind, -, hspan⟩ := exists_of_isAbout habout d hd
    exact ⟨hkind, hforward x hx d.span hspan⟩
  rw [hreplicate]
  obtain ⟨hpairwise, hall⟩ := pairwise_append_noMoreToken k
    (pairwise_of_isAbout habout (htiled.pairwise_lexemes.sublist hys)) fun d hd ↦ (hspans d hd).2
  refine ⟨hpairwise, hall, ⟨ys, es, k, hys, habout, rfl⟩, fun loc hloc ↦ ?_⟩
  rcases List.mem_append.1 hloc with hloc | hloc
  · exact absurd rfl (hspans _ hloc).1
  · have hpos : 0 < k := Nat.pos_of_ne_zero fun h0 ↦ by simp [h0] at hloc
    exact hread fun x hx ↦ (hk hpos).2.2 x ((hend hpos).1 ▸ hx)

/-- What a driver that only takes lexemes reports is in order, over a lexicon that keeps line breaks
whole. -/
theorem inOrder_parseWith [DecidableEq T] {lexicon : Lexicon T}
    (hl : Lexicon.KeepsBreaks lexicon.rules) (preferences : LexicalPreferences) (unit : String)
    (feed : Feed) (unitLimit lineLimit maxLength maxCount skipLimit : Nat) (logExpectations : Bool)
    {δ γ : Type} [DiagnosticSink δ] (sink : δ) (g : γ)
    {step : γ → Parser (Lexer T) T (δ × Recorder) → γ × Parser (Lexer T) T (δ × Recorder)}
    (hs : Parser.OnlyTakes step) :
    let l := (ofDecoder lexicon preferences unit { feed, limit := unitLimit } lineLimit).withLimits
      maxLength maxCount
    let p := { Parser.ofSource l (sink, ({} : Recorder)) with skipLimit, logExpectations }
    l.InOrder feed.bytes (p.parseWith step g).2.2.sink.2.diagnostics := by
  intro l p
  obtain ⟨q, xs, ds, ho, hsink⟩ := Parser.exists_orderly_parseWith hs (p := p) rfl g
  have hds : (p.parseWith step g).2.2.sink.2.diagnostics = ds := by
    rw [hsink, ho.toEffect.recorded]
    rfl
  have hlocated : l.Located [] :=
    located_ofDecoder lexicon preferences unit { feed, limit := unitLimit } lineLimit maxLength
      maxCount
  rw [hds]
  exact hlocated.inOrder hl (encode_texts_of_valid lexicon preferences unit feed unitLimit lineLimit
    maxLength maxCount) rfl ho

/-- **Diagnostics come out in the order of the source.** Over every source and with any limits, in
both languages, and whatever a driver does that only takes lexemes or looks at them: what the sink
receives is about some lexemes of the unit in their order, each about another one, with their texts
and spans, and after them about the end of the text, if that was reached. -/
theorem diagnostics_in_order (preferences : LexicalPreferences) (unit : String) (feed : Feed)
    (unitLimit lineLimit maxLength maxCount skipLimit : Nat) (logExpectations : Bool) {δ γ : Type}
    [DiagnosticSink δ] (sink : δ) (g : γ) :
    let decoder : Decoder := { feed, limit := unitLimit }
    let cmake := (ofDecoder CMake.lexicon preferences unit decoder lineLimit).withLimits
      maxLength maxCount
    let cpp := (ofDecoder Cpp.lexicon preferences unit decoder lineLimit).withLimits
      maxLength maxCount
    (∀ step : γ → Parser (Lexer CMake.Kind) CMake.Kind (δ × Recorder) →
        γ × Parser (Lexer CMake.Kind) CMake.Kind (δ × Recorder), Parser.OnlyTakes step →
      let p := { Parser.ofSource cmake (sink, ({} : Recorder)) with skipLimit, logExpectations }
      cmake.InOrder feed.bytes (p.parseWith step g).2.2.sink.2.diagnostics) ∧
    (∀ step : γ → Parser (Lexer Cpp.Kind) Cpp.Kind (δ × Recorder) →
        γ × Parser (Lexer Cpp.Kind) Cpp.Kind (δ × Recorder), Parser.OnlyTakes step →
      let p := { Parser.ofSource cpp (sink, ({} : Recorder)) with skipLimit, logExpectations }
      cpp.InOrder feed.bytes (p.parseWith step g).2.2.sink.2.diagnostics) := by
  intro decoder cmake cpp
  exact ⟨fun _ hs ↦ inOrder_parseWith CMake.keepsBreaks preferences unit feed unitLimit lineLimit
      maxLength maxCount skipLimit logExpectations sink g hs,
    fun _ hs ↦ inOrder_parseWith Cpp.keepsBreaks preferences unit feed unitLimit lineLimit
      maxLength maxCount skipLimit logExpectations sink g hs⟩

/-- A driver that wants a keyword and a name, and finds a name only. -/
theorem diagnostics_in_order_name :
    let decoder : Decoder := { feed := .ofBytes (Text.encode ['x']) }
    let l := (ofDecoder CMake.lexicon {} "u" decoder).withLimits
      Limits.tokenLength Limits.tokenCount
    let step (_ : Unit) (p : Parser (Lexer CMake.Kind) CMake.Kind (Unit × Recorder)) :
        Unit × Parser (Lexer CMake.Kind) CMake.Kind (Unit × Recorder) :=
      ((), ((p.expect .keyword).2.expect .identifier).2)
    let p := { Parser.ofSource l ((), ({} : Recorder)) with
      skipLimit := 3, logExpectations := false }
    let ds := (p.parseWith step ()).2.2.sink.2.diagnostics
    Parser.OnlyTakes step ∧ l.InOrder decoder.feed.bytes ds ∧
      ds = [.unexpectedToken ['x'] ⟨⟨"u", 1, 1⟩, ⟨"u", 1, 2⟩⟩, .noMoreToken ⟨"u", 1, 2⟩] := by
  intro decoder l step p ds
  have hs : Parser.OnlyTakes step := by
    intro g q
    have hkeyword : Parser.Takes q (q.expect CMake.Kind.keyword).2 := .expect _
    have hname : Parser.Takes (q.expect CMake.Kind.keyword).2 (step g q).2 := .expect _
    exact .tail (.single hkeyword) hname
  refine ⟨hs, ?_, by decide +kernel⟩
  exact (diagnostics_in_order {} "u" decoder.feed Limits.unitSize Limits.lineLength
    Limits.tokenLength Limits.tokenCount 3 false () ()).1 step hs

end Lexer

end LexFront
