import LexFront.Proofs.Lexer.Run

/-!
# Nothing of the input is lost

The texts of the lexemes, put together again, are the characters that the splitter took off its
decoder. No property of the rules is used: a rule may ask for more without end, or answer with a
length that does not fit, and still every character comes out exactly once.

What carries the proof is one invariant. The text of a lexeme and what is still to be handed out
after it is what was to be handed out before it (`text_next_append_pending`). Only the limit on the
number of lexemes can leave some of it behind.

Key facts:

* `texts_prefix_pending`: a run never hands out anything else than what was pending.
* `texts_eq_pending`: it hands out all of it, unless it reaches the limit on lexemes.
* `texts_of_run`: for a whole unit this is the text that was taken, and the bytes of its feed.
-/

set_option autoImplicit false

namespace LexFront

namespace Lexer

variable {T : Type}

/-- Some lexeme says that there are as many lexemes as there may be. -/
def Halts (xs : List (Lexeme T)) : Prop := ∃ x ∈ xs, ∃ n, x.error? = some (.tooManyTokens n)

/-- The characters of some lexemes. -/
def texts (xs : List (Lexeme T)) : Text := xs.flatMap Lexeme.text

@[simp] theorem texts_nil : texts ([] : List (Lexeme T)) = [] := rfl

@[simp] theorem texts_cons (x : Lexeme T) (xs : List (Lexeme T)) :
    texts (x :: xs) = x.text ++ texts xs := rfl

@[simp] theorem texts_append (xs ys : List (Lexeme T)) :
    texts (xs ++ ys) = texts xs ++ texts ys := List.flatMap_append

variable [Terminal T]

/-! ### One call -/

theorem Classifies.conserves {l : Lexer T} {p : Lexeme T × Lexer T} (h : Classifies l p)
    (hl : l.IsFed) (hw : l.window ≠ []) :
    p.1.text ++ p.2.pending = l.pending ∧ p.2.IsFed ∧ p.2.finished = l.finished := by
  obtain ⟨l', hpulls, hcuts, -, -⟩ := h.exists_cut hl hw
  have hframe := hpulls.frame
  refine ⟨hcuts.pending.trans hframe.1, hcuts.isFed (hpulls.isFed hl hw).1, ?_⟩
  rw [hcuts.finished]
  exact hframe.2.2.2.2.2.2.1

/-- **A call loses nothing**: what it hands out was at the front of what was pending. -/
theorem text_next_append_pending {l : Lexer T} (hl : l.IsFed) :
    l.next.1.text ++ l.next.2.pending = l.pending ∧ l.next.2.IsFed := by
  have hsteps := steps_next hl
  generalize l.next = p at hsteps ⊢
  cases hsteps with
  | finished _ => exact ⟨rfl, hl⟩
  | halted _ _ => exact ⟨rfl, hl⟩
  | fault _ _ _ _ => exact ⟨rfl, hl⟩
  | exhausted _ _ _ _ => exact ⟨rfl, hl⟩
  | filled _ hw hc =>
    obtain ⟨hpending, hfed, -⟩ := hc.conserves hl hw
    exact ⟨hpending, hfed⟩
  | empty _ hw hpull hc =>
    obtain ⟨hl', hw'⟩ := hl.pull hpull
    obtain ⟨hpending, hfed, -⟩ := hc.conserves hl' hw'
    exact ⟨hpending.trans (pending_of_pull hpull), hfed⟩

omit [Terminal T] in
theorem ne_endOfInput_of_text {x : Lexeme T} (h : x.text ≠ []) : x ≠ .endOfInput := by
  rintro rfl
  exact h rfl

/-- What a call does before the end: nothing is left and nothing failed, or the failure is handed
out, or a lexeme is, after which the lexer goes on unless it may not. -/
theorem IsLive.next {l : Lexer T} (live : l.IsLive) (hl : l.IsFed) :
    (l.next.1 = .endOfInput ∧ l.pending = [] ∧ l.lines.ending = none) ∨
    (∃ e, l.next.1.error? = some (.split e)) ∧ l.next.2.IsLive ∨
    l.next.1 ≠ .endOfInput ∧ l.next.2.lines.ending = l.lines.ending ∧
      (l.next.2.IsLive ∨ ∃ n, l.next.1.error? = some (.tooManyTokens n)) := by
  by_cases hp : l.pending = []
  · obtain ⟨hw, hlines⟩ := hl.lines_eq_nil hp
    have hsteps := steps_next hl
    generalize l.next = p at hsteps ⊢
    cases hsteps with
    | finished hf => rw [live.finished] at hf; cases hf
    | halted _ hh => rw [live.halted] at hh; cases hh
    | @fault e _ _ _ _ => exact .inr (.inl ⟨⟨e, rfl⟩, ⟨live.finished, live.halted⟩⟩)
    | exhausted _ _ _ he => exact .inl ⟨rfl, hp, he⟩
    | filled _ hne _ => exact absurd hw hne
    | empty _ _ hpull _ => rw [pull_eq_none_iff.2 hlines] at hpull; cases hpull
  · obtain ⟨l', hpulls, hcuts, -, hhalted⟩ := exists_cut_of_next hl live hp
    obtain ⟨-, -, -, -, -, -, hfinished, -, hending⟩ := hpulls.frame
    refine .inr (.inr ⟨ne_endOfInput_of_text hcuts.text_ne_nil, ?_, ?_⟩)
    · rw [hcuts.lines, hending]
    · rcases hhalted with hh | hh
      · refine .inl ⟨?_, hh.trans live.halted⟩
        rw [hcuts.finished, hfinished, live.finished]
      · exact .inr ⟨_, hh⟩

/-! ### A whole run -/

/-- **A run hands out nothing but what was pending**, from the front on. -/
theorem texts_prefix_pending {l : Lexer T} (hl : l.IsFed) : texts l.lexemes <+: l.pending := by
  fun_induction lexemes l with
  | case1 l _ => exact List.nil_prefix
  | case2 l _ ih =>
    obtain ⟨hpending, hfed⟩ := text_next_append_pending hl
    rw [texts_cons, ← hpending]
    exact List.prefix_append_right_inj _ |>.2 (ih hfed)

/-- **A run hands out all that was pending**, unless it reaches the limit on lexemes. -/
theorem texts_eq_pending {l : Lexer T} (hl : l.IsFed) (live : l.IsLive)
    (hx : ¬ Halts l.lexemes) : texts l.lexemes = l.pending := by
  fun_induction lexemes l with
  | case1 l hend =>
    rcases live.next hl with ⟨-, hp, -⟩ | ⟨⟨e, he⟩, -⟩ | ⟨hne, -⟩
    · exact hp.symm
    · cases hx : l.next.1 <;> simp_all [Lexeme.isEnd, Lexeme.error?]
    · cases hx : l.next.1 <;> simp_all [Lexeme.isEnd]
  | case2 l hend ih =>
    obtain ⟨hpending, hfed⟩ := text_next_append_pending hl
    have hrest : ¬ Halts l.next.2.lexemes := by
      rintro ⟨x, hm, hn⟩
      exact hx ⟨x, List.mem_cons_of_mem _ hm, hn⟩
    rcases live.next hl with ⟨he, -⟩ | ⟨-, live'⟩ | ⟨-, -, live' | hn⟩
    · rw [he] at hend
      exact absurd rfl hend
    · rw [texts_cons, ih hfed live' hrest, hpending]
    · rw [texts_cons, ih hfed live' hrest, hpending]
    · exact absurd ⟨_, List.mem_cons_self, hn⟩ hx

omit [Terminal T] in
/-- A lexer over a unit starts with the lines of its splitter, and nothing was handed out. -/
theorem ofDecoder_spec (lexicon : Lexicon T) (preferences : LexicalPreferences) (unit : String)
    (decoder : Decoder) (lineLimit maxLength maxCount : Nat) :
    let splitter : Splitter := { unit, decoder, limit := lineLimit }
    let l := (ofDecoder lexicon preferences unit decoder lineLimit).withLimits maxLength maxCount
    l.pending = splitter.rest.1.flatMap Line.raw ∧ l.IsFed ∧ l.IsLive := by
  intro splitter l
  have hlines : l.lines.lines = splitter.rest.1 := LineStream.lines_ofSplitter _ splitter
  have hunit : l.unit = unit := LineStream.unit_ofSplitter _ splitter
  refine ⟨?_, ⟨1, ?_⟩, ⟨rfl, rfl⟩⟩
  · rw [pending, LineStream.pending, hlines]
    rfl
  · rw [hlines, hunit]
    exact splitter.consecutive_rest

/-- **Nothing of a unit is lost.** The lexemes are, put together, what the splitter took off its
decoder, a prefix of it if the limit on lexemes was reached. What the splitter took is the whole
input, unless the source failed, when it is all that was read up to there, or a line was too long,
when it goes up to the character that was too much. -/
theorem texts_of_run (lexicon : Lexicon T) (preferences : LexicalPreferences) (unit : String)
    (feed : Feed) (unitLimit lineLimit maxLength maxCount : Nat) :
    let decoder : Decoder := { feed, limit := unitLimit }
    let splitter : Splitter := { unit, decoder, limit := lineLimit }
    let taken := splitter.rest.1.flatMap Line.raw
    let fault := splitter.rest.2.fault
    let run := ((ofDecoder lexicon preferences unit decoder lineLimit).withLimits
      maxLength maxCount).lexemes
    texts run <+: taken ∧ (¬ Halts run → texts run = taken) ∧
      decoder.text = taken ++ splitter.rest.2.decoder.text ∧
      Text.encode decoder.text <+: feed.bytes ∧
      (fault = none → Text.encode taken = feed.bytes) ∧
      (∀ e, fault = some (.source e) → taken = decoder.text ∧ decoder.ending = some e) ∧
      (∀ n limit, fault = some (.lineTooLong n limit) → ∃ (front text : Text) (c : Char),
        taken = front ++ text ++ [c] ∧ (∀ b, front.getLast? = some b → Text.isLineBreak b) ∧
          Text.IsUnbroken (text ++ [c]) ∧ Text.size text ≤ lineLimit ∧
          lineLimit < Text.size (text ++ [c])) := by
  intro decoder splitter taken fault run
  obtain ⟨hpending, hfed, live⟩ :=
    ofDecoder_spec lexicon preferences unit decoder lineLimit maxLength maxCount
  obtain ⟨unread, hbytes, hunread⟩ := Decoder.bytes_eq_encode_text (d := decoder) ⟨rfl, rfl⟩
  have hstops : splitter.Stops splitter.rest.1 fault := splitter.stops_rest rfl
  have hfront : texts run <+: taken := by
    have h := texts_prefix_pending hfed
    rw [hpending] at h
    exact h
  have hall : ¬ Halts run → texts run = taken := fun hx ↦
    (texts_eq_pending hfed live hx).trans hpending
  refine ⟨hfront, hall, splitter.text_eq_rest rfl, ⟨unread, hbytes.symm⟩, ?_, ?_, ?_⟩
  · intro hfault
    cases hstops with
    | read htext hending =>
      have hnone : decoder.ending = none := Option.map_eq_none_iff.1 (hending.symm.trans hfault)
      have hall : feed.bytes = Text.encode decoder.text ++ unread := hbytes
      rw [hall, hunread hnone, List.append_nil]
      exact congrArg Text.encode htext
    | overlong n h => rw [hfault] at h; cases h
  · intro e hfault
    cases hstops with
    | read htext hending =>
      obtain ⟨e', he', hsome⟩ := Option.map_eq_some_iff.1 (hending.symm.trans hfault)
      rw [SplitError.source.injEq] at hsome
      exact ⟨htext, hsome ▸ he'⟩
    | overlong n h => rw [hfault] at h; cases h
  · intro n limit hfault
    cases hstops with
    | read _ hending =>
      obtain ⟨e, -, hsome⟩ := Option.map_eq_some_iff.1 (hending.symm.trans hfault)
      cases hsome
    | @overlong front text c _ _ htext hfront hu hf hs =>
      exact ⟨front, text, c, htext, hfront, hu, hf, hs⟩

end Lexer

end LexFront
