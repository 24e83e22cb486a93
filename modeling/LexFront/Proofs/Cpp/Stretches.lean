import LexFront.Proofs.Cpp.Answering
import LexFront.Proofs.Cpp.OpenConstructs
import LexFront.Proofs.Lexer.Windows

/-!
# Unrecognized stretches

The lexer hands out a stretch of characters that no rule accounts for as one lexeme. The stretch
ends where some rule answers in the window at hand, and that is decided before the next line is
seen. What answers there may turn out to be nothing once it is: a quote for whose literal more is
asked for, and whose line goes on, over a splice, and ends. Then a second stretch begins at the
quote.

Key facts:

* `quote_of_noMatch`: where some rule answers in a window, some rule does in a longer one, unless
  there is a quote.
* `unrecognized_twice_iff`: a stretch comes right behind another one exactly at a quote that is not
  closed within its line.
-/

set_option autoImplicit false

namespace LexFront.Cpp

open Lexer (texts)

/-- **Where some rule answers in a window**, some rule does in a longer one, unless there is a
quote. -/
theorem quote_of_noMatch {c : Char} {t u : Text} (hjoint : Joint (c :: t) u)
    (h : Lexicon.longestMatch lexicon.rules (c :: t) ≠ .noMatch)
    (hlonger : Lexicon.longestMatch lexicon.rules (c :: (t ++ u)) = .noMatch) :
    c = '\'' ∨ c = '"' := by
  obtain ⟨hgap, hsplice, hanswers⟩ := longestMatch_eq_noMatch_iff.1 hlonger
  have hkept : beginsWithSplice (c :: t) = false := by
    by_contra hkept
    have hmore := beginsWithSplice_append (by simpa using hkept) u
    rw [List.cons_append, hsplice] at hmore
    cases hmore
  have hshort : Answers (unsplice (c :: t)) := by
    by_contra hnone
    exact h (longestMatch_eq_noMatch_iff.2 ⟨hgap, hkept, hnone⟩)
  rw [← List.cons_append, unsplice_append hjoint] at hanswers
  obtain ⟨quote, r, hq, hquote, -⟩ := (hshort.append _).resolve_left hanswers
  rw [unsplice, pieces_of_not_beginsWithSplice hkept, keptText_cons_kept] at hquote
  rwa [(List.cons.inj hquote).1]

/-- At a quote whose line ends first, a window in which nobody asks for more shows that. -/
theorem longestMatch_of_isBrokenOff {quote : Char} (hq : quote = '\'' ∨ quote = '"') {w v : Text}
    (hwindow : Lexicon.IsWindow (quote :: w) v) (h : IsBrokenOff quote (unsplice (w ++ v)))
    (hneed : ∀ k, Lexicon.longestMatch lexicon.rules (quote :: w) ≠ .needMore k) :
    Lexicon.longestMatch lexicon.rules (quote :: w) = .noMatch := by
  have hslash : quote ≠ '\\' := by rcases hq with rfl | rfl <;> decide
  have hjoint : Joint w v := (joint_of_isWindow hwindow).suffix (r := [quote])
  have hsettled : Scan.throughQuote quote false (unsplice w) ≠ .needMore := by
    intro hopen
    obtain ⟨k, hk⟩ := asksForMore_iff.2 (.inl (.quoted hq (.inl rfl) (unsplice_cons hslash w)
      (isOpen_iff.2 hopen)))
    exact hneed k hk
  rw [unsplice_append hjoint, isBrokenOff_iff, Scan.throughQuote_append hsettled] at h
  exact (longestMatch_quote_iff hq).2 (isBrokenOff_iff.2 h)

/-- What comes behind a stretch, for a lexer at its start. -/
theorem unrecognized_next_iff {l : Lexer Kind} (hl : l.lexicon = lexicon) (h : l.IsUndisturbed)
    {i : InvalidToken} {x : Lexeme Kind} {back : List (Lexeme Kind)}
    (hxs : l.lexemes = .invalid i :: x :: back) (hi : i.error = .unrecognizedInput) :
    x.error? = some .unrecognizedInput ↔
      ∃ quote rest, (quote = '\'' ∨ quote = '"') ∧ texts (x :: back) = quote :: rest ∧
        IsBrokenOff quote (unsplice rest) := by
  obtain ⟨w, u, v, htexts, hends⟩ := h.exists_endsStretch (hl ▸ keepsBreaks) hxs hi
  obtain ⟨c, t, rfl⟩ := List.exists_cons_of_ne_nil hends.ne_nil
  rw [hl] at hends
  rw [htexts, hends.unrecognized]
  constructor
  · intro hm
    have hq := quote_of_noMatch (joint_of_isWindow hends.window).prefix_right hends.answers hm
    have hjoint : Joint (t ++ u) v := (joint_of_isWindow hends.grown).suffix (r := [c])
    refine ⟨c, t ++ u ++ v, hq, rfl, ?_⟩
    rw [unsplice_append hjoint]
    exact ((longestMatch_quote_iff hq).1 hm).append _
  · rintro ⟨quote, rest, hq, hrest, hbroken⟩
    rw [List.cons_append, List.cons_append, List.cons.injEq] at hrest
    obtain ⟨rfl, rfl⟩ := hrest
    -- If more were asked for until nothing is left, the line would have been seen to end.
    have hreads := hends.reads
    by_contra hm
    refine hm (longestMatch_of_isBrokenOff hq hends.grown hbroken fun k hk ↦ ?_)
    cases hreads with
    | gap hnone _ _ => exact hm hnone
    | token hmatch _ _ _ => cases hmatch.symm.trans hk
    | unterminated _ hv _ =>
      rw [hv, List.append_nil] at hbroken
      exact hm ((longestMatch_quote_iff hq).2 hbroken)

/-- **When two stretches come one right behind the other.** Behind a stretch that no rule accounts
for comes another one exactly if a quote stands there that is not closed before its line ends. -/
theorem unrecognized_twice_iff (preferences : LexicalPreferences) (unit : String) (feed : Feed)
    (unitLimit lineLimit maxLength maxCount : Nat) :
    let run := ((Lexer.ofDecoder lexicon preferences unit { feed, limit := unitLimit }
      lineLimit).withLimits maxLength maxCount).lexemes
    (∀ x ∈ run, x.isOfInput = true) → ∀ front i x back, run = front ++ .invalid i :: x :: back →
      i.error = .unrecognizedInput → (x.error? = some .unrecognizedInput ↔
        ∃ quote rest, (quote = '\'' ∨ quote = '"') ∧ texts (x :: back) = quote :: rest ∧
          IsBrokenOff quote (unsplice rest)) := by
  intro run hxs front i x back hrun hi
  have h := Lexer.isUndisturbed_ofDecoder lexicon preferences unit { feed, limit := unitLimit }
    lineLimit maxLength maxCount hxs
  obtain ⟨hafter, hlexemes⟩ := h.after hrun
  exact unrecognized_next_iff (Lexer.lexicon_after h.fed front.length) hafter hlexemes hi

/-- A quote that is closed in the next line ends a stretch. -/
theorem unrecognized_once :
    let t : Text := ['`', '\'', '\\', '\n', 'x', '\'']
    let run := (Lexer.ofDecoder lexicon {} "u" { feed := .ofBytes (Text.encode t) }).lexemes
    ∃ i x, run = [.invalid i, x] ∧ i.error = .unrecognizedInput ∧ i.text = ['`'] ∧
      x.error? ≠ some .unrecognizedInput := by
  intro t run
  let i : InvalidToken := ⟨['`'], ⟨⟨"u", 1, 1⟩, ⟨"u", 1, 2⟩⟩, .unrecognizedInput⟩
  let x : Token Kind :=
    ⟨.characterLiteral, ['\'', '\\', '\n', 'x', '\''], ['x'], ⟨⟨"u", 1, 2⟩, ⟨"u", 2, 3⟩⟩⟩
  have hrun : run = [] ++ .invalid i :: .valid x :: [] := by decide +kernel
  have hinput : ∀ y ∈ run, y.isOfInput = true := by
    rw [hrun]
    decide
  have hiff := unrecognized_twice_iff {} "u" (.ofBytes (Text.encode t)) _ _ _ _ hinput _ i
    (.valid x) _ hrun rfl
  refine ⟨i, .valid x, hrun, rfl, rfl, fun hx ↦ ?_⟩
  obtain ⟨quote, rest, -, htexts, hbroken⟩ := hiff.1 hx
  obtain ⟨rfl, rfl⟩ := List.cons.inj htexts
  exact absurd (isBrokenOff_iff.1 hbroken) (by decide)

/-- **A quote whose line ends behind a splice** is torn off the stretch in front of it. -/
theorem unrecognized_twice :
    let t : Text := ['`', '\'', '\\', '\n', 'x', '\n']
    let run := (Lexer.ofDecoder lexicon {} "u" { feed := .ofBytes (Text.encode t) }).lexemes
    (∀ x ∈ run, x.isOfInput = true) ∧ ∃ i j back, run = .invalid i :: .invalid j :: back ∧
      i.error = .unrecognizedInput ∧ j.error = .unrecognizedInput ∧ i.text = ['`'] ∧
      j.text = ['\''] := by
  intro t run
  let i : InvalidToken := ⟨['`'], ⟨⟨"u", 1, 1⟩, ⟨"u", 1, 2⟩⟩, .unrecognizedInput⟩
  let j : InvalidToken := ⟨['\''], ⟨⟨"u", 1, 2⟩, ⟨"u", 1, 3⟩⟩, .unrecognizedInput⟩
  refine ⟨by decide +kernel, i, j, run.drop 2, by decide +kernel, rfl, rfl, rfl, rfl⟩

end LexFront.Cpp
