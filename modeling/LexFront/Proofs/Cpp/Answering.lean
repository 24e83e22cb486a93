import LexFront.Proofs.Cpp.Quotes
import LexFront.Proofs.Cpp.SplicedWindows

/-!
# Where a plain rule answers

The first character of a token settles for most rules that something will be found there: what a
longer text shows can make the token longer, or show that it does not end, but not undo it. The one
exception is a quote without an encoding. While its literal is open a rule asks for more, and it has
nothing to say any more as soon as the line turns out to end first.

Key facts:

* `Answers.append`: what answers goes on to answer, but for an open quote.
* `longestMatch_of_not_answers`: where no plain rule answers only the first two rules are left.
* `longestMatch_eq_noMatch_iff`: where the rules find nothing.
* `longestMatch_quote_iff`: at a quote they find nothing exactly if its line ends first.
-/

set_option autoImplicit false

namespace LexFront.Cpp

/-- Some plain rule answers at the start of some characters: it matches, or asks for more. -/
def Answers (k : Text) : Prop := ∃ p ∈ plainRules, p.scan k ≠ .noMatch

instance (k : Text) : Decidable (Answers k) :=
  inferInstanceAs (Decidable (∃ p ∈ plainRules, p.scan k ≠ .noMatch))

theorem not_answers_nil : ¬ Answers [] := by
  rintro ⟨p, hp, h⟩
  exact h (plain_of_mem hp).nil

/-- The first character of a word, a numeral or a punctuator. -/
def startsToken (c : Char) : Bool :=
  Text.isIdentifierStart c || Numeral.isStart c || operatorStarts.contains c

/-- Each punctuator begins with one of a single character. -/
theorem answers_of_operatorStarts {c : Char} (hc : operatorStarts.contains c = true) (k : Text) :
    Answers (c :: k) := by
  have hall : ∀ op ∈ operatorStarts.map ([·]), op ∈ operators.map String.toList := by decide
  obtain ⟨n, hscan, hle, -⟩ := scanOperator_spec (c :: k)
  have hstart : c ∈ operatorStarts := by simpa using hc
  have hn := hle [c] (hall [c] (List.mem_map_of_mem hstart)) ⟨k, rfl⟩
  have hpos : 0 < Text.size [c] := Text.size_pos (by simp)
  refine ⟨_, operator_mem_plainRules, ?_⟩
  simp only [hscan, Scan.ofSize]
  rw [if_neg (by omega)]
  simp

theorem answers_of_isIdentifierStart {c : Char} (hc : Text.isIdentifierStart c = true) (k : Text) :
    Answers (c :: k) := by
  have hpart : Text.isIdentifierPart c = true := by
    simp only [Text.isIdentifierStart, Text.isIdentifierPart, Char.isAlphanum,
      Bool.or_eq_true] at hc ⊢
    exact hc.imp id .inl
  refine ⟨_, identifier_mem_plainRules, ?_⟩
  simp only [scanIdentifier, Text.identifier, if_pos hc, List.takeWhile_cons, if_pos hpart,
    Scan.ofText, Scan.ofSize]
  rw [if_neg (Nat.ne_of_gt (Text.size_pos (List.cons_ne_nil c _)))]
  simp

/-- **The first character of a token settles** that a rule answers. -/
theorem answers_of_startsToken {c : Char} (hc : startsToken c = true) (k : Text) :
    Answers (c :: k) := by
  simp only [startsToken, Bool.or_eq_true] at hc
  rcases hc with (hc | hc) | hc
  · exact answers_of_isIdentifierStart hc k
  · rw [Numeral.isStart, Bool.or_eq_true, beq_iff_eq] at hc
    rcases hc with hc | rfl
    · have hstarts : Numeral.starts (c :: k) = true := by
        rw [Numeral.starts]
        · exact hc
        · rintro _ _ rfl -
          cases hc
      obtain ⟨p, hp, hscan⟩ := exists_numeral_of_starts hstarts
      exact ⟨p, hp, by simp [hscan]⟩
    · exact answers_of_operatorStarts (by decide) k
  · exact answers_of_operatorStarts hc k

/-- What answers begins like a token, or with a quote. -/
theorem Answers.cases {c : Char} {k : Text} (h : Answers (c :: k)) : startsToken c = true ∨
    (c = '\'' ∨ c = '"') ∧ scanQuoted c (c :: k) ≠ .noMatch := by
  obtain ⟨p, hp, h⟩ := h
  have hstart : p.starts c = true := by
    by_contra hs
    exact h ((plain_of_mem hp).cons c k (by simpa using hs))
  -- An encoding is a word.
  have hquoted : ∀ quote, startsQuoted quote c = true → c = quote ∨ startsToken c = true := by
    intro quote hs
    simp only [startsQuoted, Bool.or_eq_true, beq_iff_eq] at hs
    rcases hs with ((rfl | rfl) | rfl) | rfl
    · exact .inl rfl
    all_goals exact .inr (by decide)
  simp only [plainRules, List.mem_cons, List.not_mem_nil, or_false] at hp
  rcases hp with rfl | rfl | rfl | rfl | rfl | rfl | rfl | rfl | rfl
  · obtain rfl : c = '/' := by simpa using hstart
    exact .inl (by decide)
  · obtain rfl : c = '/' := by simpa using hstart
    exact .inl (by decide)
  · exact .inl (by simp [startsToken, show Text.isIdentifierStart c = true from hstart])
  · exact .inl (by simp [startsToken, show Text.isIdentifierStart c = true from hstart])
  · exact .inl (by simp [startsToken, show Numeral.isStart c = true from hstart])
  · exact .inl (by simp [startsToken, show Numeral.isStart c = true from hstart])
  · rcases hquoted '\'' hstart with rfl | hc
    · exact .inr ⟨.inl rfl, h⟩
    · exact .inl hc
  · rcases hquoted '"' hstart with rfl | hc
    · exact .inr ⟨.inr rfl, h⟩
    · exact .inl hc
  · have hoperator : operatorStarts.contains c = true := hstart
    exact .inl (by rw [startsToken, hoperator, Bool.or_true])

/-- At a quote nothing answers if the line ends before it is closed. -/
theorem answers_quote_iff {quote : Char} (hq : quote = '\'' ∨ quote = '"') {k : Text} :
    Answers (quote :: k) ↔ ¬ IsBrokenOff quote k := by
  have hscan : scanQuoted quote (quote :: k) = .noMatch ↔ IsBrokenOff quote k := by
    rw [scanQuoted_quote hq, after_eq_noMatch_iff, isBrokenOff_iff]
  constructor
  · intro h
    rcases h.cases with hstart | ⟨-, h⟩
    · rcases hq with rfl | rfl <;> cases hstart
    · exact fun hbroken ↦ h (hscan.2 hbroken)
  · intro h
    rcases hq with rfl | rfl
    · exact ⟨⟨.characterLiteral, false, startsQuoted '\'', scanQuoted '\''⟩, by simp [plainRules],
        fun hnone ↦ h (hscan.1 hnone)⟩
    · exact ⟨⟨.stringLiteral, false, startsQuoted '"', scanQuoted '"'⟩, by simp [plainRules],
        fun hnone ↦ h (hscan.1 hnone)⟩

/-- **What answers goes on to answer** when more characters follow, unless it is a quote that is
open. -/
theorem Answers.append {k : Text} (h : Answers k) (v : Text) : Answers (k ++ v) ∨
    ∃ quote r, (quote = '\'' ∨ quote = '"') ∧ k = quote :: r ∧ IsOpen quote r := by
  cases k with
  | nil => exact absurd h not_answers_nil
  | cons c k =>
    rcases h.cases with hc | ⟨hc, -⟩
    · exact .inl (answers_of_startsToken hc _)
    · by_cases hopen : Scan.throughQuote c false k = .needMore
      · exact .inr ⟨c, k, hc, rfl, isOpen_iff.2 hopen⟩
      · refine .inl ((answers_quote_iff hc).2 fun hbroken ↦ (answers_quote_iff hc).1 h ?_)
        exact isBrokenOff_iff.2 ((Scan.throughQuote_append hopen v).symm.trans
          (isBrokenOff_iff.1 hbroken))

/-- What does not answer does not come to answer. -/
theorem not_answers_append {k : Text} (hk : k ≠ []) (h : ¬ Answers k) (v : Text) :
    ¬ Answers (k ++ v) := by
  have hnone : ∀ p ∈ plainRules, p.scan k = .noMatch := by
    intro p hp
    by_contra hscan
    exact h ⟨p, hp, hscan⟩
  have hsettled : Settled k := by
    refine ⟨hk, fun p hp ↦ ?_, fun p hp _ ↦ ?_⟩ <;> simp [hnone p hp]
  have hover : ¬ Overruns k v := fun hover ↦ h hover.exists_match
  rintro ⟨p, hp, hscan⟩
  exact hscan ((hsettled.scan_append hover p hp).trans (hnone p hp))

/-! ### Where no rule does -/

/-- Whether a text begins with a splice. -/
def beginsWithSplice (t : Text) : Bool := (pieces t).head?.any Piece.isSplice

theorem beginsWithSplice_iff {t : Text} : beginsWithSplice t = true ↔
    ∃ b r, t = '\\' :: b :: r ∧ Text.isLineBreak b = true := by
  rw [beginsWithSplice]
  fun_cases pieces t with
  | case1 r => exact iff_of_true rfl ⟨_, _, rfl, rfl⟩
  | case2 r _ => exact iff_of_true rfl ⟨_, _, rfl, rfl⟩
  | case3 r => exact iff_of_true rfl ⟨_, _, rfl, rfl⟩
  | case4 c r h₁ h₂ h₃ =>
    refine iff_of_false (by simp [Piece.isSplice, Piece.char?]) ?_
    rintro ⟨b, r', ht, hb⟩
    obtain ⟨rfl, rfl⟩ := List.cons.inj ht
    rw [head?_of_kept h₁ h₂ h₃ rfl b rfl] at hb
    cases hb
  | case5 => exact iff_of_false (by simp) (by rintro ⟨_, _, h, _⟩; cases h)

theorem beginsWithSplice_append {s : Text} (h : beginsWithSplice s = true) (t : Text) :
    beginsWithSplice (s ++ t) = true := by
  obtain ⟨b, r, rfl, hb⟩ := beginsWithSplice_iff.1 h
  exact beginsWithSplice_iff.2 ⟨b, r ++ t, rfl, hb⟩

theorem beginsWithSplice_eq_false_of_append {s t : Text} (h : beginsWithSplice (s ++ t) = false) :
    beginsWithSplice s = false := by
  by_contra hs
  rw [beginsWithSplice_append (by simpa using hs) t] at h
  cases h

/-- A splice at the start of a text shows in each of its windows. -/
theorem beginsWithSplice_of_append {w v : Text} (hwindow : Lexicon.IsWindow w v) (hw : w ≠ [])
    (h : beginsWithSplice (w ++ v) = true) : beginsWithSplice w = true := by
  rw [beginsWithSplice, pieces_append (joint_of_isWindow hwindow)] at h
  rw [beginsWithSplice]
  cases hps : pieces w with
  | nil =>
    have hnil := flatten_pieces w
    rw [hps] at hnil
    exact absurd hnil.symm hw
  | cons p ps =>
    rw [hps] at h
    exact h

theorem opensRaw_of_beginsWithSplice {t : Text} (h : beginsWithSplice t = true) :
    opensRaw t = false := by
  obtain ⟨b, r, rfl, -⟩ := beginsWithSplice_iff.1 h
  rfl

/-- A text that begins with no splice begins with a character. -/
theorem pieces_of_not_beginsWithSplice {c : Char} {t : Text}
    (h : beginsWithSplice (c :: t) = false) : pieces (c :: t) = .kept c :: pieces t := by
  refine pieces_cons_of_kept fun hc b hb ↦ ?_
  by_contra hbreak
  obtain ⟨r, rfl⟩ := List.head?_eq_some_iff.1 hb
  rw [beginsWithSplice_iff.2 ⟨b, r, by rw [hc], by simpa using hbreak⟩] at h
  cases h

/-- The first rule finds nothing but blanks and splices. -/
theorem scanWhitespace_of_not_beginsWithSplice {c : Char} {t : Text} (hc : isBlank c = false)
    (h : beginsWithSplice (c :: t) = false) : scanWhitespace (c :: t) = .noMatch := by
  obtain ⟨ps, qs, hps, hsize, hblank⟩ := blankSize_pieces (c :: t)
  rw [pieces_of_not_beginsWithSplice h] at hps
  cases ps with
  | nil =>
    rw [scanWhitespace, hsize]
    rfl
  | cons p ps =>
    rw [List.cons_append, List.cons.injEq] at hps
    obtain ⟨rfl, -⟩ := hps
    rw [hblank c (by simp)] at hc
    cases hc

/-- **Where no gap and no splice is**, what the lexer finds is what the plain rules find among the
characters. -/
theorem longestMatch_of_plain {c : Char} {t : Text} (hgap : isGap c = false)
    (hsplice : beginsWithSplice (c :: t) = false) (hraw : opensRaw (c :: t) = false)
    (h : ∀ p ∈ plainRules, scanPieces p.extendable p.scan (pieces (c :: t)) ≠ .needMore) :
    Lexicon.longestMatch lexicon.rules (c :: t) =
      (plainMatch (unsplice (c :: t))).elim .noMatch fun r ↦
        .matched r.1 (writtenSize r.2 (pieces (c :: t))) := by
  have hwhitespace : scanWhitespace (c :: t) = .noMatch :=
    scanWhitespace_of_not_beginsWithSplice (Bool.or_eq_false_iff.1 hgap).1 hsplice
  have hnewline : scanNewline (c :: t) = .noMatch := scanNewline_of_not_isGap hgap
  have hneed : ∀ r ∈ lexicon.rules, r.scan (c :: t) ≠ .needMore := by
    rw [forall_scan_rules (P := (· ≠ .needMore)) hraw]
    exact ⟨by simp [hwhitespace], by simp [hnewline], h⟩
  rw [Lexicon.longestMatch_eq_longest hneed, map_scan_rules hraw, hwhitespace, hnewline]
  show (Lexicon.longest _ 2 _).elim _ _ = _
  rw [plainMatch_window h]
  cases plainMatch (unsplice (c :: t)) <;> rfl

/-- A raw string begins with a word. -/
theorem answers_of_opensRaw {t : Text} (h : opensRaw t = true) : Answers (unsplice t) := by
  obtain ⟨e, r, he, ht⟩ := unsplice_of_opensRaw h
  rw [ht]
  simp only [encodings, List.mem_cons, List.not_mem_nil, or_false] at he
  rcases he with rfl | rfl | rfl | rfl | rfl <;> exact answers_of_startsToken (by decide) _

/-- Where no plain rule answers for the characters, only the first two rules find something. -/
theorem longestMatch_of_not_answers {w : Text} (h : ¬ Answers (unsplice w)) :
    Lexicon.longestMatch lexicon.rules w = .noMatch ∨
      ∃ i n, i < 2 ∧ Lexicon.longestMatch lexicon.rules w = .matched i n := by
  have hraw : opensRaw w = false := by
    by_contra hraw
    exact h (answers_of_opensRaw (by simpa using hraw))
  have hplain : ∀ p ∈ plainRules, scanPieces p.extendable p.scan (pieces w) = .noMatch := by
    intro p hp
    by_contra hscan
    exact h ⟨p, hp, fun hnone ↦ hscan (scanPieces_eq_noMatch_iff.2 hnone)⟩
  cases hm : Lexicon.longestMatch lexicon.rules w with
  | noMatch => exact .inl rfl
  | needMore k =>
    obtain ⟨r, hr, hscan⟩ := Lexicon.exists_needMore_of_longestMatch hm
    have hneed := (forall_scan_rules (P := (· ≠ .needMore)) hraw).2 ⟨Scan.ofSize_ne_needMore _,
      Scan.ofSize_ne_needMore _, fun p hp ↦ by simp [hplain p hp]⟩
    exact absurd hscan (hneed r (List.mem_of_getElem? hr))
  | matched i n =>
    obtain ⟨⟨r, hr, hscan⟩, -, -⟩ := Lexicon.scan_of_longestMatch_eq_matched hm
    refine .inr ⟨i, n, ?_, rfl⟩
    by_contra hi
    obtain ⟨j, rfl⟩ := Nat.exists_eq_add_of_le' (Nat.not_lt.1 hi)
    obtain ⟨p, hp, -, hscan'⟩ := rule_of_getElem? hraw hr
    cases (hplain p (List.mem_of_getElem? hp)).symm.trans (hscan'.symm.trans hscan)

/-- The first two rules find nothing but blanks, splices and line breaks. -/
theorem two_le_of_longestMatch {c : Char} {t : Text} (hgap : isGap c = false)
    (hsplice : beginsWithSplice (c :: t) = false) {i n : Nat}
    (hm : Lexicon.longestMatch lexicon.rules (c :: t) = .matched i n) : 2 ≤ i := by
  obtain ⟨⟨r, hr, hscan⟩, -, -⟩ := Lexicon.scan_of_longestMatch_eq_matched hm
  match i, hr with
  | 0, hr =>
    obtain rfl := Option.some.inj hr
    rw [isGap, Bool.or_eq_false_iff] at hgap
    cases (scanWhitespace_of_not_beginsWithSplice hgap.1 hsplice).symm.trans hscan
  | 1, hr =>
    obtain rfl := Option.some.inj hr
    cases (scanNewline_of_not_isGap hgap).symm.trans hscan
  | j + 2, _ => exact Nat.le_add_left 2 j

/-- **The rules find nothing** where there is no blank, no splice and no line break, and no plain
rule answers. -/
theorem longestMatch_eq_noMatch_iff {c : Char} {t : Text} :
    Lexicon.longestMatch lexicon.rules (c :: t) = .noMatch ↔
      isGap c = false ∧ beginsWithSplice (c :: t) = false ∧ ¬ Answers (unsplice (c :: t)) := by
  constructor
  · intro h
    have hraw : opensRaw (c :: t) = false := by
      by_contra hraw
      exact (longestMatch_of_opensRaw (by simpa using hraw)).1 h
    obtain ⟨-, -, hplain⟩ := (forall_scan_rules (P := (· = .noMatch)) hraw).1 (scan_eq_noMatch h)
    obtain ⟨hgap, hkept⟩ := head_of_noMatch h
    refine ⟨hgap, ?_, ?_⟩
    · by_contra hsplice
      obtain ⟨b, r, ht, hb⟩ := beginsWithSplice_iff.1 (by simpa using hsplice)
      obtain ⟨hc, rfl⟩ := List.cons.inj ht
      rw [hkept hc b rfl] at hb
      cases hb
    · rintro ⟨p, hp, hanswer⟩
      exact hanswer (scanPieces_eq_noMatch_iff.1 (hplain p hp))
  · rintro ⟨hgap, hsplice, hnone⟩
    refine (longestMatch_of_not_answers hnone).resolve_right ?_
    rintro ⟨i, n, hi, hm⟩
    exact absurd (two_le_of_longestMatch hgap hsplice hm) (Nat.not_le.2 hi)

/-- **At a quote they find nothing** exactly if its line ends before it is closed. -/
theorem longestMatch_quote_iff {quote : Char} (hq : quote = '\'' ∨ quote = '"') {t : Text} :
    Lexicon.longestMatch lexicon.rules (quote :: t) = .noMatch ↔
      IsBrokenOff quote (unsplice t) := by
  have hslash : quote ≠ '\\' := by rcases hq with rfl | rfl <;> decide
  have hgap : isGap quote = false := by rcases hq with rfl | rfl <;> rfl
  have hsplice : beginsWithSplice (quote :: t) = false := by
    by_contra hsplice
    obtain ⟨b, r, ht, -⟩ := beginsWithSplice_iff.1 (by simpa using hsplice)
    exact hslash (List.cons.inj ht).1
  rw [longestMatch_eq_noMatch_iff, unsplice_cons hslash, answers_quote_iff hq, not_not]
  exact ⟨fun h ↦ h.2.2, fun h ↦ ⟨hgap, hsplice, h⟩⟩

end LexFront.Cpp
