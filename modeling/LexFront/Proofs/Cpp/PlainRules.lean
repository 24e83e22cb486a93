import LexFront.Proofs.Cpp.Scanning

/-!
# Plain rules

All rules of C++ but those for whitespace and line breaks are plain: they are run on the characters
of a text, its splices taken out. The one exception is the raw string, and as long as none opens the
rules of a window answer as the plain rules answer for its characters, with the sizes carried over
to the text.

Key facts:

* `opensRaw_iff`: where a raw string opens.
* `map_scan_rules`: elsewhere all rules but the first two are plain.
* `plainMatch_window`: the plain rules find the same in a window and among its characters.
-/

set_option autoImplicit false

namespace LexFront.Cpp

/-- A rule that is run on the characters of a text. -/
structure PlainRule where
  kind : Kind
  extendable : Bool
  starts : Char → Bool
  scan : Text → Scan

/-- The plain rules, in the order of the lexicon. -/
def plainRules : List PlainRule :=
  [⟨.lineComment, true, (· == '/'), scanLineComment⟩,
    ⟨.blockComment, false, (· == '/'), scanBlockComment⟩,
    ⟨.keyword, true, Text.isIdentifierStart, scanKeyword⟩,
    ⟨.identifier, true, Text.isIdentifierStart, scanIdentifier⟩,
    ⟨.integerLiteral, true, Numeral.isStart, Numeral.scan false⟩,
    ⟨.floatingLiteral, true, Numeral.isStart, Numeral.scan true⟩,
    ⟨.characterLiteral, false, startsQuoted '\'', scanQuoted '\''⟩,
    ⟨.stringLiteral, false, startsQuoted '"', scanQuoted '"'⟩,
    ⟨.operator, true, operatorStarts.contains, scanOperator⟩]

theorem identifier_mem_plainRules :
    ⟨.identifier, true, Text.isIdentifierStart, scanIdentifier⟩ ∈ plainRules := by
  simp [plainRules]

theorem operator_mem_plainRules :
    ⟨.operator, true, operatorStarts.contains, scanOperator⟩ ∈ plainRules := by
  simp [plainRules]

theorem numeral_mem_plainRules (floating : Bool) :
    ∃ kind, ⟨kind, true, Numeral.isStart, Numeral.scan floating⟩ ∈ plainRules := by
  cases floating
  · exact ⟨.integerLiteral, by simp [plainRules]⟩
  · exact ⟨.floatingLiteral, by simp [plainRules]⟩

theorem plain_of_mem {p : PlainRule} (hp : p ∈ plainRules) : Plain p.starts p.scan := by
  simp only [plainRules, List.mem_cons, List.not_mem_nil, or_false] at hp
  rcases hp with rfl | rfl | rfl | rfl | rfl | rfl | rfl | rfl | rfl
  · exact plain_scanLineComment
  · exact plain_scanBlockComment
  · exact plain_scanKeyword
  · exact plain_scanIdentifier
  · exact plain_scanNumeral false
  · exact plain_scanNumeral true
  · exact plain_scanQuoted rfl
  · exact plain_scanQuoted rfl
  · exact plain_scanOperator

/-- The kinds of the rules of the lexicon. -/
theorem kinds_of_rules :
    lexicon.rules.map (·.terminal) = .whitespace :: .newline :: plainRules.map (·.kind) := rfl

/-- An extendable match stays within its line. -/
theorem isWithinLine_of_extendable {p : PlainRule} (hp : p ∈ plainRules) (he : p.extendable = true)
    (t : Text) : Scan.IsWithinLine t (p.scan t) := by
  simp only [plainRules, List.mem_cons, List.not_mem_nil, or_false] at hp
  rcases hp with rfl | rfl | rfl | rfl | rfl | rfl | rfl | rfl | rfl
  · exact isWithinLine_scanLineComment t
  · cases he
  · exact isWithinLine_scanKeyword t
  · exact Text.isWithinLine_identifier t
  · exact Numeral.isWithinLine_scan false t
  · exact Numeral.isWithinLine_scan true t
  · cases he
  · cases he
  · exact isWithinLine_scanOperator t

/-- Whether a character is no part of a token: a blank or a line break. -/
def isGap (c : Char) : Bool := isBlank c || Text.isLineBreak c

/-- No plain rule begins with a blank or a line break. -/
theorem starts_of_isGap {p : PlainRule} (hp : p ∈ plainRules) {c : Char} (hc : isGap c = true) :
    p.starts c = false := by
  have hall : ∀ p ∈ plainRules, p.starts ' ' = false ∧ p.starts '\t' = false ∧
      p.starts '\x0b' = false ∧ p.starts '\x0c' = false ∧ p.starts '\n' = false ∧
      p.starts '\r' = false := by decide
  obtain ⟨h₁, h₂, h₃, h₄, h₅, h₆⟩ := hall p hp
  simp only [isGap, isBlank, Text.isLineBreak, Bool.or_eq_true, beq_iff_eq] at hc
  rcases hc with (((rfl | rfl) | rfl) | rfl) | (rfl | rfl)
  · exact h₁
  · exact h₂
  · exact h₃
  · exact h₄
  all_goals assumption

/-! ### Raw strings -/

/-- What may stand between the quote and the parenthesis of a raw string. -/
def IsDelimiter (d : Text) : Prop := (∀ c ∈ d, isRawDelimiter c = true) ∧ Text.size d ≤ 16

/-- What a raw string with a delimiter opens with. -/
def rawOpener (d : Text) : Text := 'R' :: '"' :: (d ++ ['('])

/-- A raw string opens somewhere in a text, or would if a token started there. -/
def HasRawOpener (t : Text) : Prop := ∃ d, IsDelimiter d ∧ rawOpener d <:+: t

theorem HasRawOpener.of_infix {s t : Text} (h : HasRawOpener s) (hs : s <:+: t) :
    HasRawOpener t := by
  obtain ⟨d, hd, hi⟩ := h
  exact ⟨d, hd, hi.trans hs⟩

/-- Whether a raw string opens at the start of a text. -/
def opensRaw (t : Text) : Bool :=
  match t.drop (encodingSize t) with
  | 'R' :: '"' :: rest => scanRawBody rest != .noMatch
  | _ => false

theorem scanRawBody_ne_noMatch_iff {t : Text} :
    scanRawBody t ≠ .noMatch ↔ ∃ d, IsDelimiter d ∧ d ++ ['('] <+: t := by
  constructor
  · intro h
    obtain ⟨d, rest, rfl, hd, hrest⟩ := rawBody_spec t
    by_cases hp : rest.head? = some '('
    · obtain ⟨content, rfl⟩ := List.head?_eq_some_iff.1 hp
      rw [scanRawBody_paren d content hd] at h
      split at h
      · next hs => exact ⟨d, ⟨hd, hs⟩, content, by simp⟩
      · exact absurd rfl h
    · exact absurd (scanRawBody_eq_noMatch d rest hd hrest hp) h
  · rintro ⟨d, ⟨hd, hs⟩, content, rfl⟩
    rw [List.append_assoc, List.singleton_append, scanRawBody_paren d content hd, if_pos hs]
    refine Scan.after_ne_noMatch ?_ _
    rw [Scan.through]
    split <;> simp

/-- The character behind an encoding prefix tells its size. -/
theorem encodingSize_rawOpener {e : Text} (he : e = [] ∨ e ∈ encodings) (t : Text) :
    encodingSize (e ++ 'R' :: t) = e.length := by
  simp only [encodings, List.mem_cons, List.not_mem_nil, or_false] at he
  rcases he with rfl | rfl | rfl | rfl | rfl <;> rfl

/-- Behind its opener a raw string is looked for up to its closer. -/
theorem scanString_rawOpener {e d : Text} (he : e = [] ∨ e ∈ encodings) (hd : IsDelimiter d)
    (content : Text) : scanString (e ++ rawOpener d ++ content) =
      (Scan.through (rawCloser d) content).after (Text.size (e ++ rawOpener d)) := by
  have ht : e ++ rawOpener d ++ content = e ++ 'R' :: '"' :: (d ++ '(' :: content) := by
    simp [rawOpener]
  have hsize : Text.size (e ++ rawOpener d) = e.length + 2 + Text.size (d ++ ['(']) := by
    rw [size_rawOpener he, ← Text.size_append]
    simp [rawOpener]
  rw [ht, scanString_raw (encodingSize_rawOpener he _), scanRawBody_paren d content hd.1,
    if_pos hd.2, Scan.after_after, hsize]

/-- **A raw string opens** with an encoding or none, and all of its opener. -/
theorem opensRaw_iff {t : Text} : opensRaw t = true ↔
    ∃ e d, (e = [] ∨ e ∈ encodings) ∧ IsDelimiter d ∧ e ++ rawOpener d <+: t := by
  constructor
  · intro h
    obtain ⟨e, rest, rfl, hsize, he⟩ := encoding_spec t
    rw [opensRaw, hsize, List.drop_left] at h
    split at h
    · next r =>
      obtain ⟨d, hd, content, rfl⟩ := scanRawBody_ne_noMatch_iff.1 (by simpa using h)
      exact ⟨e, d, he, hd, content, by simp [rawOpener]⟩
    · cases h
  · rintro ⟨e, d, he, hd, content, rfl⟩
    have hcons : e ++ rawOpener d ++ content = e ++ 'R' :: ('"' :: (d ++ ['('] ++ content)) := by
      simp [rawOpener]
    rw [hcons, opensRaw, encodingSize_rawOpener he, List.drop_left]
    simpa using scanRawBody_ne_noMatch_iff.2 ⟨d, hd, content, rfl⟩

theorem hasRawOpener_of_opensRaw {t : Text} (h : opensRaw t = true) : HasRawOpener t := by
  obtain ⟨e, d, -, hd, hp⟩ := opensRaw_iff.1 h
  exact ⟨d, hd, (List.suffix_append e _).isInfix.trans hp.isInfix⟩

theorem opensRaw_of_not_hasRawOpener {t : Text} (h : ¬ HasRawOpener t) : opensRaw t = false := by
  by_contra hopen
  exact h (hasRawOpener_of_opensRaw (by simpa using hopen))

/-- Without quotes there are no raw strings. -/
theorem not_hasRawOpener_of_not_mem {t : Text} (h : '"' ∉ t) : ¬ HasRawOpener t := by
  rintro ⟨d, -, hd⟩
  exact h (hd.subset (by simp [rawOpener]))

/-- What begins like a raw string is no other literal, closed or not. -/
theorem scanQuoted_rawOpener {quote : Char} (hq : quote ≠ 'R') {e : Text}
    (he : e = [] ∨ e ∈ encodings) (t : Text) : scanQuoted quote (e ++ 'R' :: t) = .noMatch := by
  rw [scanQuoted_append_cons (encodingSize_rawOpener he t), if_neg (Ne.symm hq)]

theorem unsplice_rawOpener {e : Text} (he : e = [] ∨ e ∈ encodings) (t : Text) :
    unsplice (e ++ 'R' :: t) = e ++ 'R' :: unsplice t := by
  simp only [encodings, List.mem_cons, List.not_mem_nil, or_false] at he
  rcases he with rfl | rfl | rfl | rfl | rfl <;> simp [unsplice_cons]

/-- The characters of a text that opens a raw string. -/
theorem unsplice_of_opensRaw {t : Text} (h : opensRaw t = true) :
    ∃ e r, (e = [] ∨ e ∈ encodings) ∧ unsplice t = e ++ 'R' :: '"' :: r := by
  obtain ⟨e, d, he, -, content, rfl⟩ := opensRaw_iff.1 h
  have ht : e ++ rawOpener d ++ content = e ++ 'R' :: '"' :: (d ++ '(' :: content) := by
    simp [rawOpener]
  rw [ht, unsplice_rawOpener he, unsplice_cons (by decide)]
  exact ⟨e, _, he, rfl⟩

/-- A string that is not raw, and does not begin like one that is malformed either. -/
theorem scanString_of_not_opensRaw {t : Text} (h : opensRaw t = false) :
    scanString t = scanPieces false (scanQuoted '"') (pieces t) := by
  obtain ⟨e, rest, rfl, hsize, he⟩ := encoding_spec t
  by_cases hr : ∃ r, rest = 'R' :: '"' :: r
  · obtain ⟨r, rfl⟩ := hr
    have hnone : scanRawBody r = .noMatch := by
      rw [opensRaw, hsize, List.drop_left] at h
      simpa using h
    have hquoted : scanQuoted '"' (keptText (pieces (e ++ 'R' :: '"' :: r))) = .noMatch := by
      rw [← unsplice, unsplice_rawOpener he]
      exact scanQuoted_rawOpener (by decide) he _
    rw [scanString_raw hsize, hnone, scanPieces, hquoted]
    rfl
  · rw [scanString_quoted, plain_scanString.scanSpliced_eq]
    intro r hdrop
    rw [hsize, List.drop_left] at hdrop
    exact hr ⟨r, hdrop⟩

/-! ### The rules of the lexicon -/

/-- All rules but the first two and that for strings are run on the characters. -/
theorem map_scan_rules_all (t : Text) :
    lexicon.rules.map (·.scan t) = scanWhitespace t :: scanNewline t ::
      plainRules.map fun p ↦ if p.kind = .stringLiteral then scanString t
        else scanPieces p.extendable p.scan (pieces t) := by
  simp only [lexicon, plainRules, List.map_cons, List.map_nil,
    plain_scanLineComment.scanSpliced_eq, plain_scanBlockComment.scanSpliced_eq,
    plain_scanKeyword.scanSpliced_eq, plain_scanIdentifier.scanSpliced_eq,
    (plain_scanNumeral false).scanSpliced_eq, (plain_scanNumeral true).scanSpliced_eq,
    plain_scanCharacter.scanSpliced_eq, plain_scanOperator.scanSpliced_eq, reduceCtorEq, if_true,
    if_false]

/-- **Where no raw string opens** all rules but the first two are run on the characters. -/
theorem map_scan_rules {t : Text} (h : opensRaw t = false) :
    lexicon.rules.map (·.scan t) = scanWhitespace t :: scanNewline t ::
      plainRules.map fun p ↦ scanPieces p.extendable p.scan (pieces t) := by
  rw [map_scan_rules_all, scanString_of_not_opensRaw h]
  rfl

/-- Without splices the characters are the text. -/
theorem IsSpliceFree.scanPieces_eq {t : Text} (h : IsSpliceFree t) {p : PlainRule}
    (hp : p ∈ plainRules) : scanPieces p.extendable p.scan (pieces t) = p.scan t := by
  rw [← (plain_of_mem hp).scanSpliced_eq, (plain_of_mem hp).scanSpliced_of_isSpliceFree _ h]

/-- The longest match of the plain rules, numbered as in the lexicon. -/
def plainMatch (t : Text) : Option (Nat × Nat) :=
  Lexicon.longest t 2 (plainRules.map (·.scan t))

theorem plainMatch_spec {t : Text} {i n : Nat} (h : plainMatch t = some (i, n)) :
    ∃ j p front back, i = j + 2 ∧ plainRules[j]? = some p ∧ p.scan t = .matched n ∧
      t = front ++ back ∧ n = Text.size front ∧ front ≠ [] := by
  obtain ⟨j, hi, hj, hpos, hb⟩ := Lexicon.longest_spec h
  rw [List.getElem?_map, Option.map_eq_some_iff] at hj
  obtain ⟨p, hp, hscan⟩ := hj
  obtain ⟨front, back, ht, hn⟩ := Text.isBoundary_iff.1 hb
  refine ⟨j, p, front, back, by omega, hp, hscan, ht, hn, ?_⟩
  rintro rfl
  rw [hn] at hpos
  exact Nat.lt_irrefl 0 hpos

/-- No plain rule finds more. -/
theorem le_of_plainMatch {t : Text} {i m n : Nat} (h : plainMatch t = some (i, n)) {p : PlainRule}
    (hp : p ∈ plainRules) (hs : p.scan t = .matched m) : m ≤ n := by
  have hfits := (plain_of_mem hp).fits t
  rw [hs] at hfits
  exact Lexicon.le_of_longest h (List.mem_map_of_mem hp) (hs ▸ Lexicon.usable?_of_fits hfits)

theorem plainMatch_eq_none_iff {t : Text} (h : ∀ p ∈ plainRules, p.scan t ≠ .needMore) :
    plainMatch t = none ↔ ∀ p ∈ plainRules, p.scan t = .noMatch := by
  rw [plainMatch, Lexicon.longest_eq_none_iff, List.forall_mem_map]
  refine forall₂_congr fun p hp ↦ ?_
  cases hs : p.scan t with
  | noMatch => simp [Lexicon.usable?]
  | needMore => exact absurd hs (h p hp)
  | matched n =>
    have hfits := (plain_of_mem hp).fits t
    rw [hs] at hfits
    simp [Lexicon.usable?_of_fits hfits]

/-- **The plain rules find the same in a text and among its characters**, as long as none of them
asks for more. -/
theorem plainMatch_window {t : Text}
    (h : ∀ p ∈ plainRules, scanPieces p.extendable p.scan (pieces t) ≠ .needMore) :
    Lexicon.longest t 2 (plainRules.map fun p ↦ scanPieces p.extendable p.scan (pieces t)) =
      (plainMatch (unsplice t)).map fun r ↦ (r.1, writtenSize r.2 (pieces t)) := by
  refine Lexicon.longest_map (f := fun n ↦ writtenSize n (pieces t)) (fun p hp ↦ ?_) ?_ 2
  · have hneed := h p hp
    have hfits := (plain_of_mem hp).fits (unsplice t)
    have hfits' : Scan.Fits t (scanPieces p.extendable p.scan (pieces t)) := fits_scanPieces hfits
    rw [scanPieces] at hneed hfits' ⊢
    rw [← unsplice] at hneed hfits' ⊢
    cases hs : p.scan (unsplice t) with
    | noMatch => rfl
    | needMore => rw [hs] at hneed; exact absurd rfl hneed
    | matched m =>
      rw [hs] at hneed hfits hfits'
      simp only at hneed hfits' ⊢
      split at hneed
      · exact absurd rfl hneed
      · next hc =>
        rw [if_neg hc] at hfits' ⊢
        rw [Lexicon.usable?_of_fits hfits', Lexicon.usable?_of_fits hfits]
        rfl
  · intro p _ q _ m n hm hn
    exact writtenSize_le_iff (Lexicon.usable?_eq_some_iff.1 hm).2.2
      (Lexicon.usable?_eq_some_iff.1 hn).2.2

end LexFront.Cpp
