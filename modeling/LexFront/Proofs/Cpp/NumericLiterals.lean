import LexFront.Proofs.Cpp.Answering
import LexFront.Proofs.Cpp.NumericGrammar
import LexFront.Proofs.Lexer.Sighting

/-!
# Numeric literals are recognized whole

A literal has no line break in it, so every window that shows its beginning shows all of it. There
the rules for numerals find it, of which the one asks for floating literals and the other for the
rest, and no other rule finds as much: a point is the only punctuator that a numeral begins with.

What comes behind the literal may have splices, and the scanner passes over them. They make no
difference, since none begins right behind the literal, and what does begin there ends it.

Key facts:

* `exists_plainMatch_of_starts`: where a numeral starts, it is what the plain rules find.
* `longestMatch_literal`: a window that begins with a literal finds it.
* `numeric_of_run`: a literal at the start of a unit is its first lexeme.
-/

set_option autoImplicit false

namespace LexFront.Cpp

/-- The numeric literals of a kind. -/
inductive IsNumeric : Kind → Text → Prop where
  | integer {w : Text} : Numeral.IsInteger w → IsNumeric .integerLiteral w
  | floating {w : Text} : Numeral.IsFloating w → IsNumeric .floatingLiteral w

/-- The kind of a literal that is floating or not. -/
def numericKind (floating : Bool) : Kind := if floating then .floatingLiteral else .integerLiteral

theorem IsNumeric.exists_isTaken {kind : Kind} {w : Text} (h : IsNumeric kind w) :
    ∃ floating, kind = numericKind floating ∧ Numeral.IsTaken floating w := by
  cases h with
  | integer h => exact ⟨false, rfl, h.isTaken⟩
  | floating h => exact ⟨true, rfl, h.isTaken⟩

/-! ### Where a numeral starts -/

/-- **Where a numeral starts** only the rules for numerals and punctuators have something to say. -/
theorem map_scan_of_starts {k : Text} (hk : Numeral.starts k = true) :
    plainRules.map (·.scan k) = [.noMatch, .noMatch, .noMatch, .noMatch, Numeral.scan false k,
      Numeral.scan true k, .noMatch, .noMatch, scanOperator k] := by
  obtain ⟨c, rest, rfl, hc⟩ := Numeral.starts_spec hk
  have hstart : Numeral.isStart c = true := by
    rcases hc with hc | ⟨rfl, -⟩
    · rw [Numeral.isStart, hc]
      rfl
    · rfl
  obtain ⟨hslash, hword, hcharacter, hstring⟩ := starts_of_isStart hstart
  have hslash : (c == '/') = false := beq_eq_false_iff_ne.2 hslash
  simp only [plainRules, List.map_cons, List.map_nil, plain_scanLineComment.cons c rest hslash,
    plain_scanBlockComment.cons c rest hslash, plain_scanKeyword.cons c rest hword,
    plain_scanIdentifier.cons c rest hword, (plain_scanQuoted rfl).cons c rest hcharacter,
    (plain_scanQuoted rfl).cons c rest hstring]

/-- A numeral is longer than the punctuator that it begins with. -/
theorem scanOperator_lt_of_starts {k : Text} (hk : Numeral.starts k = true) {n : Nat}
    (h : scanOperator k = .matched n) : n < Numeral.suffixed (Numeral.bodySize k).1 k := by
  have hn := scanOperator_of_starts hk h
  obtain ⟨c, rest, rfl, hc | ⟨rfl, d, r, rfl, hd⟩⟩ := Numeral.starts_spec hk
  · -- No punctuator begins with a digit.
    have hstarts : operatorStarts.contains c = false := by
      have hall : ∀ c ∈ operatorStarts, c.isDigit = false := List.all_iff_forall_prop.1 (by decide)
      rw [← Bool.not_eq_true, List.contains_iff_mem]
      exact fun hmem ↦ by cases (hall c hmem).symm.trans hc
    cases (plain_scanOperator.cons c rest hstarts).symm.trans h
  · have hbody : 2 ≤ (Numeral.bodySize ('.' :: d :: r)).1 := by
      have hne : d ≠ '.' := by
        rintro rfl
        cases hd
      have hwhole : Numeral.digitsSize Numeral.Base.decimal.digit ('.' :: d :: r) = 0 := rfl
      have hdecimal : Numeral.Base.decimal.digit d = true := hd
      rw [Numeral.bodySize_decimal (by simp),
        Numeral.Base.numberSize_eq _ hwhole (s := '.' :: d :: r) rfl,
        Numeral.Base.fractionSize_point, if_neg (by simp [hne]), Numeral.digitsSize,
        if_pos hdecimal]
      show 2 ≤ 0 + (1 + (1 + _)) + _
      omega
    exact Nat.lt_of_le_of_lt hn (Nat.lt_of_lt_of_le hbody (Nat.le_add_right _ _))

/-- **Where a numeral starts, it is what the plain rules find.** -/
theorem exists_plainMatch_of_starts {k : Text} (hk : Numeral.starts k = true) :
    ∃ i r, plainMatch k = some (i, Numeral.suffixed (Numeral.bodySize k).1 k) ∧
      lexicon.rules[i]? = some r ∧ r.terminal = numericKind (Numeral.bodySize k).2 ∧
      r.decode = decodeNumber := by
  have hfits := Numeral.fits_scan (Numeral.bodySize k).2 k
  rw [Numeral.scan_eq, if_pos ⟨hk, rfl⟩] at hfits
  -- What the other rules find is less.
  have hless : ∀ s : Scan, s = .noMatch ∨ s = scanOperator k → ∀ m, s = .matched m →
      m < Numeral.suffixed (Numeral.bodySize k).1 k := by
    rintro s (rfl | rfl) m hm
    · cases hm
    · exact scanOperator_lt_of_starts hk hm
  rw [plainMatch, map_scan_of_starts hk, Numeral.scan_eq, Numeral.scan_eq]
  cases hfloating : (Numeral.bodySize k).2 with
  | false =>
    refine ⟨6, _, ?_, rfl, rfl, rfl⟩
    rw [if_pos ⟨hk, rfl⟩, if_neg (by simp)]
    refine @Lexicon.longest_append _ _ _ [.noMatch, .noMatch, .noMatch, .noMatch] _ hfits
      fun s hs ↦ hless s ?_
    simpa using hs
  | true =>
    refine ⟨7, _, ?_, rfl, rfl, rfl⟩
    rw [if_neg (by simp), if_pos ⟨hk, rfl⟩]
    refine @Lexicon.longest_append _ _ _ [.noMatch, .noMatch, .noMatch, .noMatch, .noMatch] _ hfits
      fun s hs ↦ hless s ?_
    simpa using hs

theorem scan_ne_needMore_of_starts {k : Text} (hk : Numeral.starts k = true) {p : PlainRule}
    (hp : p ∈ plainRules) : p.scan k ≠ .needMore := by
  have hnumeral : ∀ floating, Numeral.scan floating k ≠ .needMore := by
    intro floating
    rw [Numeral.scan_eq]
    split <;> simp
  have hmem := List.mem_map_of_mem (f := (·.scan k)) hp
  rw [map_scan_of_starts hk] at hmem
  intro hscan
  rw [hscan] at hmem
  simp only [List.mem_cons, List.not_mem_nil, or_false, reduceCtorEq, false_or] at hmem
  rcases hmem with hmem | hmem | hmem
  · exact hnumeral false hmem.symm
  · exact hnumeral true hmem.symm
  · exact Scan.ofSize_ne_needMore _ hmem.symm

/-! ### Windows -/

/-- Without backslashes a text is read as it is, whatever follows it. -/
theorem pieces_append_of_not_mem {s : Text} (h : '\\' ∉ s) (t : Text) :
    pieces (s ++ t) = s.map .kept ++ pieces t := by
  induction s with
  | nil => rfl
  | cons c s ih =>
    rw [List.mem_cons, not_or] at h
    rw [List.cons_append, pieces_cons_of_kept fun hc ↦ absurd hc.symm h.1, ih h.2]
    rfl

/-- What is behind a literal goes on with it no more when its splices are taken out. -/
theorem heads_unsplice {r : Text} (hr : Numeral.Heads Numeral.IsBehind r) :
    Numeral.Heads Numeral.IsBehind (unsplice r) ∧ (unsplice r = [] ↔ r = []) := by
  cases r with
  | nil => exact ⟨hr, Iff.rfl⟩
  | cons c r =>
    have hc : c ≠ '\\' := by
      rintro rfl
      exact (hr _ rfl).2 (by decide)
    rw [unsplice_cons hc]
    exact ⟨Numeral.heads_cons (hr c rfl), by simp⟩

/-- No raw string begins like a numeral. -/
theorem opensRaw_of_starts {t : Text} (h : Numeral.starts (unsplice t) = true) :
    opensRaw t = false := by
  by_contra hopens
  obtain ⟨e, r, he, hchars⟩ := unsplice_of_opensRaw (by simpa using hopens)
  rw [hchars] at h
  simp only [encodings, List.mem_cons, List.not_mem_nil, or_false] at he
  rcases he with rfl | rfl | rfl | rfl | rfl <;> cases h

/-- Nothing in a literal is a gap, and nothing might begin a splice. -/
theorem isGap_of_isTaken {floating : Bool} {w : Text} (h : Numeral.IsTaken floating w) :
    ∀ c ∈ w, isGap c = false ∧ Text.isLineBreak c = false ∧ c ≠ '\\' := by
  have hall : ∀ c ∈ Numeral.literalChars,
      isGap c = false ∧ Text.isLineBreak c = false ∧ c ≠ '\\' :=
    List.all_iff_forall_prop.1 (by decide)
  exact fun c hc ↦ hall c (h.subset hc)

theorem not_mem_of_isTaken {floating : Bool} {w : Text} (h : Numeral.IsTaken floating w) :
    '\\' ∉ w := fun hmem ↦ (isGap_of_isTaken h _ hmem).2.2 rfl

/-- **A window that begins with a literal finds it.** -/
theorem longestMatch_literal {floating : Bool} {w r : Text} (h : Numeral.IsTaken floating w)
    (hr : Numeral.Heads Numeral.IsBehind r) :
    ∃ i rule, Lexicon.longestMatch lexicon.rules (w ++ r) = .matched i (Text.size w) ∧
      lexicon.rules[i]? = some rule ∧ rule.terminal = numericKind floating ∧
      rule.decode = decodeNumber := by
  have hpieces := pieces_append_of_not_mem (not_mem_of_isTaken h) r
  have hchars : unsplice (w ++ r) = w ++ unsplice r := by
    rw [unsplice, hpieces, unsplice_append_pieces, keptText_map_kept]
    rfl
  obtain ⟨hr', hnil⟩ := heads_unsplice hr
  have hstarts : Numeral.starts (unsplice (w ++ r)) = true := hchars ▸ h.starts hr'
  have hsize := h.suffixed_eq hr'
  rw [← hchars] at hsize
  have hfloating : (Numeral.bodySize (unsplice (w ++ r))).2 = floating := by
    obtain ⟨body, suffix, -, -, hbody⟩ := h.body
    rw [hchars, hbody _ hr']
  have hneed : ∀ p ∈ plainRules, scanPieces p.extendable p.scan (pieces (w ++ r)) ≠ .needMore := by
    intro p hp hmore
    rcases scanPieces_eq_needMore_iff.1 hmore with hscan | ⟨-, hopen, hscan⟩
    · exact scan_ne_needMore_of_starts hstarts hp hscan
    · -- A match up to the end leaves nothing behind, so there is no splice either.
      have hle := le_of_starts hstarts hp hscan
      rw [hsize, ← unsplice, hchars, Text.size_append] at hle
      have hrest : unsplice r = [] := Text.size_eq_zero_iff.1 (by omega)
      rw [hpieces, hnil.1 hrest, pieces, List.append_nil, isOpenEnded_map_kept] at hopen
      cases hopen
  obtain ⟨i, rule, hmatch, hrule⟩ := exists_plainMatch_of_starts hstarts
  rw [hfloating] at hrule
  refine ⟨i, rule, ?_, hrule⟩
  rw [hsize] at hmatch
  cases w with
  | nil => cases h.starts (r := []) Numeral.heads_nil
  | cons c w =>
    obtain ⟨hgap, -, hc⟩ := isGap_of_isTaken h c List.mem_cons_self
    have hboundary : Text.isBoundary (Text.size (c :: w)) (c :: w) = true := by
      simpa using Text.isBoundary_size_append (c :: w) []
    have hsplice : beginsWithSplice (c :: (w ++ r)) = false := by
      rw [← Bool.not_eq_true, beginsWithSplice_iff]
      rintro ⟨b, t, hcons, -⟩
      exact hc (List.cons.inj hcons).1
    rw [List.cons_append] at hmatch hpieces hstarts hneed ⊢
    rw [longestMatch_of_plain hgap hsplice (opensRaw_of_starts hstarts) hneed, hmatch, hpieces,
      Option.elim_some, writtenSize_append (by rwa [keptText_map_kept]),
      writtenSize_map_kept hboundary]

/-- **Every window finds the literal.** -/
theorem isSighted_literal {floating : Bool} {w r : Text} (h : Numeral.IsTaken floating w)
    (hr : Numeral.Heads Numeral.IsBehind r) :
    Lexer.IsSighted lexicon.rules (numericKind floating) w (w.filter (· != '\'')) (w ++ r) := by
  have hunbroken : w.IsUnbroken := fun c hc ↦ (isGap_of_isTaken h c hc).2.1
  intro u v _ hwindow ht
  obtain ⟨back, rfl⟩ := hwindow.prefix_of_isUnbroken hunbroken (ht ▸ List.prefix_append w r)
  rw [List.append_assoc] at ht
  have hback : Numeral.Heads Numeral.IsBehind back := by
    obtain rfl := List.append_cancel_left ht
    cases back with
    | nil => exact Numeral.heads_nil
    | cons c back => exact Numeral.heads_cons (hr c rfl)
  obtain ⟨i, rule, hm, hrule, hkind, hdecode⟩ := longestMatch_literal h hback
  refine .whole rfl hm hrule hkind ?_
  rw [hdecode, decodeNumber, unsplice_eq_self (not_mem_of_isTaken h)]

/-! ### Units -/

/-- **Numeric literals are recognized whole.** A unit that begins with an integer literal or a
floating literal has it for its first lexeme, and as what it is, if what follows it does not go on
with it. Its value is the literal without its separators. -/
theorem numeric_of_run (preferences : LexicalPreferences) (unit : String) {kind : Kind} {w r : Text}
    (hw : IsNumeric kind w)
    (hr : ∀ c ∈ r.head?, Text.isIdentifierPart c = false ∧ c ∉ ['.', '\'', '\\'])
    {feed : Feed} (hfeed : feed.Delivers (w ++ r)) {unitLimit lineLimit maxLength maxCount : Nat}
    (hunit : Text.size (w ++ r) ≤ unitLimit) (hlines : (w ++ r).FitsLines lineLimit)
    (hlength : Text.size w ≤ maxLength) (hcount : 0 < maxCount) :
    let l := (Lexer.ofDecoder lexicon preferences unit { feed, limit := unitLimit }
      lineLimit).withLimits maxLength maxCount
    l.lexemes.head? =
        some (.valid (.covering kind w (w.filter (· != '\'')) (.start unit))) ∧
      l.next.2.pending = r := by
  obtain ⟨floating, rfl, htaken⟩ := hw.exists_isTaken
  have hne : w ≠ [] := by
    rintro rfl
    cases htaken.starts (r := []) Numeral.heads_nil
  exact Lexer.head?_of_sights preferences unit hne (isSighted_literal htaken hr) hfeed hunit hlines
    hlength hcount

/-- A hexadecimal literal with all parts that one may have, and separators in three of them. A
splice follows, but not right behind it. -/
theorem numeric_of_run_hexadecimal :
    let w : Text := ['0', 'x', '1', '\'', 'f', '.', '8', '\'', 'e', 'p', '-', '1', '\'', '0', 'L']
    let r : Text := ['+', '\\', '\n', '1']
    let l := Lexer.ofDecoder lexicon {} "u" { feed := .ofBytes (Text.encode (w ++ r)) }
    l.lexemes.head? = some (.valid (.covering .floatingLiteral w
        ['0', 'x', '1', 'f', '.', '8', 'e', 'p', '-', '1', '0', 'L'] (.start "u"))) ∧
      l.next.2.pending = r := by
  intro w r l
  have hsize : Text.size (w ++ r) ≤ 19 := by decide
  have hw : Numeral.IsFloating w :=
    .hexPoint (x := 'x') (t := ['1', '\'', 'f', '.', '8', '\'', 'e'])
      (e := ['p', '-', '1', '\'', '0']) (s := ['L']) (by decide)
      (.among (s := ['1', '\'', 'f']) (.separated (.one (by decide)) (by decide))
        (.separated (.one (by decide)) (by decide)))
      (@Numeral.IsExponent.mk _ 'p' ['-'] ['1', '\'', '0'] (by decide) (by decide)
        (.separated (.one (by decide)) (by decide)))
      (by decide)
  exact numeric_of_run {} "u" (w := w) (r := r) (.floating hw)
    (fun c hc ↦ by obtain rfl := Option.some.inj hc; decide) (Feed.delivers_ofBytes (w ++ r))
    (Nat.le_trans hsize (by decide : 19 ≤ Limits.unitSize))
    (Text.fitsLines_of_size_le (Nat.le_trans hsize (by decide : 19 ≤ Limits.lineLength)))
    (by decide : _ ≤ Limits.tokenLength) (by decide : 0 < Limits.tokenCount)

end LexFront.Cpp
