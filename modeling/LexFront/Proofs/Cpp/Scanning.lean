import LexFront.Cpp.Lexicon
import LexFront.Proofs.Cpp.Numeral
import LexFront.Proofs.Cpp.Pieces

/-!
# The scanners of C++

Most scanners of C++ are plain: written for texts without splices, and run on the characters that
are left when the splices are gone. The others read the text as it stands: whitespace, which splices
belong to, line breaks, and raw strings, which keep their splices.

Every rule finds tokens that fit, with splices and without. Stable the rules are on texts without
splices only: a splice at the end of a window hides what the next line begins with.

Key facts:

* `fits_of_mem`: what a rule matches fits.
* `extends_of_mem`: without splices, what a rule says of a window goes for longer texts too.
* `keepsBreaks`: the lexicon keeps line breaks whole.
-/

set_option autoImplicit false

namespace LexFront.Cpp

/-! ### Blanks and splices -/

/-- Blanks and splices are a front of their text that ends at a seam, and none of them comes right
behind it. -/
theorem blankSize_spec (t : Text) : ∃ front back, t = front ++ back ∧
    blankSize t = Text.size front ∧ Text.Seam front back ∧ blankSize back = 0 := by
  -- What comes after a splice or a blank is put together with it.
  have hcons : ∀ (pre rest : Text) (n : Nat), pre ≠ [] → Text.Seam pre rest →
      (∃ front back, rest = front ++ back ∧ n = Text.size front ∧ Text.Seam front back ∧
        blankSize back = 0) →
      ∃ front back, pre ++ rest = front ++ back ∧ Text.size pre + n = Text.size front ∧
        Text.Seam front back ∧ blankSize back = 0 := by
    rintro pre rest n hne hseam ⟨front, back, rfl, rfl, hs, hback⟩
    refine ⟨pre ++ front, back, by simp, by simp, ?_, hback⟩
    by_cases hf : front = []
    · subst hf
      rw [List.append_nil]
      exact hseam
    · exact (Text.seam_append_left pre hf back).2 hs
  fun_induction blankSize t with
  | case1 rest ih =>
    exact hcons ['\\', '\r', '\n'] rest _ (by simp) (Text.seam_of_getLast? (by simp) _) ih
  | case2 rest hne ih =>
    refine hcons ['\\', '\r'] rest _ (by simp) (Text.seam_of_head? ?_ _) ih
    intro hh
    cases rest with
    | nil => cases hh
    | cons c rest => exact hne rest (by rw [Option.some.inj hh])
  | case3 rest ih =>
    exact hcons ['\\', '\n'] rest _ (by simp) (Text.seam_of_getLast? (by simp) _) ih
  | case4 c rest _ _ _ hc ih =>
    refine hcons [c] rest _ (by simp) (Text.seam_of_getLast? ?_ _) ih
    rw [List.getLast?_singleton, ne_eq, Option.some.injEq]
    rintro rfl
    cases hc
  | case5 c rest h₁ h₂ h₃ hc =>
    refine ⟨[], c :: rest, rfl, rfl, Text.seam_nil_left _, ?_⟩
    rw [blankSize, if_neg hc] <;> assumption
  | case6 => exact ⟨[], [], rfl, rfl, Text.seam_nil_left _, rfl⟩

theorem fits_scanWhitespace (t : Text) : Scan.Fits t (scanWhitespace t) := by
  obtain ⟨front, back, rfl, hn, hseam, -⟩ := blankSize_spec t
  rw [scanWhitespace, hn, Scan.ofSize]
  split
  · exact Scan.fits_noMatch
  · next hne =>
    refine Scan.fits_of_seam front back ?_ hseam
    rintro rfl
    exact hne rfl

theorem IsSpliceFree.blankSize_eq {t : Text} (h : IsSpliceFree t) :
    blankSize t = Text.prefixSize isBlank t := by
  induction t with
  | nil => rfl
  | cons c t ih =>
    have ht : IsSpliceFree t := h.of_infix (List.suffix_cons c t).isInfix
    have hhead := h.head?
    rw [blankSize, ih ht, Text.prefixSize, Text.prefixSize, List.takeWhile_cons]
    · split <;> rfl
    · rintro r hc rfl
      exact absurd (hhead hc _ rfl) (by decide)
    · rintro r hc rfl
      exact absurd (hhead hc _ rfl) (by decide)
    · rintro r hc rfl
      exact absurd (hhead hc _ rfl) (by decide)

theorem extends_scanWhitespace {w v : Text} (h : IsSpliceFree (w ++ v)) (hw : w.IsBroken) :
    Scan.Extends w (scanWhitespace w) (scanWhitespace (w ++ v)) := by
  have hw' : IsSpliceFree w := h.of_infix (List.prefix_append w v).isInfix
  have hlocal : Scan.IsLocal fun t ↦ .ofSize (Text.prefixSize isBlank t) := by
    refine Scan.isLocal_prefixSize fun c hc ↦ ?_
    rcases Text.isLineBreak_iff.1 hc with rfl | rfl <;> rfl
  rw [scanWhitespace, scanWhitespace, hw'.blankSize_eq, h.blankSize_eq]
  exact hlocal.extends hw v

/-! ### Comments and words -/

theorem scanLineComment_eq_noMatch {c : Char} (hc : c ≠ '/') (t : Text) :
    scanLineComment (c :: t) = .noMatch := by
  rw [scanLineComment]
  exact fun rest h ↦ hc (List.cons.inj h).1

theorem size_lineComment (rest : Text) : 2 + Text.restOfLineSize rest =
    Text.size ('/' :: '/' :: rest.takeWhile fun c ↦ !Text.isLineBreak c) := by
  have hslash : Char.utf8Size '/' = 1 := rfl
  rw [Text.size_cons, Text.size_cons, hslash, ← Nat.add_assoc]
  rfl

theorem isWithinLine_scanLineComment (t : Text) : Scan.IsWithinLine t (scanLineComment t) := by
  fun_cases scanLineComment t with
  | case1 rest =>
    rw [size_lineComment]
    refine Scan.isWithinLine_of_prefix _ ⟨rest.dropWhile fun c ↦ !Text.isLineBreak c, ?_⟩
      (by simp) ?_
    · rw [List.cons_append, List.cons_append, List.takeWhile_append_dropWhile]
    · rw [Text.isUnbroken_cons, Text.isUnbroken_cons]
      exact ⟨rfl, rfl, fun c hc ↦ by simpa using List.mem_takeWhile_imp hc⟩
  | case2 _ _ => exact Scan.isWithinLine_noMatch

theorem plain_scanLineComment : Plain (· == '/') scanLineComment where
  nil := rfl
  cons c t hc := scanLineComment_eq_noMatch (by simpa using hc) t
  fits t := (isWithinLine_scanLineComment t).fits

/-- Two characters tell whether a line comment begins, and it ends before its text does or not. -/
theorem scanLineComment_append {t : Text} (hnil : t ≠ []) (hslash : t ≠ ['/'])
    (h : scanLineComment t ≠ .matched (Text.size t)) (v : Text) :
    scanLineComment (t ++ v) = scanLineComment t := by
  match t with
  | [] => exact absurd rfl hnil
  | [c] =>
    have hc : c ≠ '/' := fun hc ↦ hslash (by rw [hc])
    rw [List.singleton_append, scanLineComment_eq_noMatch hc, scanLineComment_eq_noMatch hc]
  | c :: d :: t =>
    by_cases hcd : c = '/' ∧ d = '/'
    · obtain ⟨rfl, rfl⟩ := hcd
      have hstop : ∃ c ∈ t, (!Text.isLineBreak c) = false := by
        refine Text.exists_of_takeWhile_ne fun hself ↦ h ?_
        rw [scanLineComment, size_lineComment, hself]
      rw [List.cons_append, List.cons_append, scanLineComment, scanLineComment, Text.restOfLineSize,
        Text.restOfLineSize, Text.prefixSize, Text.prefixSize, Text.takeWhile_append_of_mem hstop]
    · have hnone : ∀ r, scanLineComment (c :: d :: r) = .noMatch := by
        intro r
        rw [scanLineComment]
        exact fun rest h ↦ hcd ⟨(List.cons.inj h).1, (List.cons.inj (List.cons.inj h).2).1⟩
      rw [List.cons_append, List.cons_append, hnone, hnone]

theorem scanBlockComment_eq_noMatch {c : Char} (hc : c ≠ '/') (t : Text) :
    scanBlockComment (c :: t) = .noMatch := by
  rw [scanBlockComment]
  exact fun rest h ↦ hc (List.cons.inj h).1

theorem fits_scanBlockComment (t : Text) : Scan.Fits t (scanBlockComment t) := by
  fun_cases scanBlockComment t with
  | case1 rest => exact (Scan.fits_through (by simp) (by simp)).after ['/', '*']
  | case2 _ _ => exact Scan.fits_noMatch

theorem plain_scanBlockComment : Plain (· == '/') scanBlockComment where
  nil := rfl
  cons c t hc := scanBlockComment_eq_noMatch (by simpa using hc) t
  fits := fits_scanBlockComment

/-- Two characters tell whether a comment begins, and it goes on until it is closed. -/
theorem extends_scanBlockComment {w : Text} (hnil : w ≠ []) (hslash : w ≠ ['/']) (v : Text) :
    Scan.Extends w (scanBlockComment w) (scanBlockComment (w ++ v)) := by
  match w with
  | [] => exact absurd rfl hnil
  | [c] =>
    have hc : c ≠ '/' := fun hc ↦ hslash (by rw [hc])
    rw [List.singleton_append, scanBlockComment_eq_noMatch hc, scanBlockComment_eq_noMatch hc]
    exact Scan.extends_of_eq (by simp) rfl
  | c :: d :: w =>
    by_cases hcd : c = '/' ∧ d = '*'
    · obtain ⟨rfl, rfl⟩ := hcd
      exact (Scan.extends_through ['*', '/'] w v).after ['/', '*']
    · have hnone : ∀ r, scanBlockComment (c :: d :: r) = .noMatch := by
        intro r
        rw [scanBlockComment]
        exact fun rest h ↦ hcd ⟨(List.cons.inj h).1, (List.cons.inj (List.cons.inj h).2).1⟩
      rw [List.cons_append, List.cons_append, hnone, hnone]
      exact Scan.extends_of_eq (by simp) rfl

theorem plain_scanIdentifier : Plain Text.isIdentifierStart scanIdentifier where
  nil := rfl
  cons c t hc := by
    rw [scanIdentifier, Text.identifier, if_neg (by simp [hc])]
    rfl
  fits t := (Text.isWithinLine_identifier t).fits

theorem isWithinLine_scanKeyword (t : Text) : Scan.IsWithinLine t (scanKeyword t) := by
  simp only [scanKeyword]
  split
  · exact Text.isWithinLine_identifier t
  · exact Scan.isWithinLine_noMatch

theorem plain_scanKeyword : Plain Text.isIdentifierStart scanKeyword where
  nil := by decide
  cons c t hc := by
    simp only [scanKeyword, Text.identifier, hc, Bool.false_eq_true, if_false]
    decide
  fits t := (isWithinLine_scanKeyword t).fits

theorem plain_scanNumeral (floating : Bool) : Plain Numeral.isStart (Numeral.scan floating) where
  nil := rfl
  cons c t hc := by
    have hstarts : Numeral.starts (c :: t) = false := by
      simp only [Numeral.isStart, Bool.or_eq_false_iff, beq_eq_false_iff_ne] at hc
      rw [Numeral.starts]
      · exact hc.1
      · exact fun _ _ h _ ↦ hc.2 h
    rw [Numeral.scan, if_neg (by simp [hstarts])]
  fits := Numeral.fits_scan floating

/-! ### Literals between quotes -/

/-- A text begins with an encoding prefix or with none. -/
theorem encoding_spec (t : Text) :
    ∃ e rest, t = e ++ rest ∧ encodingSize t = e.length ∧ (e = [] ∨ e ∈ encodings) := by
  cases h : encodings.find? (·.isPrefixOf t) with
  | none => exact ⟨[], t, rfl, by rw [encodingSize, h]; rfl, .inl rfl⟩
  | some e =>
    have hfront : e.isPrefixOf t = true := by simpa using List.find?_some h
    obtain ⟨rest, hrest⟩ := List.isPrefixOf_iff_prefix.1 hfront
    exact ⟨e, rest, hrest.symm, by rw [encodingSize, h]; rfl, .inr (List.mem_of_find?_eq_some h)⟩

/-- An encoding is made of characters of one byte. -/
theorem isPlainChar_of_encoding {e : Text} (he : e = [] ∨ e ∈ encodings) :
    ∀ c ∈ e, Numeral.IsPlainChar c := by
  have hascii : ∀ e ∈ encodings, e.all (fun c ↦ 32 ≤ c.val.toNat ∧ c.val.toNat ≤ 127) = true := by
    decide
  intro c hc
  rcases he with rfl | he
  · cases hc
  · obtain ⟨hlow, hhigh⟩ := of_decide_eq_true (List.all_eq_true.1 (hascii e he) c hc)
    exact Numeral.isPlainChar_of_val hlow hhigh

theorem isUnbroken_of_encoding {e : Text} (he : e = [] ∨ e ∈ encodings) : e.IsUnbroken := by
  intro c hc
  obtain ⟨-, hcr, hlf⟩ := isPlainChar_of_encoding he c hc
  simp [Text.isLineBreak, hcr, hlf]

theorem size_of_encoding {e : Text} (he : e = [] ∨ e ∈ encodings) : Text.size e = e.length :=
  Numeral.size_of_forall_isPlainChar (isPlainChar_of_encoding he)

/-- Two characters tell the encoding. -/
theorem encodingSize_append {t : Text} (hnil : t ≠ []) (hu : t ≠ ['u']) (v : Text) :
    encodingSize (t ++ v) = encodingSize t := by
  match t with
  | [] => exact absurd rfl hnil
  | [c] =>
    have hc : ('u' == c) = false := by
      rw [beq_eq_false_iff_ne]
      exact fun hc ↦ hu (by rw [hc])
    simp [encodingSize, encodings, List.find?, List.isPrefixOf, hc]
  | c :: d :: t => rfl

/-- A literal between quotes is scanned from the character behind its encoding on. -/
theorem scanQuoted_append_cons {quote : Char} {e rest : Text} {c : Char}
    (he : encodingSize (e ++ c :: rest) = e.length) : scanQuoted quote (e ++ c :: rest) =
      if c = quote then (Scan.throughQuote quote false rest).after (e.length + c.utf8Size)
      else .noMatch := by
  rw [scanQuoted]
  simp only [he, List.drop_left]

theorem scanQuoted_encoding {quote : Char} {e : Text} (he : encodingSize e = e.length) :
    scanQuoted quote e = .noMatch := by
  rw [scanQuoted]
  simp only [he, List.drop_length]

theorem isWithinLine_scanQuoted {quote : Char} (hq : Text.isLineBreak quote = false) (t : Text) :
    Scan.IsWithinLine t (scanQuoted quote t) := by
  obtain ⟨e, rest, rfl, hsize, he⟩ := encoding_spec t
  cases rest with
  | nil =>
    rw [List.append_nil] at hsize ⊢
    rw [scanQuoted_encoding hsize]
    exact Scan.isWithinLine_noMatch
  | cons c rest =>
    rw [scanQuoted_append_cons hsize]
    split
    · next hc =>
      have hpre : Text.IsUnbroken (e ++ [c]) := by
        intro d hd
        rcases List.mem_append.1 hd with hd | hd
        · exact isUnbroken_of_encoding he d hd
        · rw [List.mem_singleton.1 hd, hc]
          exact hq
      have hsize' : e.length + c.utf8Size = Text.size (e ++ [c]) := by
        rw [Text.size_append, size_of_encoding he, Text.size_cons, Text.size_nil, Nat.add_zero]
      rw [hsize', List.append_cons]
      exact (Scan.isWithinLine_throughQuote hq rest).after hpre
    · exact Scan.isWithinLine_noMatch

theorem plain_scanQuoted {quote : Char} (hq : Text.isLineBreak quote = false) :
    Plain (startsQuoted quote) (scanQuoted quote) where
  nil := scanQuoted_encoding rfl
  cons c t hc := by
    simp only [startsQuoted, Bool.or_eq_false_iff, beq_eq_false_iff_ne] at hc
    obtain ⟨⟨⟨hcq, hcu⟩, hcU⟩, hcL⟩ := hc
    have hu : ('u' == c) = false := beq_eq_false_iff_ne.2 (Ne.symm hcu)
    have hU : ('U' == c) = false := beq_eq_false_iff_ne.2 (Ne.symm hcU)
    have hL : ('L' == c) = false := beq_eq_false_iff_ne.2 (Ne.symm hcL)
    have hsize : encodingSize ([] ++ c :: t) = ([] : Text).length := by
      simp [encodingSize, encodings, List.find?, List.isPrefixOf, hu, hU, hL]
    have h : scanQuoted quote ([] ++ c :: t) = _ := scanQuoted_append_cons hsize
    rw [if_neg hcq] at h
    exact h
  fits t := (isWithinLine_scanQuoted hq t).fits

/-- Two characters tell the encoding, one more the quote, and the literal is closed or it is not. -/
theorem scanQuoted_append {quote : Char} {t : Text} (hnil : t ≠ []) (henc : t ∉ encodings)
    (h : scanQuoted quote t ≠ .needMore) (v : Text) :
    scanQuoted quote (t ++ v) = scanQuoted quote t := by
  have hu : t ≠ ['u'] := by
    rintro rfl
    exact henc (by decide)
  have hsize := encodingSize_append hnil hu v
  obtain ⟨e, rest, rfl, hsize', he⟩ := encoding_spec t
  cases rest with
  | nil =>
    rw [List.append_nil] at hnil henc
    rcases he with rfl | he
    · exact absurd rfl hnil
    · exact absurd he henc
  | cons c rest =>
    rw [hsize', List.append_assoc, List.cons_append] at hsize
    rw [scanQuoted_append_cons hsize'] at h ⊢
    rw [List.append_assoc, List.cons_append, scanQuoted_append_cons hsize]
    split
    · next hc =>
      rw [if_pos hc] at h
      have hrest : Scan.throughQuote quote false rest ≠ .needMore := fun hm ↦ h (by rw [hm]; rfl)
      rw [Scan.throughQuote_append hrest]
    · rfl

/-- A literal between quotes is settled by the end of its line. -/
theorem scanQuoted_ne_needMore {quote : Char} (hq : Text.isLineBreak quote = false) {t : Text}
    (ht : t.IsBroken) : scanQuoted quote t ≠ .needMore := by
  obtain ⟨e, rest, rfl, hsize, he⟩ := encoding_spec t
  cases rest with
  | nil =>
    rw [List.append_nil] at ht
    exact absurd (isUnbroken_of_encoding he) ht.not_isUnbroken
  | cons c rest =>
    rw [scanQuoted_append_cons hsize]
    split
    · next hc =>
      refine Scan.after_ne_needMore (Scan.throughQuote_ne_needMore ?_) _
      obtain ⟨b, hb, hbreak⟩ := ht
      rcases List.mem_append.1 hb with hb | hb
      · rw [isUnbroken_of_encoding he b hb] at hbreak
        cases hbreak
      · rcases List.mem_cons.1 hb with rfl | hb
        · rw [hc, hq] at hbreak
          cases hbreak
        · exact ⟨b, hb, hbreak⟩
    · simp

theorem not_mem_encodings {t : Text} (ht : t.IsBroken) : t ∉ encodings := fun he ↦
  ht.not_isUnbroken (isUnbroken_of_encoding (.inr he))

theorem extends_scanQuoted {quote : Char} (hq : Text.isLineBreak quote = false) {w : Text}
    (hw : w.IsBroken) (v : Text) :
    Scan.Extends w (scanQuoted quote w) (scanQuoted quote (w ++ v)) := by
  have hne := scanQuoted_ne_needMore hq hw
  exact Scan.extends_of_eq hne (scanQuoted_append hw.ne_nil (not_mem_encodings hw) hne v)

/-! ### Raw strings -/

theorem isLineBreak_not_isRawDelimiter (c : Char) (hc : Text.isLineBreak c = true) :
    isRawDelimiter c = false := by
  rcases Text.isLineBreak_iff.1 hc with rfl | rfl <;> rfl

theorem takeWhile_isRawDelimiter (d : Text) {rest : Text} (hd : ∀ c ∈ d, isRawDelimiter c = true)
    (hrest : ∀ c, rest.head? = some c → isRawDelimiter c = false) :
    (d ++ rest).takeWhile isRawDelimiter = d := by
  rw [List.takeWhile_append_of_pos hd]
  cases rest with
  | nil => simp
  | cons c rest => simp [hrest c rfl]

/-- What follows the quote of a raw string, taken apart at its delimiter. -/
theorem scanRawBody_paren (d content : Text) (hd : ∀ c ∈ d, isRawDelimiter c = true) :
    scanRawBody (d ++ '(' :: content) =
      if Text.size d ≤ 16 then (Scan.through (rawCloser d) content).after (Text.size (d ++ ['(']))
      else .noMatch := by
  have hrest : ∀ c, ('(' :: content).head? = some c → isRawDelimiter c = false := by
    rintro c hc
    rw [← Option.some.inj hc]
    rfl
  have hsize : Text.size d + 1 = Text.size (d ++ ['(']) := by
    rw [Text.size_append]
    rfl
  rw [scanRawBody]
  simp only [takeWhile_isRawDelimiter d hd hrest, List.drop_left, hsize]

theorem scanRawBody_eq_noMatch (d rest : Text) (hd : ∀ c ∈ d, isRawDelimiter c = true)
    (hrest : ∀ c, rest.head? = some c → isRawDelimiter c = false) (h : rest.head? ≠ some '(') :
    scanRawBody (d ++ rest) = .noMatch := by
  rw [scanRawBody]
  simp only [takeWhile_isRawDelimiter d hd hrest, List.drop_left]
  split
  · exact absurd rfl h
  · rfl

theorem rawBody_spec (t : Text) :
    ∃ d rest, t = d ++ rest ∧ (∀ c ∈ d, isRawDelimiter c = true) ∧
      ∀ c, rest.head? = some c → isRawDelimiter c = false := by
  refine ⟨t.takeWhile isRawDelimiter, t.dropWhile isRawDelimiter,
    (List.takeWhile_append_dropWhile).symm, fun c hc ↦ List.mem_takeWhile_imp hc, fun c hc ↦ ?_⟩
  have hne : t.dropWhile isRawDelimiter ≠ [] := by
    intro hnil
    rw [hnil] at hc
    cases hc
  have hhead := List.head_dropWhile_not isRawDelimiter hne
  rw [List.head?_eq_some_head hne, Option.some.injEq] at hc
  rw [hc] at hhead
  exact hhead

theorem fits_scanRawBody (t : Text) : Scan.Fits t (scanRawBody t) := by
  obtain ⟨d, rest, rfl, hd, hrest⟩ := rawBody_spec t
  by_cases hp : rest.head? = some '('
  · obtain ⟨content, rfl⟩ := List.head?_eq_some_iff.1 hp
    rw [scanRawBody_paren d content hd]
    split
    · have hcloser : (rawCloser d).getLast? ≠ some '\r' := by
        rw [rawCloser, ← List.cons_append, Text.getLast?_append_of_ne_nil _ (by simp)]
        simp
      rw [List.append_cons]
      exact (Scan.fits_through (by simp [rawCloser]) hcloser).after _
    · exact Scan.fits_noMatch
  · rw [scanRawBody_eq_noMatch d rest hd hrest hp]
    exact Scan.fits_noMatch

/-- The end of the line tells the delimiter, and the string goes on until it is closed. -/
theorem extends_scanRawBody {w : Text} (hw : w.IsBroken) (v : Text) :
    Scan.Extends w (scanRawBody w) (scanRawBody (w ++ v)) := by
  obtain ⟨d, rest, rfl, hd, hrest⟩ := rawBody_spec w
  have hne : rest ≠ [] := by
    rintro rfl
    obtain ⟨b, hb, hbreak⟩ := hw
    rw [List.append_nil] at hb
    have hdelimiter := hd b hb
    rw [isLineBreak_not_isRawDelimiter b hbreak] at hdelimiter
    cases hdelimiter
  have hhead := Text.head?_append_of_ne_nil hne v
  rw [List.append_assoc]
  by_cases hp : rest.head? = some '('
  · obtain ⟨content, rfl⟩ := List.head?_eq_some_iff.1 hp
    rw [List.cons_append, scanRawBody_paren d content hd, scanRawBody_paren d _ hd]
    split
    · rw [List.append_cons]
      exact (Scan.extends_through _ content v).after _
    · exact Scan.extends_of_eq (by simp) rfl
  · rw [scanRawBody_eq_noMatch d rest hd hrest hp,
      scanRawBody_eq_noMatch d _ hd (hhead ▸ hrest) (hhead ▸ hp)]
    exact Scan.extends_of_eq (by simp) rfl

/-! ### Strings -/

theorem scanString_raw {e rest : Text} (he : encodingSize (e ++ 'R' :: '"' :: rest) = e.length) :
    scanString (e ++ 'R' :: '"' :: rest) = (scanRawBody rest).after (e.length + 2) := by
  rw [scanString]
  simp only [he, List.drop_left]

/-- A string that is not raw is a literal between quotes. -/
theorem scanString_quoted {t : Text} (h : ∀ rest, t.drop (encodingSize t) ≠ 'R' :: '"' :: rest) :
    scanString t = scanSpliced false (startsQuoted '"') (scanQuoted '"') t := by
  rw [scanString]
  split
  · next rest hrest => exact absurd hrest (h rest)
  · rfl

theorem size_rawOpener {e : Text} (he : e = [] ∨ e ∈ encodings) :
    e.length + 2 = Text.size (e ++ ['R', '"']) := by
  rw [Text.size_append, size_of_encoding he]
  rfl

theorem append_rawOpener (e rest : Text) : e ++ 'R' :: '"' :: rest = e ++ ['R', '"'] ++ rest := by
  simp

theorem plain_scanCharacter : Plain (startsQuoted '\'') (scanQuoted '\'') := plain_scanQuoted rfl

theorem plain_scanString : Plain (startsQuoted '"') (scanQuoted '"') := plain_scanQuoted rfl

theorem fits_scanString (t : Text) : Scan.Fits t (scanString t) := by
  by_cases h : ∃ rest, t.drop (encodingSize t) = 'R' :: '"' :: rest
  · obtain ⟨rest, hrest⟩ := h
    obtain ⟨e, r, rfl, hsize, he⟩ := encoding_spec t
    rw [hsize, List.drop_left] at hrest
    subst hrest
    rw [scanString_raw hsize, size_rawOpener he, append_rawOpener]
    exact (fits_scanRawBody rest).after _
  · rw [scanString_quoted fun rest hrest ↦ h ⟨rest, hrest⟩]
    exact plain_scanString.fits_scanSpliced false t

/-- Without splices, the end of the line tells what a string is, and only a raw one may go on. -/
theorem extends_scanString {w v : Text} (hwv : IsSpliceFree (w ++ v)) (hw : w.IsBroken) :
    Scan.Extends w (scanString w) (scanString (w ++ v)) := by
  have hu : w ≠ ['u'] := by
    rintro rfl
    exact hw.not_isUnbroken (isUnbroken_of_encoding (.inr (by decide)))
  have hsize := encodingSize_append hw.ne_nil hu v
  have hquoted : IsSpliceFree w := hwv.of_infix (List.prefix_append w v).isInfix
  obtain ⟨e, rest, rfl, hsize', he⟩ := encoding_spec w
  have hrest : rest.IsBroken := by
    obtain ⟨b, hb, hbreak⟩ := hw
    rcases List.mem_append.1 hb with hb | hb
    · rw [isUnbroken_of_encoding he b hb] at hbreak
      cases hbreak
    · exact ⟨b, hb, hbreak⟩
  by_cases h : ∃ r, rest = 'R' :: '"' :: r
  · obtain ⟨r, rfl⟩ := h
    rw [hsize', List.append_assoc, List.cons_append, List.cons_append] at hsize
    rw [scanString_raw hsize', List.append_assoc, List.cons_append, List.cons_append,
      scanString_raw hsize, size_rawOpener he, append_rawOpener]
    rw [Text.isBroken_cons rfl, Text.isBroken_cons rfl] at hrest
    exact (extends_scanRawBody hrest v).after _
  · have hno : ∀ r, (e ++ rest).drop (encodingSize (e ++ rest)) ≠ 'R' :: '"' :: r := by
      intro r hr
      rw [hsize', List.drop_left] at hr
      exact h ⟨r, hr⟩
    have hno' : ∀ r, (e ++ rest ++ v).drop (encodingSize (e ++ rest ++ v)) ≠ 'R' :: '"' :: r := by
      intro r hr
      rw [hsize, hsize', List.append_assoc, List.drop_left] at hr
      match rest with
      | [] => exact hrest.ne_nil rfl
      | [c] =>
        obtain ⟨rfl, -⟩ := List.cons.inj hr
        exact hrest.not_isUnbroken (by simp [Text.isLineBreak])
      | c :: d :: rest =>
        obtain ⟨rfl, hd⟩ := List.cons.inj hr
        obtain ⟨rfl, -⟩ := List.cons.inj hd
        exact h ⟨rest, rfl⟩
    rw [scanString_quoted hno, scanString_quoted hno',
      plain_scanString.scanSpliced_of_isSpliceFree false hquoted,
      plain_scanString.scanSpliced_of_isSpliceFree false hwv]
    exact extends_scanQuoted rfl hw v

/-! ### Operators -/

theorem foldl_max_spec {α : Type} (f : α → Nat) (xs : List α) (n : Nat) :
    n ≤ xs.foldl (fun m x ↦ max m (f x)) n ∧ (∀ x ∈ xs, f x ≤ xs.foldl (fun m x ↦ max m (f x)) n) ∧
      (xs.foldl (fun m x ↦ max m (f x)) n = n ∨
        ∃ x ∈ xs, xs.foldl (fun m x ↦ max m (f x)) n = f x) := by
  induction xs generalizing n with
  | nil => exact ⟨Nat.le_refl _, by simp, .inl rfl⟩
  | cons x xs ih =>
    obtain ⟨hle, hall, hex⟩ := ih (max n (f x))
    rw [List.foldl_cons]
    refine ⟨(Nat.le_max_left _ _).trans hle,
      List.forall_mem_cons.2 ⟨(Nat.le_max_right _ _).trans hle, hall⟩, ?_⟩
    rcases hex with h | ⟨y, hy, h⟩
    · rcases Nat.le_total n (f x) with hn | hn
      · exact .inr ⟨x, List.mem_cons_self, by rw [h, Nat.max_eq_right hn]⟩
      · exact .inl (by rw [h, Nat.max_eq_left hn])
    · exact .inr ⟨y, List.mem_cons_of_mem _ hy, h⟩

/-- The longest punctuator at the start of a text, none if there is none. -/
theorem scanOperator_spec (t : Text) :
    ∃ n, scanOperator t = .ofSize n ∧
      (∀ op ∈ operators.map String.toList, op <+: t → Text.size op ≤ n) ∧
      (n = 0 ∨ ∃ op ∈ operators.map String.toList, op <+: t ∧ n = Text.size op) := by
  obtain ⟨-, hall, hex⟩ := foldl_max_spec Text.size
    ((operators.map String.toList).filter (·.isPrefixOf t)) 0
  refine ⟨_, rfl, fun op hop hp ↦ hall op ?_, ?_⟩
  · exact List.mem_filter.2 ⟨hop, List.isPrefixOf_iff_prefix.2 hp⟩
  · refine hex.imp id ?_
    rintro ⟨op, hop, hn⟩
    obtain ⟨hop, hp⟩ := List.mem_filter.1 hop
    exact ⟨op, hop, List.isPrefixOf_iff_prefix.1 hp, hn⟩

theorem scanOperator_congr {t t' : Text}
    (h : ∀ op ∈ operators.map String.toList, op <+: t ↔ op <+: t') :
    scanOperator t = scanOperator t' := by
  have hfilter : (operators.map String.toList).filter (·.isPrefixOf t) =
      (operators.map String.toList).filter (·.isPrefixOf t') := by
    refine List.filter_congr fun op hop ↦ ?_
    rw [Bool.eq_iff_iff, List.isPrefixOf_iff_prefix, List.isPrefixOf_iff_prefix]
    exact h op hop
  rw [scanOperator, hfilter, scanOperator]

theorem isUnbroken_of_operator {op : Text} (hop : op ∈ operators.map String.toList) :
    op.IsUnbroken := by
  have hall : ∀ op ∈ operators.map String.toList, op.all (fun c ↦ !Text.isLineBreak c) = true := by
    decide
  intro c hc
  simpa using List.all_eq_true.1 (hall op hop) c hc

theorem isWithinLine_scanOperator (t : Text) : Scan.IsWithinLine t (scanOperator t) := by
  obtain ⟨n, hscan, -, rfl | ⟨op, hop, hp, rfl⟩⟩ := scanOperator_spec t
  · rw [hscan]
    exact Scan.isWithinLine_noMatch
  · rw [hscan]
    exact Scan.isWithinLine_ofText hp (isUnbroken_of_operator hop)

theorem plain_scanOperator : Plain operatorStarts.contains scanOperator where
  nil := by decide
  cons c t hc := by
    obtain ⟨n, hscan, -, rfl | ⟨op, hop, hp, rfl⟩⟩ := scanOperator_spec (c :: t)
    · exact hscan
    · have hstart : ∀ op ∈ operators.map String.toList, op.head?.any operatorStarts.contains := by
        decide
      have hhead := hstart op hop
      cases op with
      | nil => cases hhead
      | cons d op =>
        obtain ⟨rfl, -⟩ := List.cons_prefix_cons.1 hp
        rw [List.head?_cons, Option.any_some, hc] at hhead
        cases hhead
  fits t := (isWithinLine_scanOperator t).fits

/-- No punctuator goes over the end of its line. -/
theorem scanOperator_append {w : Text} (hw : w.IsBroken) (v : Text) :
    scanOperator (w ++ v) = scanOperator w := by
  refine scanOperator_congr fun op hop ↦ ⟨fun hp ↦ ?_, fun hp ↦ hp.trans (List.prefix_append w v)⟩
  rcases List.prefix_or_prefix_of_prefix hp (List.prefix_append w v) with h | ⟨r, rfl⟩
  · exact h
  · exact absurd (fun c hc ↦ isUnbroken_of_operator hop c (List.mem_append_left r hc))
      hw.not_isUnbroken

/-! ### The lexicon -/

/-- **What a rule matches fits**, with splices or without. -/
theorem fits_of_mem {r : Rule Kind} (hr : r ∈ lexicon.rules) (t : Text) :
    Scan.Fits t (r.scan t) := by
  simp only [lexicon, List.mem_cons, List.not_mem_nil, or_false] at hr
  rcases hr with rfl | rfl | rfl | rfl | rfl | rfl | rfl | rfl | rfl | rfl | rfl
  · exact fits_scanWhitespace t
  · exact Text.fits_lineBreakSize t
  · exact plain_scanLineComment.fits_scanSpliced true t
  · exact plain_scanBlockComment.fits_scanSpliced false t
  · exact plain_scanKeyword.fits_scanSpliced true t
  · exact plain_scanIdentifier.fits_scanSpliced true t
  · exact (plain_scanNumeral false).fits_scanSpliced true t
  · exact (plain_scanNumeral true).fits_scanSpliced true t
  · exact (plain_scanQuoted rfl).fits_scanSpliced false t
  · exact fits_scanString t
  · exact plain_scanOperator.fits_scanSpliced true t

/-- **The lexicon keeps line breaks whole.** -/
theorem keepsBreaks : Lexicon.KeepsBreaks lexicon.rules where
  fits _ hr := fits_of_mem hr
  recognizes := ⟨⟨.newline, scanNewline, id⟩, by simp [lexicon],
    fun _ hc ↦ Text.lineBreakSize_ne_noMatch hc⟩

theorem scanNumeral_ne_needMore (floating : Bool) (t : Text) :
    Numeral.scan floating t ≠ .needMore := by
  rw [Numeral.scan_eq]
  split <;> simp

theorem scanLineComment_ne_needMore (t : Text) : scanLineComment t ≠ .needMore := by
  fun_cases scanLineComment t <;> simp

theorem scanKeyword_ne_needMore (t : Text) : scanKeyword t ≠ .needMore := by
  simp only [scanKeyword]
  split
  · exact Scan.ofSize_ne_needMore _
  · simp

theorem ne_singleton_of_isBroken {t : Text} (ht : t.IsBroken) {c : Char}
    (hc : Text.isLineBreak c = false) : t ≠ [c] := by
  rintro rfl
  exact ht.not_isUnbroken (by simpa using hc)

theorem identifier_append_of_isBroken {w : Text} (hw : w.IsBroken) (v : Text) :
    Text.identifier (w ++ v) = Text.identifier w := by
  rw [← Text.identifier_line (w ++ v), Text.line_append hw, Text.identifier_line]

/-- **Without splices, what a rule says of a window goes for every text that begins with it**, if
the window shows some line to its end. -/
theorem extends_of_mem {r : Rule Kind} (hr : r ∈ lexicon.rules) {w v : Text}
    (hwv : IsSpliceFree (w ++ v)) (hw : w.IsBroken) (hseam : Text.Seam w v) :
    Scan.Extends w (r.scan w) (r.scan (w ++ v)) := by
  have hwf : IsSpliceFree w := hwv.of_infix (List.prefix_append w v).isInfix
  -- Without splices a plain scanner is run on the window and on the text as they are.
  have hplain : ∀ {starts : Char → Bool} {scan : Text → Scan} (extendable : Bool),
      Plain starts scan → Scan.Extends w (scan w) (scan (w ++ v)) →
      Scan.Extends w (scanSpliced extendable starts scan w)
        (scanSpliced extendable starts scan (w ++ v)) := by
    intro starts scan extendable hp he
    rwa [hp.scanSpliced_of_isSpliceFree extendable hwf,
      hp.scanSpliced_of_isSpliceFree extendable hwv]
  have hslash : w ≠ ['/'] := ne_singleton_of_isBroken hw rfl
  simp only [lexicon, List.mem_cons, List.not_mem_nil, or_false] at hr
  rcases hr with rfl | rfl | rfl | rfl | rfl | rfl | rfl | rfl | rfl | rfl | rfl
  · exact extends_scanWhitespace hwv hw
  · refine Scan.extends_of_eq (Scan.ofSize_ne_needMore _) ?_
    exact congrArg Scan.ofSize (Text.lineBreakSize_append hw.ne_nil hseam)
  · refine hplain true plain_scanLineComment (Scan.extends_of_eq (scanLineComment_ne_needMore w) ?_)
    refine scanLineComment_append hw.ne_nil hslash (fun h ↦ ?_) v
    exact absurd ((isWithinLine_scanLineComment w).size_lt hw h) (Nat.lt_irrefl _)
  · exact hplain false plain_scanBlockComment (extends_scanBlockComment hw.ne_nil hslash v)
  · refine hplain true plain_scanKeyword (Scan.extends_of_eq (scanKeyword_ne_needMore w) ?_)
    rw [scanKeyword, identifier_append_of_isBroken hw, scanKeyword]
  · refine hplain true plain_scanIdentifier (Scan.extends_of_eq (Scan.ofSize_ne_needMore _) ?_)
    rw [scanIdentifier, identifier_append_of_isBroken hw, scanIdentifier]
  · exact hplain true (plain_scanNumeral false)
      (Scan.extends_of_eq (scanNumeral_ne_needMore false w) (Numeral.scan_append hw false v))
  · exact hplain true (plain_scanNumeral true)
      (Scan.extends_of_eq (scanNumeral_ne_needMore true w) (Numeral.scan_append hw true v))
  · exact hplain false (plain_scanQuoted rfl) (extends_scanQuoted rfl hw v)
  · exact extends_scanString hwv hw
  · exact hplain true plain_scanOperator
      (Scan.extends_of_eq (Scan.ofSize_ne_needMore _) (scanOperator_append hw v))

end LexFront.Cpp
