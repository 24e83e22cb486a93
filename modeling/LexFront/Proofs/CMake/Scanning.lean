import LexFront.CMake.Lexicon
import LexFront.Proofs.Lexicon.Matching

/-!
# The scanners of CMake

Every rule finds tokens that fit: not empty, cut off between two characters, and not between a
carriage return and its line feed. Every rule is stable: brackets and quoted arguments ask for more
until they are closed, a line break may be one character longer than what is seen of it, and all
others end with their line.

Key facts:

* `fits_of_mem`: what a rule matches fits.
* `extends_of_mem`: what a rule says of a window goes for longer texts too.
* `keepsBreaks`: the lexicon keeps line breaks whole.
-/

set_option autoImplicit false

namespace LexFront

namespace CMake

/-! ### Brackets -/

theorem size_opener (n : Nat) : Text.size (opener n) = n + 2 := by
  have hreplicate : ∀ n, Text.size (List.replicate n '=') = n := by
    intro n
    induction n with
    | zero => rfl
    | succ n ih =>
      rw [List.replicate_succ, Text.size_cons, ih, Nat.add_comm]
      rfl
  have hbracket : Char.utf8Size '[' = 1 := rfl
  rw [opener, Text.size_cons, Text.size_append, hreplicate, Text.size_cons, Text.size_nil, hbracket]
  omega

theorem level?_cons {c : Char} (hc : c ≠ '[') (t : Text) : level? (c :: t) = none := by
  rw [level?]
  exact fun rest h ↦ hc (List.cons.inj h).1

/-- A text that has a level begins with the opener of that level. -/
theorem append_of_level? {t : Text} {n : Nat} (h : level? t = some n) :
    ∃ rest, t = opener n ++ rest := by
  cases t with
  | nil => cases h
  | cons c t =>
    by_cases hc : c = '['
    · rw [hc, level?] at h
      split at h
      · next hd =>
        obtain rfl := Option.some.inj h
        obtain ⟨rest, hrest⟩ : ∃ rest, t.dropWhile (· == '=') = '[' :: rest := by
          cases hdrop : t.dropWhile (· == '=') with
          | nil => simp [hdrop] at hd
          | cons d rest =>
            rw [hdrop, List.head?_cons, Option.some.injEq] at hd
            exact ⟨rest, by rw [hd]⟩
        have htake : t.takeWhile (· == '=') =
            List.replicate (t.takeWhile (· == '=')).length '=' := by
          refine List.eq_replicate_iff.2 ⟨rfl, fun d hd ↦ ?_⟩
          simpa using List.mem_takeWhile_imp hd
        refine ⟨rest, ?_⟩
        rw [hc, opener, ← htake, List.cons_append, List.append_assoc, List.singleton_append,
          ← hrest, List.takeWhile_append_dropWhile]
      · cases h
    · rw [level?_cons hc] at h
      cases h

theorem level?_line (t : Text) : level? (Text.line t) = level? t := by
  cases t with
  | nil => rfl
  | cons c t =>
    by_cases hc : c = '['
    · subst hc
      have hbreak : ∀ c, Text.isLineBreak c = true → (c == '=') = false := by
        intro c hc
        rcases Text.isLineBreak_iff.1 hc with rfl | rfl <;> rfl
      have hhead : ((Text.line t).dropWhile (· == '=')).head? = some '[' ↔
          (t.dropWhile (· == '=')).head? = some '[' := by
        induction t with
        | nil => rfl
        | cons d t ih =>
          cases hd : Text.isLineBreak d with
          | true =>
            rw [Text.line_cons_of_isLineBreak hd, List.dropWhile_cons,
              if_neg (by simp [hbreak d hd])]
            rcases Text.isLineBreak_iff.1 hd with rfl | rfl <;> simp
          | false =>
            rw [Text.line_cons hd, List.dropWhile_cons, List.dropWhile_cons]
            split
            · exact ih
            · simp
      rw [Text.line_cons rfl, level?, level?, Text.takeWhile_line hbreak]
      simp only [hhead]
    · cases hb : Text.isLineBreak c with
      | true => rw [Text.line_cons_of_isLineBreak hb, level?_cons hc]; rfl
      | false => rw [Text.line_cons hb, level?_cons hc, level?_cons hc]

theorem level?_append {w : Text} (hw : w.IsBroken) (v : Text) : level? (w ++ v) = level? w := by
  rw [← level?_line (w ++ v), Text.line_append hw, level?_line]

theorem scanBracket_of_level? {n : Nat} {rest : Text} :
    scanBracket (opener n ++ rest) =
      (Scan.through (closer n) rest).after (Text.size (opener n)) := by
  have hlength : (opener n).length = n + 2 := by simp [opener]
  rw [scanBracket, level?_opener]
  simp only
  rw [← hlength, List.drop_left, size_opener, hlength]

theorem closer_ne_nil (n : Nat) : closer n ≠ [] := by simp [closer]

theorem getLast?_closer (n : Nat) : (closer n).getLast? = some ']' := by
  rw [closer, ← List.cons_append, Text.getLast?_append_of_ne_nil _ (by simp)]
  rfl

theorem fits_scanBracket (t : Text) : Scan.Fits t (scanBracket t) := by
  cases h : level? t with
  | none =>
    rw [scanBracket, h]
    exact Scan.fits_noMatch
  | some n =>
    obtain ⟨rest, rfl⟩ := append_of_level? h
    rw [scanBracket_of_level?]
    exact (Scan.fits_through (closer_ne_nil n) (by rw [getLast?_closer]; simp)).after _

theorem extends_scanBracket {w : Text} (hw : w.IsBroken) (v : Text) :
    Scan.Extends w (scanBracket w) (scanBracket (w ++ v)) := by
  cases h : level? w with
  | none =>
    rw [scanBracket, h, scanBracket, level?_append hw, h]
    exact Scan.extends_of_eq (by simp) rfl
  | some n =>
    obtain ⟨rest, rfl⟩ := append_of_level? h
    rw [List.append_assoc, scanBracket_of_level?, scanBracket_of_level?]
    exact (Scan.extends_through (closer n) rest v).after _

/-! ### Unquoted arguments -/

theorem unquotedSize_cons {c : Char} (hq : c ≠ '"') (hb : c ≠ '\\') (started : Bool) (t : Text) :
    unquotedSize started (c :: t) =
      if endsUnquoted c then 0 else c.utf8Size + unquotedSize true t := by
  rw [unquotedSize]
  · exact fun h ↦ hq h
  · exact fun h _ ↦ hb h
  · exact fun _ _ h _ ↦ hb h

theorem segmentSize_cons {c : Char} (hq : c ≠ '"') (hb : c ≠ '\\') (t : Text) :
    segmentSize (c :: t) =
      if Text.isLineBreak c then none else (segmentSize t).map (c.utf8Size + ·) := by
  rw [segmentSize]
  · exact fun h ↦ hq h
  · exact fun h _ ↦ hb h
  · exact fun _ _ h _ ↦ hb h

theorem unquotedSize_isLineBreak {c : Char} (hc : Text.isLineBreak c = true) (started : Bool)
    (t : Text) : unquotedSize started (c :: t) = 0 ∧ segmentSize (c :: t) = none := by
  rcases Text.isLineBreak_iff.1 hc with rfl | rfl
  · rw [unquotedSize_cons (by decide) (by decide), segmentSize_cons (by decide) (by decide)]
    exact ⟨rfl, rfl⟩
  · rw [unquotedSize_cons (by decide) (by decide), segmentSize_cons (by decide) (by decide)]
    exact ⟨rfl, rfl⟩

/-- Neither an argument nor a segment of one goes beyond its line. -/
theorem unquotedSize_line (t : Text) :
    (∀ started, unquotedSize started (Text.line t) = unquotedSize started t) ∧
      segmentSize (Text.line t) = segmentSize t := by
  induction t using Text.escape_induction with
  | nil => exact ⟨fun _ ↦ rfl, rfl⟩
  | lone => exact ⟨fun _ ↦ rfl, rfl⟩
  | escape c rest ih =>
    obtain ⟨hargument, hsegment⟩ := ih
    rw [Text.line_cons rfl]
    cases hc : Text.isLineBreak c with
    | true =>
      rw [Text.line_cons_of_isLineBreak hc]
      exact ⟨fun started ↦ by simp [unquotedSize, hc], by simp [segmentSize, hc]⟩
    | false =>
      rw [Text.line_cons hc]
      refine ⟨fun started ↦ ?_, ?_⟩
      · rw [unquotedSize, unquotedSize, hargument]
      · rw [segmentSize, segmentSize, hsegment]
  | cons c rest hb ih =>
    obtain ⟨hargument, hsegment⟩ := ih
    cases hc : Text.isLineBreak c with
    | true =>
      rw [Text.line_cons_of_isLineBreak hc]
      refine ⟨fun started ↦ ?_, ?_⟩
      · rw [(unquotedSize_isLineBreak hc started rest).1]
        rfl
      · rw [(unquotedSize_isLineBreak hc true rest).2]
        rfl
    | false =>
      rw [Text.line_cons hc]
      by_cases hq : c = '"'
      · subst hq
        refine ⟨fun started ↦ ?_, ?_⟩
        · rw [unquotedSize, unquotedSize, hsegment]
        · rw [segmentSize, segmentSize, hargument]
      · refine ⟨fun started ↦ ?_, ?_⟩
        · rw [unquotedSize_cons hq hb, unquotedSize_cons hq hb, hargument]
        · rw [segmentSize_cons hq hb, segmentSize_cons hq hb, hsegment]

/-- A size is that of a front without a carriage return. -/
def IsFrontSize (t : Text) (n : Nat) : Prop :=
  ∃ front, front <+: t ∧ n = Text.size front ∧ ∀ c ∈ front, c ≠ '\r'

theorem isFrontSize_zero (t : Text) : IsFrontSize t 0 := ⟨[], List.nil_prefix, rfl, by simp⟩

theorem IsFrontSize.cons {t : Text} {n : Nat} (h : IsFrontSize t n) {c : Char} (hc : c ≠ '\r') :
    IsFrontSize (c :: t) (c.utf8Size + n) := by
  obtain ⟨front, hfront, rfl, hcr⟩ := h
  exact ⟨c :: front, List.cons_prefix_cons.2 ⟨rfl, hfront⟩, rfl,
    List.forall_mem_cons.2 ⟨hc, hcr⟩⟩

/-- An argument is a front of its text, and so is a segment, both within one line. -/
theorem isFrontSize_unquotedSize (t : Text) :
    (∀ started, IsFrontSize t (unquotedSize started t)) ∧
      ∀ n, segmentSize t = some n → IsFrontSize t n := by
  induction t using Text.escape_induction with
  | nil => exact ⟨fun started ↦ isFrontSize_zero _, fun n hn ↦ by cases hn⟩
  | lone =>
    refine ⟨fun started ↦ ?_, fun n hn ↦ by cases hn⟩
    exact (isFrontSize_zero []).cons (c := '\\') (by decide)
  | escape c rest ih =>
    obtain ⟨hargument, hsegment⟩ := ih
    have hone : Char.utf8Size '\\' = 1 := rfl
    cases hc : Text.isLineBreak c with
    | true =>
      refine ⟨fun started ↦ ?_, fun n hn ↦ ?_⟩
      · rw [unquotedSize, if_pos hc]
        exact (isFrontSize_zero _).cons (c := '\\') (by decide)
      · rw [segmentSize, if_pos hc] at hn
        cases hn
    | false =>
      refine ⟨fun started ↦ ?_, fun n hn ↦ ?_⟩
      · have h :=
          ((hargument true).cons (Text.ne_return_of_isLineBreak hc)).cons (c := '\\') (by decide)
        rw [unquotedSize, if_neg (by simp [hc]), Nat.add_assoc]
        exact h
      · rw [segmentSize, if_neg (by simp [hc])] at hn
        obtain ⟨m, hm, rfl⟩ := Option.map_eq_some_iff.1 hn
        have h :=
          ((hsegment m hm).cons (Text.ne_return_of_isLineBreak hc)).cons (c := '\\') (by decide)
        rw [Nat.add_assoc]
        exact h
  | cons c rest hb ih =>
    obtain ⟨hargument, hsegment⟩ := ih
    cases hc : Text.isLineBreak c with
    | true =>
      refine ⟨fun started ↦ ?_, fun n hn ↦ ?_⟩
      · rw [(unquotedSize_isLineBreak hc started rest).1]
        exact isFrontSize_zero _
      · rw [(unquotedSize_isLineBreak hc true rest).2] at hn
        cases hn
    | false =>
      by_cases hq : c = '"'
      · subst hq
        refine ⟨fun started ↦ ?_, fun n hn ↦ ?_⟩
        · rw [unquotedSize]
          split
          · cases hs : segmentSize rest with
            | none => exact isFrontSize_zero _
            | some m => exact (hsegment m hs).cons (c := '"') (by decide)
          · exact isFrontSize_zero _
        · rw [segmentSize] at hn
          obtain rfl := Option.some.inj hn
          exact (hargument true).cons (c := '"') (by decide)
      · refine ⟨fun started ↦ ?_, fun n hn ↦ ?_⟩
        · rw [unquotedSize_cons hq hb]
          split
          · exact isFrontSize_zero _
          · exact (hargument true).cons (Text.ne_return_of_isLineBreak hc)
        · rw [segmentSize_cons hq hb, if_neg (by simp [hc])] at hn
          obtain ⟨m, hm, rfl⟩ := Option.map_eq_some_iff.1 hn
          exact (hsegment m hm).cons (Text.ne_return_of_isLineBreak hc)

theorem fits_scanUnquoted (t : Text) : Scan.Fits t (scanUnquoted t) := by
  obtain ⟨front, hfront, hn, hcr⟩ := (isFrontSize_unquotedSize t).1 false
  rw [scanUnquoted, hn]
  exact Scan.fits_ofText hfront hcr

theorem isLocal_scanUnquoted : Scan.IsLocal scanUnquoted where
  line t := by rw [scanUnquoted, (unquotedSize_line t).1, scanUnquoted]
  ne_needMore t := Scan.ofSize_ne_needMore _

/-! ### Comments, words and single characters -/

theorem fits_scanLineComment (t : Text) : Scan.Fits t (scanLineComment t) := by
  fun_cases scanLineComment t with
  | case1 rest _ =>
    have hsize : 1 + Text.restOfLineSize rest =
        Text.size ('#' :: rest.takeWhile fun c ↦ !Text.isLineBreak c) := rfl
    rw [hsize]
    refine Scan.fits_of_prefix _ (List.cons_prefix_cons.2 ⟨rfl, List.takeWhile_prefix _⟩)
      (by simp) ?_
    intro c hc
    rcases List.mem_cons.1 hc with rfl | hc
    · decide
    · exact Text.ne_return_of_isLineBreak (by simpa using List.mem_takeWhile_imp hc)
  | case2 _ _ => exact Scan.fits_noMatch
  | case3 _ _ => exact Scan.fits_noMatch

theorem isLocal_scanLineComment : Scan.IsLocal scanLineComment where
  line t := by
    cases t with
    | nil => rfl
    | cons c rest =>
      by_cases hc : c = '#'
      · subst hc
        have hrest : Text.restOfLineSize (Text.line rest) = Text.restOfLineSize rest := by
          rw [Text.restOfLineSize, Text.prefixSize, Text.takeWhile_line (by simp),
            Text.restOfLineSize, Text.prefixSize]
        rw [Text.line_cons rfl, scanLineComment, scanLineComment, level?_line, hrest]
      · have hnone : ∀ t, scanLineComment (c :: t) = .noMatch := by
          intro t
          rw [scanLineComment]
          exact fun rest h ↦ hc (List.cons.inj h).1
        cases hb : Text.isLineBreak c with
        | true => rw [Text.line_cons_of_isLineBreak hb, hnone]; rfl
        | false => rw [Text.line_cons hb, hnone, hnone]
  ne_needMore t := by
    fun_cases scanLineComment t <;> simp

theorem scanBracketComment_cons {c : Char} (hc : c ≠ '#') (t : Text) :
    scanBracketComment (c :: t) = .noMatch := by
  rw [scanBracketComment]
  exact fun rest h ↦ hc (List.cons.inj h).1

theorem fits_scanBracketComment (t : Text) : Scan.Fits t (scanBracketComment t) := by
  fun_cases scanBracketComment t with
  | case1 rest => exact (fits_scanBracket rest).after ['#']
  | case2 _ _ => exact Scan.fits_noMatch

theorem extends_scanBracketComment {w : Text} (hw : w.IsBroken) (v : Text) :
    Scan.Extends w (scanBracketComment w) (scanBracketComment (w ++ v)) := by
  cases w with
  | nil => simp [Text.IsBroken] at hw
  | cons c w =>
    by_cases hc : c = '#'
    · subst hc
      rw [Text.isBroken_cons rfl] at hw
      exact (extends_scanBracket hw v).after ['#']
    · rw [List.cons_append, scanBracketComment_cons hc, scanBracketComment_cons hc]
      exact Scan.extends_of_eq (by simp) rfl

theorem fits_scanKeyword (t : Text) : Scan.Fits t (scanKeyword t) := by
  simp only [scanKeyword]
  split
  · exact (Text.isWithinLine_identifier t).fits
  · exact Scan.fits_noMatch

theorem isLocal_scanKeyword : Scan.IsLocal scanKeyword where
  line t := by rw [scanKeyword, Text.identifier_line, scanKeyword]
  ne_needMore t := by
    simp only [scanKeyword]
    split
    · exact Scan.ofSize_ne_needMore _
    · simp

theorem fits_scanChar {expected : Char} (he : expected ≠ '\r') (t : Text) :
    Scan.Fits t (scanChar expected t) := by
  fun_cases scanChar expected t with
  | case1 rest => exact Scan.fits_of_prefix [expected] ⟨rest, rfl⟩ (by simp) (by simp [he])
  | case2 c rest _ => exact Scan.fits_noMatch
  | case3 => exact Scan.fits_noMatch

theorem isLocal_scanChar {expected : Char} (he : Text.isLineBreak expected = false) :
    Scan.IsLocal (scanChar expected) where
  line t := by
    cases t with
    | nil => rfl
    | cons c rest =>
      cases hc : Text.isLineBreak c with
      | true =>
        have hne : c ≠ expected := by
          rintro rfl
          rw [hc] at he
          cases he
        rw [Text.line_cons_of_isLineBreak hc, scanChar, scanChar, if_neg hne]
      | false => rw [Text.line_cons hc, scanChar, scanChar]
  ne_needMore t := by
    fun_cases scanChar expected t <;> simp

theorem scanQuoted_cons {c : Char} (hc : c ≠ '"') (t : Text) : scanQuoted (c :: t) = .noMatch := by
  rw [scanQuoted]
  exact fun rest h ↦ hc (List.cons.inj h).1

theorem fits_scanQuoted (t : Text) : Scan.Fits t (scanQuoted t) := by
  fun_cases scanQuoted t with
  | case1 rest => exact (Scan.fits_throughQuote (by decide) true rest).after ['"']
  | case2 _ _ => exact Scan.fits_noMatch

theorem extends_scanQuoted {w : Text} (hw : w.IsBroken) (v : Text) :
    Scan.Extends w (scanQuoted w) (scanQuoted (w ++ v)) := by
  cases w with
  | nil => simp [Text.IsBroken] at hw
  | cons c w =>
    by_cases hc : c = '"'
    · subst hc
      exact (Scan.extends_throughQuote (by decide) w v).after ['"']
    · rw [List.cons_append, scanQuoted_cons hc, scanQuoted_cons hc]
      exact Scan.extends_of_eq (by simp) rfl

/-! ### The lexicon -/

theorem isLocal_scanWhitespace : Scan.IsLocal scanWhitespace := by
  refine Scan.isLocal_prefixSize fun c hc ↦ ?_
  rcases Text.isLineBreak_iff.1 hc with rfl | rfl <;> rfl

theorem extends_scanNewline {w v : Text} (hw : w.IsBroken) (hseam : Text.Seam w v) :
    Scan.Extends w (scanNewline w) (scanNewline (w ++ v)) := by
  refine Scan.extends_of_eq (Scan.ofSize_ne_needMore _) ?_
  have hne : w ≠ [] := by
    rintro rfl
    simp [Text.IsBroken] at hw
  rw [scanNewline, Text.lineBreakSize_append hne hseam, scanNewline]

/-- **What a rule matches fits.** -/
theorem fits_of_mem {r : Rule Kind} (hr : r ∈ lexicon.rules) (t : Text) :
    Scan.Fits t (r.scan t) := by
  simp only [lexicon, List.mem_cons, List.not_mem_nil, or_false] at hr
  rcases hr with rfl | rfl | rfl | rfl | rfl | rfl | rfl | rfl | rfl | rfl | rfl
  · exact Scan.fits_prefixSize rfl
  · exact Text.fits_lineBreakSize t
  · exact fits_scanLineComment t
  · exact fits_scanBracketComment t
  · exact fits_scanKeyword t
  · exact (Text.isWithinLine_identifier t).fits
  · exact fits_scanChar (by decide) t
  · exact fits_scanChar (by decide) t
  · exact fits_scanQuoted t
  · exact fits_scanBracket t
  · exact fits_scanUnquoted t

/-- **What a rule says of a window goes for every text that begins with it**, if the window shows
some line to its end. -/
theorem extends_of_mem {r : Rule Kind} (hr : r ∈ lexicon.rules) {w v : Text} (hw : w.IsBroken)
    (hseam : Text.Seam w v) : Scan.Extends w (r.scan w) (r.scan (w ++ v)) := by
  simp only [lexicon, List.mem_cons, List.not_mem_nil, or_false] at hr
  rcases hr with rfl | rfl | rfl | rfl | rfl | rfl | rfl | rfl | rfl | rfl | rfl
  · exact isLocal_scanWhitespace.extends hw v
  · exact extends_scanNewline hw hseam
  · exact isLocal_scanLineComment.extends hw v
  · exact extends_scanBracketComment hw v
  · exact isLocal_scanKeyword.extends hw v
  · exact Text.isLocal_identifier.extends hw v
  · exact (isLocal_scanChar (by decide)).extends hw v
  · exact (isLocal_scanChar (by decide)).extends hw v
  · exact extends_scanQuoted hw v
  · exact extends_scanBracket hw v
  · exact isLocal_scanUnquoted.extends hw v

/-- **The lexicon keeps line breaks whole.** -/
theorem keepsBreaks : Lexicon.KeepsBreaks lexicon.rules where
  fits _ hr := fits_of_mem hr
  recognizes := ⟨⟨.newline, scanNewline, id⟩, by simp [lexicon],
    fun _ hc ↦ Text.lineBreakSize_ne_noMatch hc⟩

end CMake

end LexFront
