import LexFront.Lexicon.Delimited
import LexFront.Proofs.Text.Cuts

/-!
# What is asked of a scanner

Three things are wanted of the scanners of a lexicon, and each is put together here from what is
known of their parts.

A match *fits* if it is a front of the text, not empty, that ends at a seam. A scanner is *local* if
it does not look beyond the line that it starts in, and never asks for more. An answer *extends*
another if it is the same, unless more was asked for, and if what was asked for can only make the
match longer than the window. The lexer looks at windows only, so that its lexemes are those of the
whole text if the answers for the whole text extend those for a window.

Key facts:

* `Fits.after`: a match fits with a text put in front of it.
* `IsLocal.extends`: what a local scanner answers for a window stays as it is.
* `extends_through`: so does the end of a construct with a closing delimiter.
-/

set_option autoImplicit false

namespace LexFront

namespace Text

/-- A text is read one character at a time, and a backslash together with what it escapes. -/
@[elab_as_elim]
theorem escape_induction {P : Text → Prop} (nil : P []) (lone : P ['\\'])
    (escape : ∀ c rest, P rest → P ('\\' :: c :: rest))
    (cons : ∀ c rest, c ≠ '\\' → P rest → P (c :: rest)) : ∀ t, P t
  | [] => nil
  | [c] => if h : c = '\\' then h ▸ lone else cons c [] h nil
  | c :: d :: rest =>
    if h : c = '\\' then h ▸ escape d rest (escape_induction nil lone escape cons rest)
    else cons c (d :: rest) h (escape_induction nil lone escape cons (d :: rest))

/-- What comes before the first line break. -/
def line (t : Text) : Text := t.takeWhile fun c ↦ !isLineBreak c

@[simp] theorem line_nil : line [] = [] := rfl

theorem line_cons {c : Char} {t : Text} (hc : isLineBreak c = false) :
    line (c :: t) = c :: line t := by
  rw [line, List.takeWhile_cons, if_pos (by simp [hc])]
  rfl

theorem line_cons_of_isLineBreak {c : Char} {t : Text} (hc : isLineBreak c = true) :
    line (c :: t) = [] := by
  rw [line, List.takeWhile_cons, if_neg (by simp [hc])]

/-- The first line does not change when more text follows its end. -/
theorem line_append {s : Text} (hs : s.IsBroken) (t : Text) : line (s ++ t) = line s := by
  obtain ⟨c, hc, hb⟩ := hs
  exact takeWhile_append_of_mem ⟨c, hc, by simp [hb]⟩ t

/-- A stretch of characters that do not end lines is found in the first line already. -/
theorem takeWhile_line {p : Char → Bool} (hp : ∀ c, isLineBreak c = true → p c = false)
    (t : Text) : (line t).takeWhile p = t.takeWhile p := by
  induction t with
  | nil => rfl
  | cons c t ih =>
    cases hc : isLineBreak c with
    | true => rw [line_cons_of_isLineBreak hc, List.takeWhile_cons, if_neg (by simp [hp c hc])]; rfl
    | false => rw [line_cons hc, List.takeWhile_cons, List.takeWhile_cons, ih]

end Text

namespace Scan

/-! ### Matches that fit -/

/-- A match is a front of the text, not empty, that ends at a seam. -/
def Fits (t : Text) (s : Scan) : Prop :=
  ∀ n, s = .matched n →
    ∃ front back, t = front ++ back ∧ n = Text.size front ∧ front ≠ [] ∧ Text.Seam front back

variable {t : Text} {s : Scan}

theorem fits_noMatch : Fits t .noMatch := fun _ h ↦ nomatch h

theorem fits_needMore : Fits t .needMore := fun _ h ↦ nomatch h

theorem fits_of_seam (front back : Text) (hne : front ≠ []) (hseam : Text.Seam front back) :
    Fits (front ++ back) (.matched (Text.size front)) := by
  intro n hn
  rw [matched.injEq] at hn
  exact ⟨front, back, rfl, hn.symm, hne, hseam⟩

theorem Fits.pos (h : Fits t s) {n : Nat} (hn : s = .matched n) : 0 < n := by
  obtain ⟨front, back, rfl, rfl, hne, -⟩ := h n hn
  exact Text.size_pos hne

/-- A front without a carriage return fits. -/
theorem fits_of_prefix (front : Text) (hp : front <+: t) (hne : front ≠ [])
    (h : ∀ c ∈ front, c ≠ '\r') : Fits t (.matched (Text.size front)) := by
  obtain ⟨back, rfl⟩ := hp
  exact fits_of_seam front back hne (Text.seam_of_forall_mem h back)

theorem fits_ofText {front : Text} (hp : front <+: t) (h : ∀ c ∈ front, c ≠ '\r') :
    Fits t (.ofText front) := by
  rw [ofText, ofSize]
  split
  · exact fits_noMatch
  · next hn => exact fits_of_prefix front hp (fun hnil ↦ hn (Text.size_eq_zero_iff.2 hnil)) h

/-- A stretch of characters that are no carriage returns fits. -/
theorem fits_prefixSize {p : Char → Bool} (hp : p '\r' = false) :
    Fits t (.ofSize (Text.prefixSize p t)) := by
  refine fits_ofText (List.takeWhile_prefix p) fun c hc hcr ↦ ?_
  have := List.mem_takeWhile_imp hc
  rw [hcr, hp] at this
  cases this

/-- A match is a front of the text, not empty, within one line. -/
def IsWithinLine (t : Text) (s : Scan) : Prop :=
  ∀ n, s = .matched n →
    ∃ front : Text, front <+: t ∧ n = Text.size front ∧ front ≠ [] ∧ front.IsUnbroken

theorem IsWithinLine.fits (h : IsWithinLine t s) : Fits t s := by
  intro n hn
  obtain ⟨front, ⟨back, rfl⟩, rfl, hne, hu⟩ := h n hn
  exact ⟨front, back, rfl, rfl, hne, hu.seam back⟩

theorem isWithinLine_noMatch : IsWithinLine t .noMatch := fun _ h ↦ nomatch h

theorem isWithinLine_needMore : IsWithinLine t .needMore := fun _ h ↦ nomatch h

theorem isWithinLine_of_prefix (front : Text) (hp : front <+: t) (hne : front ≠ [])
    (hu : front.IsUnbroken) : IsWithinLine t (.matched (Text.size front)) := by
  intro n hn
  rw [matched.injEq] at hn
  exact ⟨front, hp, hn.symm, hne, hu⟩

theorem isWithinLine_ofText {front : Text} (hp : front <+: t) (hu : front.IsUnbroken) :
    IsWithinLine t (.ofText front) := by
  rw [ofText, ofSize]
  split
  · exact isWithinLine_noMatch
  · next hn =>
    exact isWithinLine_of_prefix front hp (fun hnil ↦ hn (Text.size_eq_zero_iff.2 hnil)) hu

theorem IsWithinLine.after (h : IsWithinLine t s) {pre : Text} (hu : pre.IsUnbroken) :
    IsWithinLine (pre ++ t) (s.after (Text.size pre)) := by
  intro n hn
  cases s with
  | noMatch => cases hn
  | needMore => cases hn
  | matched m =>
    obtain ⟨front, ⟨back, rfl⟩, rfl, hne, hfront⟩ := h m rfl
    rw [Scan.after, matched.injEq] at hn
    refine ⟨pre ++ front, ⟨back, by simp⟩, by simp [← hn], by simp [hne], fun c hc ↦ ?_⟩
    rcases List.mem_append.1 hc with hc | hc
    · exact hu c hc
    · exact hfront c hc

/-- A match within one line leaves something of a text that has more than one. -/
theorem IsWithinLine.size_lt (h : IsWithinLine t s) (ht : t.IsBroken) {n : Nat}
    (hn : s = .matched n) : n < Text.size t := by
  obtain ⟨front, ⟨back, rfl⟩, rfl, -, hu⟩ := h n hn
  have hback : back ≠ [] := by
    rintro rfl
    rw [List.append_nil] at ht
    exact ht.not_isUnbroken hu
  have := Text.size_pos hback
  rw [Text.size_append]
  omega

/-- **A match fits with a text in front of it.** -/
theorem Fits.after (h : Fits t s) (pre : Text) : Fits (pre ++ t) (s.after (Text.size pre)) := by
  intro n hn
  cases s with
  | noMatch => cases hn
  | needMore => cases hn
  | matched m =>
    obtain ⟨front, back, rfl, rfl, hne, hseam⟩ := h m rfl
    rw [Scan.after, matched.injEq] at hn
    refine ⟨pre ++ front, back, by simp, by simp [← hn], by simp [hne], ?_⟩
    exact (Text.seam_append_left pre hne back).2 hseam

theorem fits_through {closer : Text} (hne : closer ≠ []) (hc : closer.getLast? ≠ some '\r') :
    Fits t (through closer t) := by
  rw [through]
  split
  · next inner h =>
    obtain ⟨rest, rfl⟩ := Text.append_of_before? h
    rw [← Text.size_append]
    refine fits_of_seam (inner ++ closer) rest (by simp [hne])
      ((Text.seam_append_left inner hne rest).2 ?_)
    exact Text.seam_of_getLast? hc rest
  · exact fits_needMore

theorem fits_throughQuote {quote : Char} (hq : quote ≠ '\r') (multiline : Bool) (t : Text) :
    Fits t (throughQuote quote multiline t) := by
  fun_induction throughQuote quote multiline t with
  | case1 => exact fits_needMore
  | case2 => exact fits_needMore
  | case3 c rest _ => exact fits_noMatch
  | case4 c rest _ ih =>
    have hsize : 1 + c.utf8Size = Text.size ['\\', c] := by
      simp only [Text.size_cons, Text.size_nil]
      rfl
    rw [hsize]
    exact ih.after ['\\', c]
  | case5 c rest _ _ _ => exact fits_noMatch
  | case6 rest _ _ =>
    refine fits_of_prefix [quote] ⟨rest, rfl⟩ (by simp) ?_
    simp [hq]
  | case7 c rest _ _ _ _ ih =>
    exact ih.after [c]

/-! ### Answers that hold when more text follows -/

/-- The second answer, given of a longer text, goes on from the first, given of its front `w`: it is
the same, or the first one asked for more and a match goes beyond that front. -/
structure Extends (w : Text) (s s' : Scan) : Prop where
  keep : s ≠ .needMore → s' = s
  grow : s = .needMore → s' ≠ .noMatch ∧ ∀ n, s' = .matched n → Text.size w < n

variable {w : Text} {s' : Scan}

theorem extends_of_eq (h : s ≠ .needMore) (he : s' = s) : Extends w s s' :=
  ⟨fun _ ↦ he, fun hm ↦ absurd hm h⟩

theorem after_ne_needMore (h : s ≠ .needMore) (n : Nat) : s.after n ≠ .needMore := by
  cases s with
  | needMore => exact absurd rfl h
  | noMatch => simp [Scan.after]
  | matched m => simp [Scan.after]

theorem after_after (m n : Nat) (s : Scan) : (s.after m).after n = s.after (n + m) := by
  cases s with
  | matched k => exact congrArg matched (Nat.add_assoc n m k).symm
  | noMatch => rfl
  | needMore => rfl

theorem after_ne_noMatch (h : s ≠ .noMatch) (n : Nat) : s.after n ≠ .noMatch := by
  cases s with
  | noMatch => exact absurd rfl h
  | needMore => simp [Scan.after]
  | matched m => simp [Scan.after]

theorem Extends.after (h : Extends w s s') (pre : Text) :
    Extends (pre ++ w) (s.after (Text.size pre)) (s'.after (Text.size pre)) where
  keep hs := by
    have hs' : s ≠ .needMore := by
      rintro rfl
      exact hs rfl
    rw [h.keep hs']
  grow hs := by
    have hs' : s = .needMore := by
      cases s with
      | needMore => rfl
      | noMatch => cases hs
      | matched m => cases hs
    obtain ⟨hne, hlt⟩ := h.grow hs'
    cases s' with
    | noMatch => exact absurd rfl hne
    | needMore => exact ⟨by simp [Scan.after], by simp [Scan.after]⟩
    | matched m =>
      refine ⟨by simp [Scan.after], fun n hn ↦ ?_⟩
      rw [Scan.after, matched.injEq] at hn
      have := hlt m rfl
      rw [Text.size_append]
      omega

/-- A scanner that does not look beyond the line that it starts in, and never asks for more. -/
structure IsLocal (scan : Text → Scan) : Prop where
  line : ∀ t, scan (Text.line t) = scan t
  ne_needMore : ∀ t, scan t ≠ .needMore

/-- **What a local scanner says of a line that is seen to its end holds for good.** -/
theorem IsLocal.extends {scan : Text → Scan} (h : IsLocal scan) {w : Text} (hw : w.IsBroken)
    (v : Text) : Extends w (scan w) (scan (w ++ v)) :=
  extends_of_eq (h.ne_needMore w) (by rw [← h.line (w ++ v), Text.line_append hw, h.line])

theorem ofSize_ne_needMore (n : Nat) : ofSize n ≠ .needMore := by
  rw [ofSize]
  split <;> simp

theorem eq_of_ofSize {m n : Nat} (h : ofSize m = .matched n) : n = m := by
  rw [ofSize] at h
  split at h
  · cases h
  · exact (matched.inj h).symm

theorem isLocal_prefixSize {p : Char → Bool} (hp : ∀ c, Text.isLineBreak c = true → p c = false) :
    IsLocal fun t ↦ .ofSize (Text.prefixSize p t) where
  line t := by rw [Text.prefixSize, Text.takeWhile_line hp, Text.prefixSize]
  ne_needMore t := ofSize_ne_needMore _

/-! ### Constructs with a closing delimiter -/

/-- **The closer that is found is found again**, and one that is missing is found further on. -/
theorem extends_through (closer w v : Text) :
    Extends w (through closer w) (through closer (w ++ v)) where
  keep hs := by
    cases hb : Text.before? closer w with
    | none =>
      rw [through, hb] at hs
      exact absurd rfl hs
    | some inner => rw [through, through, hb, Text.before?_append_of_some hb]
  grow hs := by
    have hb : Text.before? closer w = none := by
      cases hb : Text.before? closer w with
      | none => rfl
      | some inner =>
        rw [through, hb] at hs
        cases hs
    cases hb' : Text.before? closer (w ++ v) with
    | none => exact ⟨by simp [through, hb'], by simp [through, hb']⟩
    | some inner =>
      refine ⟨by simp [through, hb'], fun n hn ↦ ?_⟩
      have hlt := Text.size_lt_of_before?_append hb hb'
      rw [through, hb', matched.injEq] at hn
      rw [Text.size_append] at hlt
      omega

theorem ne_backslash {c : Char} {rest : Text} (hnil : c = '\\' → rest = [] → False)
    (hcons : ∀ d r, c = '\\' → rest = d :: r → False) : c ≠ '\\' := by
  intro hc
  cases rest with
  | nil => exact hnil hc rfl
  | cons d r => exact hcons d r hc rfl

theorem throughQuote_cons {c : Char} (hc : c ≠ '\\') (quote : Char) (multiline : Bool)
    (t : Text) : throughQuote quote multiline (c :: t) =
      if !multiline && Text.isLineBreak c then noMatch
      else if c = quote then matched c.utf8Size
      else (throughQuote quote multiline t).after c.utf8Size := by
  rw [throughQuote]
  · rintro rfl
    exact absurd rfl hc
  · rintro d r rfl
    exact absurd rfl hc

theorem throughQuote_append {quote : Char} {multiline : Bool} {w : Text}
    (h : throughQuote quote multiline w ≠ .needMore) (v : Text) :
    throughQuote quote multiline (w ++ v) = throughQuote quote multiline w := by
  fun_induction throughQuote quote multiline w with
  | case1 => exact absurd rfl h
  | case2 => exact absurd rfl h
  | case3 c rest hc => rw [List.cons_append, List.cons_append, throughQuote, if_pos hc]
  | case4 c rest hc ih =>
    have hrest : throughQuote quote multiline rest ≠ .needMore := fun hm ↦ h (by rw [hm]; rfl)
    rw [List.cons_append, List.cons_append, throughQuote, if_neg hc, ih hrest]
  | case5 c rest hne hsingle hc =>
    have hb : c ≠ '\\' := ne_backslash hne hsingle
    rw [List.cons_append, throughQuote_cons hb, if_pos hc]
  | case6 rest hne hsingle hc =>
    have hb : quote ≠ '\\' := ne_backslash hne hsingle
    rw [List.cons_append, throughQuote_cons hb, if_neg hc, if_pos rfl]
  | case7 c rest hne hsingle hc hq ih =>
    have hb : c ≠ '\\' := ne_backslash hne hsingle
    have hrest : throughQuote quote multiline rest ≠ .needMore := fun hm ↦ h (by rw [hm]; rfl)
    rw [List.cons_append, throughQuote_cons hb, if_neg hc, if_neg hq, ih hrest]

theorem throughQuote_ne_noMatch (quote : Char) (t : Text) :
    throughQuote quote true t ≠ .noMatch := by
  fun_induction throughQuote quote true t with
  | case1 => simp
  | case2 => simp
  | case3 c rest hc => simp at hc
  | case4 c rest _ ih => exact after_ne_noMatch ih _
  | case5 c rest _ _ hc => simp at hc
  | case6 rest _ _ _ => simp
  | case7 c rest _ _ _ _ ih => exact after_ne_noMatch ih _

/-- **A quoted text that may go over lines** asks for more until it is closed. -/
theorem extends_throughQuote {quote : Char} (hq : quote ≠ '\r') (w v : Text) :
    Extends w (throughQuote quote true w) (throughQuote quote true (w ++ v)) := by
  fun_induction throughQuote quote true w with
  | case1 =>
    refine ⟨fun hs ↦ absurd rfl hs, fun _ ↦ ⟨throughQuote_ne_noMatch quote v, fun n hn ↦ ?_⟩⟩
    exact (fits_throughQuote hq true v).pos hn
  | case2 =>
    refine ⟨fun hs ↦ absurd rfl hs, fun _ ↦ ⟨throughQuote_ne_noMatch quote _, fun n hn ↦ ?_⟩⟩
    cases v with
    | nil => cases hn
    | cons c v =>
      rw [List.singleton_append, throughQuote, if_neg (by simp)] at hn
      have hc := c.utf8Size_pos
      cases hrest : throughQuote quote true v with
      | noMatch => simp [hrest, Scan.after] at hn
      | needMore => simp [hrest, Scan.after] at hn
      | matched m =>
        rw [hrest, Scan.after, matched.injEq] at hn
        have hsize : Text.size ['\\'] = 1 := rfl
        omega
  | case3 c rest hc => simp at hc
  | case4 c rest hc ih =>
    have hsize : 1 + c.utf8Size = Text.size ['\\', c] := by
      simp only [Text.size_cons, Text.size_nil]
      rfl
    rw [List.cons_append, List.cons_append, throughQuote, if_neg hc, hsize]
    exact ih.after ['\\', c]
  | case5 c rest _ _ hc => simp at hc
  | case6 rest hne hsingle hc =>
    rw [List.cons_append, throughQuote_cons (ne_backslash hne hsingle), if_neg hc, if_pos rfl]
    exact extends_of_eq (by simp) rfl
  | case7 c rest hne hsingle hc hne' ih =>
    rw [List.cons_append, throughQuote_cons (ne_backslash hne hsingle), if_neg hc, if_neg hne']
    exact ih.after [c]

/-- A quoted text that may not go over lines does not. -/
theorem isWithinLine_throughQuote {quote : Char} (hq : Text.isLineBreak quote = false) (t : Text) :
    IsWithinLine t (throughQuote quote false t) := by
  fun_induction throughQuote quote false t with
  | case1 => exact isWithinLine_needMore
  | case2 => exact isWithinLine_needMore
  | case3 c rest _ => exact isWithinLine_noMatch
  | case4 c rest hc ih =>
    have hsize : 1 + c.utf8Size = Text.size ['\\', c] := by
      simp only [Text.size_cons, Text.size_nil]
      rfl
    have hpre : Text.IsUnbroken ['\\', c] := by
      rw [Text.isUnbroken_cons, Text.isUnbroken_cons]
      exact ⟨rfl, by simpa using hc, Text.isUnbroken_nil⟩
    rw [hsize]
    exact ih.after hpre
  | case5 c rest _ _ _ => exact isWithinLine_noMatch
  | case6 rest _ _ =>
    refine isWithinLine_of_prefix [quote] ⟨rest, rfl⟩ (by simp) ?_
    rw [Text.isUnbroken_cons]
    exact ⟨hq, Text.isUnbroken_nil⟩
  | case7 c rest _ _ hc _ ih =>
    have hpre : Text.IsUnbroken [c] := by
      rw [Text.isUnbroken_cons]
      exact ⟨by simpa using hc, Text.isUnbroken_nil⟩
    exact ih.after hpre

/-- A quoted text that may not go over lines is settled by the end of the line. -/
theorem throughQuote_ne_needMore {quote : Char} {w : Text} (hw : w.IsBroken) :
    throughQuote quote false w ≠ .needMore := by
  fun_induction throughQuote quote false w with
  | case1 => simp [Text.IsBroken] at hw
  | case2 => simp [Text.IsBroken, Text.isLineBreak] at hw
  | case3 c rest _ => simp
  | case4 c rest hc ih =>
    refine after_ne_needMore (ih ?_) _
    rw [Text.isBroken_cons rfl, Text.isBroken_cons (by simpa using hc)] at hw
    exact hw
  | case5 c rest _ _ _ => simp
  | case6 rest _ _ _ => simp
  | case7 c rest _ _ hc _ ih =>
    refine after_ne_needMore (ih ?_) _
    rw [Text.isBroken_cons (by simpa using hc)] at hw
    exact hw

end Scan

namespace Text

/-! ### Line breaks and words -/

theorem fits_lineBreakSize (t : Text) : Scan.Fits t (.ofSize (lineBreakSize t)) := by
  fun_cases lineBreakSize t with
  | case1 rest =>
    exact Scan.fits_of_seam ['\r', '\n'] rest (by simp)
      (seam_of_getLast? (by simp) _)
  | case2 rest hne =>
    refine Scan.fits_of_seam ['\r'] rest (by simp) (seam_of_head? ?_ _)
    intro hh
    cases rest with
    | nil => cases hh
    | cons c rest =>
      rw [List.head?_cons, Option.some.injEq] at hh
      exact hne rest (by rw [hh])
  | case3 rest =>
    exact Scan.fits_of_seam ['\n'] rest (by simp)
      (seam_of_getLast? (by simp) _)
  | case4 _ _ _ _ => exact Scan.fits_noMatch

/-- A line break is seen as a whole if the lines to come do not go on with it. -/
theorem lineBreakSize_append {w v : Text} (hw : w ≠ []) (hseam : Seam w v) :
    lineBreakSize (w ++ v) = lineBreakSize w := by
  fun_cases lineBreakSize w with
  | case1 rest => rfl
  | case2 rest hne =>
    rw [List.cons_append, lineBreakSize]
    intro r hr
    cases rest with
    | nil => exact hseam ⟨rfl, by rw [List.nil_append] at hr; rw [hr]; rfl⟩
    | cons c rest => exact hne rest (by rw [(List.cons.inj hr).1])
  | case3 rest => rfl
  | case4 _ _ hcr hlf =>
    cases w with
    | nil => exact absurd rfl hw
    | cons c w =>
      rw [List.cons_append, lineBreakSize]
      · exact fun r hr ↦ hcr w (by rw [(List.cons.inj hr).1])
      · exact fun r hr ↦ hcr w (by rw [(List.cons.inj hr).1])
      · exact fun r hr ↦ hlf w (by rw [(List.cons.inj hr).1])

theorem lineBreakSize_ne_noMatch {c : Char} (hc : isLineBreak c = true) (t : Text) :
    Scan.ofSize (lineBreakSize (c :: t)) ≠ .noMatch := by
  have hne : lineBreakSize (c :: t) ≠ 0 := by
    rcases isLineBreak_iff.1 hc with rfl | rfl <;>
    · unfold lineBreakSize
      split <;> simp_all
  rw [Scan.ofSize, if_neg hne]
  simp

theorem identifier_line (t : Text) : identifier (line t) = identifier t := by
  have hpart : ∀ c, isLineBreak c = true → isIdentifierPart c = false := by
    intro c hc
    rcases Text.isLineBreak_iff.1 hc with rfl | rfl <;> rfl
  cases t with
  | nil => rfl
  | cons c t =>
    cases hc : isLineBreak c with
    | true =>
      rw [line_cons_of_isLineBreak hc]
      rcases Text.isLineBreak_iff.1 hc with rfl | rfl <;> rfl
    | false =>
      have htake := takeWhile_line hpart (c :: t)
      rw [line_cons hc] at htake ⊢
      rw [identifier, identifier, htake]

theorem isLocal_identifier : Scan.IsLocal fun t ↦ .ofText (identifier t) where
  line t := by rw [identifier_line]
  ne_needMore t := Scan.ofSize_ne_needMore _

theorem isWithinLine_identifier (t : Text) : Scan.IsWithinLine t (.ofText (identifier t)) := by
  cases t with
  | nil => exact Scan.isWithinLine_noMatch
  | cons c t =>
    rw [identifier]
    split
    · refine Scan.isWithinLine_ofText (List.takeWhile_prefix _) fun d hd ↦ ?_
      have hpart := List.mem_takeWhile_imp hd
      cases hb : isLineBreak d with
      | false => rfl
      | true =>
        rcases isLineBreak_iff.1 hb with rfl | rfl <;> cases hpart
    · exact Scan.isWithinLine_noMatch

/-- A word that does not reach the end of a text ends where it does, whatever follows. -/
theorem identifier_append {t : Text} (ht : t ≠ []) (h : identifier t ≠ t) (v : Text) :
    identifier (t ++ v) = identifier t := by
  cases t with
  | nil => exact absurd rfl ht
  | cons c t =>
    rw [identifier] at h
    rw [List.cons_append, identifier, identifier]
    split
    · next hc =>
      rw [if_pos hc] at h
      exact takeWhile_append_of_mem (exists_of_takeWhile_ne h) v
    · rfl

end Text

end LexFront
