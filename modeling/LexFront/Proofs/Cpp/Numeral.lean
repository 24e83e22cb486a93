import LexFront.Cpp.Numeral
import LexFront.Proofs.Lexicon.Matching

/-!
# How far a numeral looks ahead

All characters of a numeral take one byte, so that its sizes count characters. A numeral is settled
by the first character that is no part of it, with one exception: a sign behind an exponent mark and
a separator behind a digit belong to it only if a digit follows. A text that ends right there does
not tell.

Key facts:

* `isPlainFront_bodySize`: a numeral is a front of its text, made of characters of one byte.
* `bodySize_append`: what follows a text changes its numeral only if the text ends in the numeral,
  or one character behind it.
-/

set_option autoImplicit false

namespace LexFront.Cpp.Numeral

/-! ### Characters of one byte -/

/-- A character of one byte that ends no line. -/
def IsPlainChar (c : Char) : Prop := c.utf8Size = 1 ∧ c ≠ '\r' ∧ c ≠ '\n'

theorem isPlainChar_of_range (lo hi : Char) {c : Char}
    (h : lo.val.toNat ≤ c.val.toNat ∧ c.val.toNat ≤ hi.val.toNat) (hlo : 32 ≤ lo.val.toNat)
    (hhi : hi.val.toNat ≤ 127) : IsPlainChar c := by
  have hc : 32 ≤ c.val.toNat := hlo.trans h.1
  refine ⟨Char.utf8Size_eq_one_iff.2 (UInt32.le_iff_toNat_le.2 (h.2.trans hhi)), ?_, ?_⟩
  · rintro rfl
    exact absurd hc (by decide)
  · rintro rfl
    exact absurd hc (by decide)

theorem isPlainChar_of_val {c : Char} (h : 32 ≤ c.val.toNat) (h' : c.val.toNat ≤ 127) :
    IsPlainChar c :=
  isPlainChar_of_range c c ⟨Nat.le_refl _, Nat.le_refl _⟩ h h'

theorem isPlainChar_of_isDigit {c : Char} (h : c.isDigit = true) : IsPlainChar c := by
  simp only [Char.isDigit, Bool.and_eq_true, decide_eq_true_eq, ge_iff_le,
    UInt32.le_iff_toNat_le] at h
  exact isPlainChar_of_range '0' '9' h (by decide) (by decide)

theorem isPlainChar_of_isBinary {c : Char} (h : isBinary c = true) : IsPlainChar c := by
  rcases (by simpa [isBinary] using h : c = '0' ∨ c = '1') with rfl | rfl
  · exact isPlainChar_of_val (by decide) (by decide)
  · exact isPlainChar_of_val (by decide) (by decide)

theorem isPlainChar_of_isHex {c : Char} (h : isHex c = true) : IsPlainChar c := by
  simp only [isHex, Bool.or_eq_true, Bool.and_eq_true, decide_eq_true_eq, Char.le_def,
    UInt32.le_iff_toNat_le] at h
  rcases h with (h | h) | h
  · exact isPlainChar_of_isDigit h
  · exact isPlainChar_of_range 'a' 'f' h (by decide) (by decide)
  · exact isPlainChar_of_range 'A' 'F' h (by decide) (by decide)

theorem isPlainChar_of_isIdentifierPart {c : Char} (h : Text.isIdentifierPart c = true) :
    IsPlainChar c := by
  simp only [Text.isIdentifierPart, Char.isAlphanum, Bool.or_eq_true, beq_iff_eq,
    Text.isAlpha_iff] at h
  rcases h with rfl | (h | h) | h
  · exact isPlainChar_of_val (by decide) (by decide)
  · exact isPlainChar_of_range 'A' 'Z' h (by decide) (by decide)
  · exact isPlainChar_of_range 'a' 'z' h (by decide) (by decide)
  · exact isPlainChar_of_isDigit h

/-- The first `n` characters of a text are there, and each takes one byte. -/
structure IsPlainFront (t : Text) (n : Nat) : Prop where
  le : n ≤ t.length
  plain : ∀ c ∈ t.take n, IsPlainChar c

theorem isPlainFront_zero (t : Text) : IsPlainFront t 0 := ⟨Nat.zero_le _, by simp⟩

theorem IsPlainFront.cons {t : Text} {n : Nat} (h : IsPlainFront t n) {c : Char}
    (hc : IsPlainChar c) : IsPlainFront (c :: t) (1 + n) := by
  rw [Nat.add_comm]
  refine ⟨Nat.succ_le_succ h.le, ?_⟩
  rw [List.take_succ_cons]
  exact List.forall_mem_cons.2 ⟨hc, h.plain⟩

theorem IsPlainFront.add {t : Text} {n m : Nat} (h : IsPlainFront t n)
    (h' : IsPlainFront (t.drop n) m) : IsPlainFront t (n + m) := by
  refine ⟨?_, ?_⟩
  · have hle := h'.le
    rw [List.length_drop] at hle
    have := h.le
    omega
  · rw [List.take_add]
    intro c hc
    rcases List.mem_append.1 hc with hc | hc
    · exact h.plain c hc
    · exact h'.plain c hc

theorem size_of_forall_isPlainChar {t : Text} (h : ∀ c ∈ t, IsPlainChar c) :
    Text.size t = t.length := by
  induction t with
  | nil => rfl
  | cons c t ih =>
    rw [List.forall_mem_cons] at h
    rw [Text.size_cons, h.1.1, ih h.2, List.length_cons, Nat.add_comm]

/-- The number of characters is the number of bytes. -/
theorem IsPlainFront.size_take {t : Text} {n : Nat} (h : IsPlainFront t n) :
    Text.size (t.take n) = n := by
  rw [size_of_forall_isPlainChar h.plain, List.length_take, Nat.min_eq_left h.le]

theorem isPlainFront_takeWhile {p : Char → Bool} (hp : ∀ c, p c = true → IsPlainChar c) (t : Text) :
    IsPlainFront t (t.takeWhile p).length := by
  refine ⟨(List.takeWhile_prefix p).length_le, fun c hc ↦ ?_⟩
  rw [← List.prefix_iff_eq_take.1 (List.takeWhile_prefix p)] at hc
  exact hp c (List.mem_takeWhile_imp hc)

/-! ### A numeral is a front of its text -/

section Digits

variable {digit : Char → Bool} (hdigit : ∀ c, digit c = true → IsPlainChar c)
include hdigit

theorem isPlainFront_moreDigitsSize (t : Text) : IsPlainFront t (moreDigitsSize digit t) := by
  fun_induction moreDigitsSize digit t with
  | case1 d rest hd ih =>
    have hquote : IsPlainChar '\'' := isPlainChar_of_val (by decide) (by decide)
    have h := (ih.cons (hdigit d hd)).cons hquote
    rwa [← Nat.add_assoc] at h
  | case2 _ _ _ => exact isPlainFront_zero _
  | case3 d rest _ hd ih => exact ih.cons (hdigit d hd)
  | case4 _ _ _ _ => exact isPlainFront_zero _
  | case5 => exact isPlainFront_zero _

theorem isPlainFront_digitsSize (t : Text) : IsPlainFront t (digitsSize digit t) := by
  cases t with
  | nil => exact isPlainFront_zero _
  | cons d rest =>
    rw [digitsSize]
    split
    · next hd => exact (isPlainFront_moreDigitsSize hdigit rest).cons (hdigit d hd)
    · exact isPlainFront_zero _

end Digits

/-- A base whose digits and exponent marks are characters of one byte. -/
structure Base.IsPlain (b : Base) : Prop where
  digit : ∀ c, b.digit c = true → IsPlainChar c
  exponentMark : ∀ c, b.exponentMark c = true → Text.isIdentifierPart c = true

theorem Base.isPlain_decimal : Base.decimal.IsPlain where
  digit _ h := isPlainChar_of_isDigit h
  exponentMark c h := by
    rcases (by simpa [Base.decimal] using h : c = 'e' ∨ c = 'E') with rfl | rfl <;> rfl

theorem Base.isPlain_hexadecimal : Base.hexadecimal.IsPlain where
  digit _ h := isPlainChar_of_isHex h
  exponentMark c h := by
    rcases (by simpa [Base.hexadecimal] using h : c = 'p' ∨ c = 'P') with rfl | rfl <;> rfl

theorem Base.fractionSize_point (b : Base) (rest : Text) :
    b.fractionSize ('.' :: rest) = if rest.head? = some '.' ∧ b.allowsTwoPoints = false then 0
      else 1 + digitsSize b.digit rest := by
  simp [Base.fractionSize]

theorem Base.IsPlain.isPlainFront_fractionSize {b : Base} (hb : b.IsPlain) (t : Text) :
    IsPlainFront t (b.fractionSize t) := by
  have hpoint : IsPlainChar '.' := isPlainChar_of_val (by decide) (by decide)
  fun_cases Base.fractionSize b t with
  | case1 _ _ => exact isPlainFront_zero _
  | case2 rest _ => exact (isPlainFront_digitsSize hb.digit rest).cons hpoint
  | case3 _ _ => exact isPlainFront_zero _

/-- The sign at the start of a text, one character or none. -/
def signSize (t : Text) : Nat := if t.head? = some '+' || t.head? = some '-' then 1 else 0

theorem isPlainFront_signSize (t : Text) : IsPlainFront t (signSize t) := by
  rw [signSize]
  split
  · next h =>
    cases t with
    | nil => simp at h
    | cons c t =>
      refine ⟨by simp, ?_⟩
      rcases (by simpa using h : c = '+' ∨ c = '-') with rfl | rfl
      · simpa using isPlainChar_of_val (by decide) (by decide)
      · simpa using isPlainChar_of_val (by decide) (by decide)
  · exact isPlainFront_zero _

theorem Base.exponentSize_cons (b : Base) (mark : Char) (rest : Text) :
    b.exponentSize (mark :: rest) =
      if b.exponentMark mark = true ∧ digitsSize Char.isDigit (rest.drop (signSize rest)) ≠ 0 then
        1 + signSize rest + digitsSize Char.isDigit (rest.drop (signSize rest))
      else 0 := by
  rw [Base.exponentSize]
  by_cases hm : b.exponentMark mark = true
  · rw [if_pos hm]
    simp only [hm, true_and, signSize]
    split
    · next h => rw [h]; simp
    · next digits hne => rw [if_pos hne]
  · rw [if_neg hm, if_neg (fun h ↦ hm h.1)]

theorem Base.IsPlain.isPlainFront_exponentSize {b : Base} (hb : b.IsPlain) (t : Text) :
    IsPlainFront t (b.exponentSize t) := by
  cases t with
  | nil => exact isPlainFront_zero _
  | cons mark rest =>
    rw [Base.exponentSize_cons]
    split
    · next h =>
      have hdigits := isPlainFront_digitsSize (fun _ ↦ isPlainChar_of_isDigit)
        (rest.drop (signSize rest))
      have hmark := isPlainChar_of_isIdentifierPart (hb.exponentMark mark h.1)
      have hall := ((isPlainFront_signSize rest).add hdigits).cons hmark
      rwa [← Nat.add_assoc] at hall
    · exact isPlainFront_zero _

theorem Base.IsPlain.isPlainFront_numberSize {b : Base} (hb : b.IsPlain) (t : Text) :
    IsPlainFront t (b.numberSize t).1 := by
  have hwhole := isPlainFront_digitsSize hb.digit t
  have hfraction := hb.isPlainFront_fractionSize (t.drop (digitsSize b.digit t))
  exact (hwhole.add hfraction).add (hb.isPlainFront_exponentSize _)

theorem isPlainFront_bodySize (t : Text) : IsPlainFront t (bodySize t).1 := by
  have hzero : IsPlainChar '0' := isPlainChar_of_val (by decide) (by decide)
  fun_cases bodySize t with
  | case1 mark d rest h size isFloating hs =>
    have hmark : IsPlainChar mark := by
      simp only [Bool.and_eq_true, Bool.or_eq_true, beq_iff_eq] at h
      rcases h.1 with rfl | rfl
      · exact isPlainChar_of_val (by decide) (by decide)
      · exact isPlainChar_of_val (by decide) (by decide)
    have hnumber := Base.isPlain_hexadecimal.isPlainFront_numberSize (d :: rest)
    rw [hs] at hnumber
    have hall := (hnumber.cons hmark).cons hzero
    rwa [← Nat.add_assoc] at hall
  | case2 mark d rest _ h =>
    have hmark : IsPlainChar mark := by
      simp only [Bool.and_eq_true, Bool.or_eq_true, beq_iff_eq] at h
      rcases h.1 with rfl | rfl
      · exact isPlainChar_of_val (by decide) (by decide)
      · exact isPlainChar_of_val (by decide) (by decide)
    have hdigits := isPlainFront_digitsSize (fun _ ↦ isPlainChar_of_isBinary) (d :: rest)
    have hall := (hdigits.cons hmark).cons hzero
    rwa [← Nat.add_assoc] at hall
  | case3 mark d rest _ _ => exact Base.isPlain_decimal.isPlainFront_numberSize _
  | case4 _ => exact Base.isPlain_decimal.isPlainFront_numberSize _

/-- The size of a numeral with its suffix, if `n` is its size without. -/
def suffixed (n : Nat) (t : Text) : Nat := n + Text.prefixSize Text.isIdentifierPart (t.drop n)

theorem IsPlainFront.suffixed {t : Text} {n : Nat} (h : IsPlainFront t n) :
    IsPlainFront t (suffixed n t) := by
  have hsuffix := isPlainFront_takeWhile (fun _ ↦ isPlainChar_of_isIdentifierPart) (t.drop n)
  have hsize : Text.prefixSize Text.isIdentifierPart (t.drop n) =
      ((t.drop n).takeWhile Text.isIdentifierPart).length :=
    size_of_forall_isPlainChar fun c hc ↦
      isPlainChar_of_isIdentifierPart (List.mem_takeWhile_imp hc)
  rw [Numeral.suffixed, hsize]
  exact h.add hsuffix

theorem scan_eq (floating : Bool) (t : Text) :
    scan floating t = if starts t = true ∧ (bodySize t).2 = floating then
      .matched (suffixed (bodySize t).1 t) else .noMatch := by
  rw [scan]
  cases starts t with
  | false => simp
  | true => simp only [true_and, if_true, suffixed]

/-- A numeral is not empty. -/
theorem bodySize_pos {t : Text} (h : starts t = true) : 0 < (bodySize t).1 := by
  have hdecimal : 0 < (Base.decimal.numberSize t).1 := by
    fun_cases starts t with
    | case1 d rest =>
      have hd : d.isDigit = true := h
      have hne : (some d = some '.') = False := by
        simp only [Option.some.injEq, eq_iff_iff, iff_false]
        rintro rfl
        cases hd
      have hwhole : digitsSize Base.decimal.digit ('.' :: d :: rest) = 0 := rfl
      simp only [Base.numberSize, hwhole, List.drop_zero, Base.fractionSize, List.head?_cons, hne]
      simp only [decide_false, Bool.false_and, Bool.false_eq_true, if_false]
      omega
    | case2 d rest _ =>
      have hd : Base.decimal.digit d = true := by
        rw [starts] at h
        · exact h
        · assumption
      simp only [Base.numberSize, digitsSize, hd, if_true]
      omega
    | case3 => cases h
  fun_cases bodySize t with
  | case1 mark d rest _ size isFloating _ => simp only; omega
  | case2 mark d rest _ _ => simp only; omega
  | case3 mark d rest _ _ => exact hdecimal
  | case4 _ => exact hdecimal

theorem isWithinLine_scan (floating : Bool) (t : Text) : Scan.IsWithinLine t (scan floating t) := by
  rw [scan_eq]
  split
  · next h =>
    have hplain := (isPlainFront_bodySize t).suffixed
    have hpos : 0 < suffixed (bodySize t).1 t := Nat.add_pos_left (bodySize_pos h.1) _
    have hwithin := Scan.isWithinLine_of_prefix _ (List.take_prefix (suffixed (bodySize t).1 t) t)
      (by
        intro hnil
        have hlength := congrArg List.length hnil
        rw [List.length_take, Nat.min_eq_left hplain.le, List.length_nil] at hlength
        omega)
      fun c hc ↦ by
        obtain ⟨-, hcr, hlf⟩ := hplain.plain c hc
        simp [Text.isLineBreak, hcr, hlf]
    rwa [hplain.size_take] at hwithin
  · exact Scan.isWithinLine_noMatch

theorem fits_scan (floating : Bool) (t : Text) : Scan.Fits t (scan floating t) :=
  (isWithinLine_scan floating t).fits

/-! ### What follows a text changes its numeral only at the end -/

/-- The text ends with its numeral, or with one more character behind which the numeral of a longer
text goes on. The sizes are those without a suffix, in the text and in the longer one. -/
def RunsOut (t : Text) (n n' : Nat) : Prop :=
  t.drop (suffixed n t) = [] ∨
    ∃ c, t.drop (suffixed n t) = [c] ∧ Text.isLineBreak c = false ∧ suffixed n t < n'

theorem runsOut_of_drop_eq_nil {t : Text} {n n' : Nat} (h : t.drop n = []) : RunsOut t n n' := by
  refine .inl ?_
  rw [suffixed, h]
  exact h

theorem runsOut_of_drop_eq_quote {t : Text} {n n' : Nat} (h : t.drop n = ['\'']) (hn : n < n') :
    RunsOut t n n' := by
  have hsuffixed : suffixed n t = n := by
    rw [suffixed, h]
    rfl
  refine .inr ⟨'\'', ?_, rfl, ?_⟩
  · rw [hsuffixed, h]
  · rwa [hsuffixed]

theorem RunsOut.shift {t : Text} {k n n' : Nat} (h : RunsOut (t.drop k) n n') :
    RunsOut t (k + n) (k + n') := by
  have hsuffixed : suffixed (k + n) t = k + suffixed n (t.drop k) := by
    rw [suffixed, suffixed, List.drop_drop, Nat.add_assoc]
  rw [RunsOut, hsuffixed, ← List.drop_drop]
  refine h.imp id ?_
  rintro ⟨c, hc, hb, hlt⟩
  exact ⟨c, hc, hb, by omega⟩

section Digits

variable {digit : Char → Bool} (hquote : digit '\'' = false)
include hquote

theorem moreDigitsSize_append (t v : Text) :
    moreDigitsSize digit (t ++ v) = moreDigitsSize digit t ∨
      t.drop (moreDigitsSize digit t) = [] ∨
      t.drop (moreDigitsSize digit t) = ['\''] ∧
        moreDigitsSize digit t < moreDigitsSize digit (t ++ v) := by
  fun_induction moreDigitsSize digit t with
  | case1 d rest hd ih =>
    have hcons : moreDigitsSize digit ('\'' :: d :: rest ++ v) =
        2 + moreDigitsSize digit (rest ++ v) := by
      rw [List.cons_append, List.cons_append, moreDigitsSize, if_pos hd]
    have hdrop : ∀ n, ('\'' :: d :: rest).drop (2 + n) = rest.drop n := by
      intro n
      rw [Nat.add_comm]
      rfl
    rw [hcons, hdrop]
    rcases ih with h | h | ⟨h, hlt⟩
    · exact .inl (by rw [h])
    · exact .inr (.inl h)
    · exact .inr (.inr ⟨h, by omega⟩)
  | case2 d rest hd =>
    refine .inl ?_
    rw [List.cons_append, List.cons_append, moreDigitsSize, if_neg hd]
  | case3 d rest hne hd ih =>
    have hd' : d ≠ '\'' := by
      rintro rfl
      rw [hquote] at hd
      cases hd
    have hcons : moreDigitsSize digit (d :: rest ++ v) = 1 + moreDigitsSize digit (rest ++ v) := by
      rw [List.cons_append, moreDigitsSize, if_pos hd]
      exact fun _ _ h _ ↦ hd' h
    have hdrop : ∀ n, (d :: rest).drop (1 + n) = rest.drop n := by
      intro n
      rw [Nat.add_comm]
      rfl
    rw [hcons, hdrop]
    rcases ih with h | h | ⟨h, hlt⟩
    · exact .inl (by rw [h])
    · exact .inr (.inl h)
    · exact .inr (.inr ⟨h, by omega⟩)
  | case4 d rest hne hd =>
    by_cases hd' : d = '\''
    · subst hd'
      cases rest with
      | cons e rest => exact absurd rfl (hne e rest rfl)
      | nil =>
        rcases Nat.eq_zero_or_pos (moreDigitsSize digit (['\''] ++ v)) with h | h
        · exact .inl h
        · exact .inr (.inr ⟨rfl, h⟩)
    · refine .inl ?_
      rw [List.cons_append, moreDigitsSize, if_neg hd]
      exact fun _ _ h _ ↦ hd' h
  | case5 => exact .inr (.inl rfl)

theorem digitsSize_append (t v : Text) :
    digitsSize digit (t ++ v) = digitsSize digit t ∨ t.drop (digitsSize digit t) = [] ∨
      t.drop (digitsSize digit t) = ['\''] ∧ 0 < digitsSize digit t ∧
        digitsSize digit t < digitsSize digit (t ++ v) := by
  cases t with
  | nil => exact .inr (.inl rfl)
  | cons d rest =>
    by_cases hd : digit d = true
    · have hdrop : ∀ n, (d :: rest).drop (1 + n) = rest.drop n := by
        intro n
        rw [Nat.add_comm]
        rfl
      rw [List.cons_append, digitsSize, digitsSize, if_pos hd, if_pos hd, hdrop]
      rcases moreDigitsSize_append hquote rest v with h | h | ⟨h, hlt⟩
      · exact .inl (by rw [h])
      · exact .inr (.inl h)
      · exact .inr (.inr ⟨h, by omega, by omega⟩)
    · refine .inl ?_
      rw [List.cons_append, digitsSize, digitsSize, if_neg hd, if_neg hd]

end Digits

/-- A base that writes its digits and marks without the separator and without points. -/
structure Base.IsUsual (b : Base) : Prop extends b.IsPlain where
  quote : b.digit '\'' = false
  markQuote : b.exponentMark '\'' = false

theorem Base.isUsual_decimal : Base.decimal.IsUsual := ⟨Base.isPlain_decimal, rfl, rfl⟩

theorem Base.isUsual_hexadecimal : Base.hexadecimal.IsUsual := ⟨Base.isPlain_hexadecimal, rfl, rfl⟩

theorem Base.IsUsual.fractionSize_append {b : Base} (hb : b.IsUsual) (t v : Text) :
    b.fractionSize (t ++ v) = b.fractionSize t ∨ t.drop (b.fractionSize t) = [] ∨
      t.drop (b.fractionSize t) = ['\''] ∧ b.fractionSize t < b.fractionSize (t ++ v) := by
  have hdrop : ∀ (c : Char) (rest : Text) n, (c :: rest).drop (1 + n) = rest.drop n := by
    intro c rest n
    rw [Nat.add_comm]
    rfl
  cases t with
  | nil => exact .inr (.inl rfl)
  | cons c rest =>
    by_cases hc : c = '.'
    · subst hc
      cases rest with
      | nil => exact .inr (.inl rfl)
      | cons d rest =>
        rw [List.cons_append, Base.fractionSize_point, Base.fractionSize_point,
          Text.head?_append_of_ne_nil (by simp)]
        split
        · exact .inl rfl
        · rw [hdrop]
          rcases digitsSize_append hb.quote (d :: rest) v with h | h | ⟨h, -, hlt⟩
          · exact .inl (by rw [h])
          · exact .inr (.inl h)
          · exact .inr (.inr ⟨h, by omega⟩)
    · refine .inl ?_
      rw [List.cons_append, Base.fractionSize, Base.fractionSize]
      · exact fun _ h ↦ hc (List.cons.inj h).1
      · exact fun _ h ↦ hc (List.cons.inj h).1

theorem signSize_append {t : Text} (ht : t ≠ []) (v : Text) : signSize (t ++ v) = signSize t := by
  rw [signSize, Text.head?_append_of_ne_nil ht, signSize]

theorem signSize_le_length (t : Text) : signSize t ≤ t.length := (isPlainFront_signSize t).le

/-- Only a sign can be dropped as one. -/
theorem eq_sign_of_drop_signSize {r : Char} {rest : Text}
    (h : (r :: rest).drop (signSize (r :: rest)) = []) : rest = [] ∧ (r = '+' ∨ r = '-') := by
  have hlength := congrArg List.length h
  rw [List.length_drop, List.length_cons, List.length_nil, signSize] at hlength
  split at hlength
  · next hs =>
    exact ⟨List.eq_nil_of_length_eq_zero (by omega), by simpa using hs⟩
  · omega

/-- A mark without digits is a suffix. -/
theorem Base.IsUsual.suffixed_mark {b : Base} (hb : b.IsUsual) {mark : Char}
    (hm : b.exponentMark mark = true) {r : Text} (hr : r.takeWhile Text.isIdentifierPart = []) :
    suffixed 0 (mark :: r) = 1 := by
  have hpart := hb.exponentMark mark hm
  rw [suffixed, List.drop_zero, Text.prefixSize, List.takeWhile_cons, if_pos hpart, hr,
    Text.size_cons, (isPlainChar_of_isIdentifierPart hpart).1]
  rfl

/-- The sign of an exponent is taken into account only if a digit follows. -/
theorem Base.IsUsual.exponentSize_append {b : Base} (hb : b.IsUsual) (t v : Text) :
    b.exponentSize (t ++ v) = b.exponentSize t ∨
      RunsOut t (b.exponentSize t) (b.exponentSize (t ++ v)) := by
  cases t with
  | nil => exact .inr (runsOut_of_drop_eq_nil rfl)
  | cons mark rest =>
    by_cases hm : b.exponentMark mark = true
    · cases rest with
      | nil =>
        refine .inr (.inl ?_)
        have hzero : b.exponentSize [mark] = 0 := by
          rw [Base.exponentSize_cons, if_neg]
          rintro ⟨-, h⟩
          exact h rfl
        rw [hzero, hb.suffixed_mark hm (r := []) rfl]
        rfl
      | cons r rest =>
        have hsign : signSize (r :: rest ++ v) = signSize (r :: rest) := signSize_append (by simp) v
        have hdrop : (r :: rest ++ v).drop (signSize (r :: rest)) =
            (r :: rest).drop (signSize (r :: rest)) ++ v :=
          List.drop_append_of_le_length (signSize_le_length _)
        rw [List.cons_append, Base.exponentSize_cons, Base.exponentSize_cons, hsign, hdrop]
        simp only [hm, true_and]
        have hbehind : ∀ n, (mark :: r :: rest).drop (1 + signSize (r :: rest) + n) =
            ((r :: rest).drop (signSize (r :: rest))).drop n := by
          intro n
          rw [Nat.add_assoc, Nat.add_comm 1, List.drop_succ_cons, List.drop_drop]
        generalize hs : (r :: rest).drop (signSize (r :: rest)) = s at *
        rcases digitsSize_append (show Char.isDigit '\'' = false from rfl) s v with
          h | h | ⟨h, hpos, hlt⟩
        · exact .inl (by rw [h])
        · by_cases hzero : digitsSize Char.isDigit s = 0
          · rw [hzero, List.drop_zero] at h
            -- Nothing but the sign follows the mark.
            obtain ⟨rfl, hr⟩ := eq_sign_of_drop_signSize (hs.trans h)
            have hr' : Text.isLineBreak r = false ∧ Text.isIdentifierPart r = false := by
              rcases hr with rfl | rfl <;> exact ⟨rfl, rfl⟩
            have hone : suffixed 0 [mark, r] = 1 :=
              hb.suffixed_mark hm (by rw [List.takeWhile_cons, if_neg (by simp [hr'.2])])
            simp only [hzero, ne_eq, not_true_eq_false, if_false]
            split
            · next hdigits =>
              refine .inr (.inr ⟨r, ?_, hr'.1, ?_⟩)
              · rw [hone]
                rfl
              · rw [hone]
                omega
            · exact .inl rfl
          · simp only [hzero, ne_eq, not_false_eq_true, if_true]
            exact .inr (runsOut_of_drop_eq_nil ((hbehind _).trans h))
        · rw [if_pos (by omega), if_pos (by omega)]
          exact .inr (runsOut_of_drop_eq_quote ((hbehind _).trans h) (by omega))
    · refine .inl ?_
      rw [List.cons_append, Base.exponentSize_cons, Base.exponentSize_cons, if_neg (fun h ↦ hm h.1),
        if_neg (fun h ↦ hm h.1)]

theorem Base.numberSize_eq (b : Base) {t s : Text} {n : Nat} (hn : digitsSize b.digit t = n)
    (hs : t.drop n = s) : b.numberSize t =
      (n + b.fractionSize s + b.exponentSize (s.drop (b.fractionSize s)),
        b.fractionSize s + b.exponentSize (s.drop (b.fractionSize s)) != 0) := by
  subst hn hs
  simp only [Base.numberSize, List.drop_drop]

theorem Base.IsUsual.numberSize_append {b : Base} (hb : b.IsUsual) (t v : Text) :
    b.numberSize (t ++ v) = b.numberSize t ∨
      RunsOut t (b.numberSize t).1 (b.numberSize (t ++ v)).1 := by
  have hnil : b.fractionSize [] = 0 ∧ b.exponentSize [] = 0 := ⟨rfl, rfl⟩
  have hquote : b.fractionSize ['\''] = 0 ∧ b.exponentSize ['\''] = 0 := by
    refine ⟨rfl, ?_⟩
    rw [Base.exponentSize_cons, if_neg]
    rintro ⟨h, -⟩
    rw [hb.markQuote] at h
    cases h
  have hle := digitsSize_le_length b.digit t
  obtain ⟨s, hs⟩ : ∃ s, t.drop (digitsSize b.digit t) = s := ⟨_, rfl⟩
  rw [b.numberSize_eq rfl hs]
  rcases digitsSize_append hb.quote t v with h | h | ⟨h, -, hlt⟩
  · have hs' : (t ++ v).drop (digitsSize b.digit t) = s ++ v := by
      rw [List.drop_append_of_le_length hle, hs]
    have hlef := (hb.toIsPlain.isPlainFront_fractionSize s).le
    rw [b.numberSize_eq h hs']
    rcases hb.fractionSize_append s v with hf | hf | ⟨hf, hlt⟩
    · rw [hf, List.drop_append_of_le_length hlef]
      rcases hb.exponentSize_append (s.drop (b.fractionSize s)) v with he | he
      · exact .inl (by rw [he])
      · have hbehind : t.drop (digitsSize b.digit t + b.fractionSize s) =
            s.drop (b.fractionSize s) := by rw [← List.drop_drop, hs]
        rw [← hbehind] at he
        have hshift := he.shift
        rw [hbehind] at hshift
        exact .inr hshift
    · refine .inr (runsOut_of_drop_eq_nil ?_)
      rw [hf, hnil.2, Nat.add_zero, ← List.drop_drop, hs, hf]
    · refine .inr (runsOut_of_drop_eq_quote ?_ ?_)
      · rw [hf, hquote.2, Nat.add_zero, ← List.drop_drop, hs, hf]
      · rw [hf, hquote.2]
        omega
  · obtain rfl : s = [] := hs.symm.trans h
    refine .inr (runsOut_of_drop_eq_nil ?_)
    rw [hnil.1, List.drop_zero, hnil.2]
    exact hs
  · obtain rfl : s = ['\''] := hs.symm.trans h
    refine .inr (runsOut_of_drop_eq_quote ?_ ?_)
    · rw [hquote.1, List.drop_zero, hquote.2]
      exact hs
    · rw [hquote.1, List.drop_zero, hquote.2, Base.numberSize]
      omega

theorem bodySize_prefixed (mark d : Char) (rest : Text) :
    bodySize ('0' :: mark :: d :: rest) =
      if (mark = 'x' ∨ mark = 'X') ∧ (isHex d = true ∨ d = '.') then
        (2 + (Base.hexadecimal.numberSize (d :: rest)).1,
          (Base.hexadecimal.numberSize (d :: rest)).2)
      else if (mark = 'b' ∨ mark = 'B') ∧ isBinary d = true then
        (2 + digitsSize isBinary (d :: rest), false)
      else Base.decimal.numberSize ('0' :: mark :: d :: rest) := by
  simp [bodySize]

theorem bodySize_decimal {t : Text} (h : ∀ mark d rest, t ≠ '0' :: mark :: d :: rest) :
    bodySize t = Base.decimal.numberSize t := by
  rw [bodySize]
  exact h

/-- **What follows a text changes its numeral only if the text runs out in it**, or one character
behind it. -/
theorem bodySize_append (t v : Text) :
    bodySize (t ++ v) = bodySize t ∨ RunsOut t (bodySize t).1 (bodySize (t ++ v)).1 := by
  have hdecimal := Base.isUsual_decimal.numberSize_append t v
  by_cases ht : ∃ mark d rest, t = '0' :: mark :: d :: rest
  · obtain ⟨mark, d, rest, rfl⟩ := ht
    have hcons : '0' :: mark :: d :: rest ++ v = '0' :: mark :: d :: (rest ++ v) := rfl
    rw [hcons] at hdecimal ⊢
    rw [bodySize_prefixed, bodySize_prefixed]
    split
    · rcases Base.isUsual_hexadecimal.numberSize_append (d :: rest) v with h | h
      · rw [List.cons_append] at h
        exact .inl (by rw [h])
      · exact .inr (RunsOut.shift (k := 2) h)
    · split
      · rcases digitsSize_append (show isBinary '\'' = false from rfl) (d :: rest) v with
          h | h | ⟨h, -, hlt⟩
        · rw [List.cons_append] at h
          exact .inl (by rw [h])
        · exact .inr (RunsOut.shift (k := 2) (runsOut_of_drop_eq_nil h))
        · exact .inr (RunsOut.shift (k := 2) (runsOut_of_drop_eq_quote h hlt))
      · exact hdecimal
  · have ht' : ∀ mark d rest, t ≠ '0' :: mark :: d :: rest := fun mark d rest h ↦
      ht ⟨mark, d, rest, h⟩
    rw [bodySize_decimal ht']
    by_cases htv : ∃ mark d rest, t ++ v = '0' :: mark :: d :: rest
    · obtain ⟨mark, d, rest, htv⟩ := htv
      -- The longer text may have a prefix that the shorter one was too short for.
      match t, ht' with
      | [], _ => exact .inr (runsOut_of_drop_eq_nil List.drop_nil)
      | [c], _ =>
        obtain rfl : c = '0' := (List.cons.inj htv).1
        exact .inr (runsOut_of_drop_eq_nil rfl)
      | [c, m], _ =>
        obtain ⟨rfl, hm⟩ := List.cons.inj htv
        obtain ⟨rfl, -⟩ := List.cons.inj hm
        have hmark : (m = 'x' ∨ m = 'X') ∨ (m = 'b' ∨ m = 'B') →
            ∀ n, RunsOut ['0', m] (Base.decimal.numberSize ['0', m]).1 n := by
          rintro ((rfl | rfl) | (rfl | rfl)) n <;> exact .inl rfl
        rw [htv, bodySize_prefixed]
        split
        · next h => exact .inr (hmark (.inl h.1) _)
        · split
          · next h => exact .inr (hmark (.inr h.1) _)
          · rw [← htv]
            exact hdecimal
      | c :: m :: e :: t, ht' =>
        obtain ⟨rfl, -⟩ := List.cons.inj htv
        exact absurd rfl (ht' m e t)
    · rw [bodySize_decimal fun mark d rest h ↦ htv ⟨mark, d, rest, h⟩]
      exact hdecimal

theorem starts_append {t : Text} (hnil : t ≠ []) (hpoint : t ≠ ['.']) (v : Text) :
    starts (t ++ v) = starts t := by
  match t with
  | [] => exact absurd rfl hnil
  | [c] =>
    have hc : c ≠ '.' := fun hc ↦ hpoint (by rw [hc])
    rw [List.singleton_append, starts, starts]
    · exact fun _ _ h _ ↦ hc h
    · exact fun _ _ h _ ↦ hc h
  | c :: d :: t =>
    by_cases hc : c = '.'
    · rw [hc]
      rfl
    · rw [List.cons_append, starts, starts]
      · exact fun _ _ h _ ↦ hc h
      · exact fun _ _ h _ ↦ hc h

/-- A text that does not run out in its numeral has a character behind it. -/
theorem suffixed_append {t : Text} {n : Nat} (hn : IsPlainFront t n)
    (h : t.drop (suffixed n t) ≠ []) (v : Text) : suffixed n (t ++ v) = suffixed n t := by
  have hsize : suffixed n t = n + ((t.drop n).takeWhile Text.isIdentifierPart).length := by
    rw [suffixed, Text.prefixSize, size_of_forall_isPlainChar]
    exact fun c hc ↦ isPlainChar_of_isIdentifierPart (List.mem_takeWhile_imp hc)
  have hstop : ∃ c ∈ t.drop n, Text.isIdentifierPart c = false := by
    refine Text.exists_of_takeWhile_ne fun hself ↦ h ?_
    rw [hsize, hself, ← List.drop_drop, List.drop_length]
  rw [suffixed, suffixed, List.drop_append_of_le_length hn.le, Text.prefixSize, Text.prefixSize,
    Text.takeWhile_append_of_mem hstop]

/-- **A numeral that does not reach the end of its text stays as it is**, unless a longer one takes
its place: one that goes on behind a sign or a separator. -/
theorem scan_append_of_inside {t : Text} (hnil : t ≠ []) (hpoint : t ≠ ['.'])
    (h : ∀ floating, scan floating t ≠ .matched (Text.size t)) (floating : Bool) (v : Text) :
    scan floating (t ++ v) = scan floating t ∨
      starts t = true ∧ suffixed (bodySize t).1 t < (bodySize (t ++ v)).1 := by
  have hstarts := starts_append hnil hpoint v
  by_cases hs : starts t = true
  · have hplain := (isPlainFront_bodySize t).suffixed
    have hne : t.drop (suffixed (bodySize t).1 t) ≠ [] := by
      intro hdrop
      refine h (bodySize t).2 ?_
      rw [scan_eq, if_pos ⟨hs, rfl⟩, ← hplain.size_take,
        List.take_of_length_le (List.drop_eq_nil_iff.1 hdrop)]
    rcases bodySize_append t v with hbody | hdrop | ⟨c, -, -, hlt⟩
    · rw [scan_eq, scan_eq, hstarts, hbody, suffixed_append (isPlainFront_bodySize t) hne]
      exact .inl rfl
    · exact absurd hdrop hne
    · exact .inr ⟨hs, hlt⟩
  · rw [scan_eq, scan_eq, hstarts, if_neg (fun hc ↦ hs hc.1), if_neg (fun hc ↦ hs hc.1)]
    exact .inl rfl

/-- **A numeral is settled by the end of its line.** -/
theorem scan_append {w : Text} (hw : w.IsBroken) (floating : Bool) (v : Text) :
    scan floating (w ++ v) = scan floating w := by
  obtain ⟨b, hb, hbreak⟩ := hw
  have hplain := (isPlainFront_bodySize w).suffixed
  -- The line break is behind the numeral, and not part of it.
  have hbehind : b ∈ w.drop (suffixed (bodySize w).1 w) := by
    rw [← List.take_append_drop (suffixed (bodySize w).1 w) w] at hb
    rcases List.mem_append.1 hb with hb | hb
    · obtain ⟨-, hcr, hlf⟩ := hplain.plain b hb
      simp [Text.isLineBreak, hcr, hlf] at hbreak
    · exact hb
  have hne : w.drop (suffixed (bodySize w).1 w) ≠ [] := List.ne_nil_of_mem hbehind
  have hbody : bodySize (w ++ v) = bodySize w := by
    rcases bodySize_append w v with h | h | ⟨c, hc, hcb, -⟩
    · exact h
    · exact absurd h hne
    · rw [hc, List.mem_singleton] at hbehind
      rw [← hbehind, hbreak] at hcb
      cases hcb
  have hstarts : starts (w ++ v) = starts w := by
    refine starts_append (List.ne_nil_of_mem hb) ?_ v
    rintro rfl
    obtain rfl := List.mem_singleton.1 hb
    cases hbreak
  rw [scan_eq, scan_eq, hstarts, hbody, suffixed_append (isPlainFront_bodySize w) hne]

end LexFront.Cpp.Numeral
