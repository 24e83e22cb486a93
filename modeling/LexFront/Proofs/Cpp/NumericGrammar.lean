import LexFront.Proofs.Cpp.Numeral
import Mathlib.Data.Bool.AllAny

/-!
# The grammar of numeric literals

Integer and floating literals as C++20 writes them: digits in one of four bases, with a quote
between two of them where there is to be a gap, a fraction and an exponent, and a suffix.
`IsInteger` and `IsFloating` have one case for each production.

The scanner knows neither the productions nor the suffixes. It takes the parts of a number one after
the other, each as far as it goes, and then all characters that an identifier may have. So each part
is read in full if what follows it does not go on with it, and what follows a part begins with a
character of its own: a point, the letter of an exponent, that of a suffix, or what comes behind the
literal.

Key facts:

* `IsDigits.digitsSize_append`: digits are read to their end, whatever follows.
* `Base.Spells.numberSize_append`: the parts of a number are told apart.
* `IsInteger.isTaken`, `IsFloating.isTaken`: a literal is read as a whole, and as what it is.
-/

set_option autoImplicit false

namespace LexFront.Cpp.Numeral

/-! ### The grammar -/

/-- The digits of base two. -/
def binaryDigits : Text := ['0', '1']

/-- The digits of base eight. -/
def octalDigits : Text := ['0', '1', '2', '3', '4', '5', '6', '7']

/-- The digits that a decimal integer may begin with. -/
def nonzeroDigits : Text := ['1', '2', '3', '4', '5', '6', '7', '8', '9']

/-- The digits of base ten. -/
def decimalDigits : Text := '0' :: nonzeroDigits

/-- The digits of base sixteen. -/
def hexDigits : Text :=
  decimalDigits ++ ['a', 'b', 'c', 'd', 'e', 'f', 'A', 'B', 'C', 'D', 'E', 'F']

/-- A row of digits, of which the first one may be restricted, with or without a quote between any
two of them. -/
inductive IsDigits (first later : Text) : Text → Prop where
  | one {d : Char} : d ∈ first → IsDigits first later [d]
  | next {t : Text} {d : Char} : IsDigits first later t → d ∈ later →
      IsDigits first later (t ++ [d])
  | separated {t : Text} {d : Char} : IsDigits first later t → d ∈ later →
      IsDigits first later (t ++ ['\'', d])

/-- The suffixes of integers: for unsigned ones, for long ones of three kinds, and for both in
either order. -/
def integerSuffixes : List Text :=
  let unsigned : List Text := [[], ['u'], ['U']]
  let long : List Text := [[], ['l'], ['L'], ['l', 'l'], ['L', 'L'], ['z'], ['Z']]
  unsigned.flatMap fun u ↦ long.flatMap fun l ↦ [u ++ l, l ++ u]

/-- The suffixes of floating literals. -/
def floatingSuffixes : List Text := [[], ['f'], ['F'], ['l'], ['L']]

/-- The integer literals. -/
inductive IsInteger : Text → Prop where
  | binary {b : Char} {t s : Text} : b ∈ ['b', 'B'] → IsDigits binaryDigits binaryDigits t →
      s ∈ integerSuffixes → IsInteger ('0' :: b :: (t ++ s))
  | octal {t s : Text} : IsDigits ['0'] octalDigits t → s ∈ integerSuffixes → IsInteger (t ++ s)
  | decimal {t s : Text} : IsDigits nonzeroDigits decimalDigits t → s ∈ integerSuffixes →
      IsInteger (t ++ s)
  | hexadecimal {x : Char} {t s : Text} : x ∈ ['x', 'X'] → IsDigits hexDigits hexDigits t →
      s ∈ integerSuffixes → IsInteger ('0' :: x :: (t ++ s))

/-- Digits with a point before, behind or among them. -/
inductive IsFractional (digits : Text) : Text → Prop where
  | before {t : Text} : IsDigits digits digits t → IsFractional digits ('.' :: t)
  | behind {t : Text} : IsDigits digits digits t → IsFractional digits (t ++ ['.'])
  | among {s t : Text} : IsDigits digits digits s → IsDigits digits digits t →
      IsFractional digits (s ++ '.' :: t)

/-- An exponent. Its digits are decimal, whatever the base is. -/
inductive IsExponent (marks : Text) : Text → Prop where
  | mk {m : Char} {sign t : Text} : m ∈ marks → sign ∈ [[], ['+'], ['-']] →
      IsDigits decimalDigits decimalDigits t → IsExponent marks (m :: (sign ++ t))

/-- The floating literals. A decimal one needs a point or an exponent, a hexadecimal one needs an
exponent. -/
inductive IsFloating : Text → Prop where
  | point {t s : Text} : IsFractional decimalDigits t → s ∈ floatingSuffixes → IsFloating (t ++ s)
  | pointExponent {t e s : Text} : IsFractional decimalDigits t → IsExponent ['e', 'E'] e →
      s ∈ floatingSuffixes → IsFloating (t ++ (e ++ s))
  | exponent {t e s : Text} : IsDigits decimalDigits decimalDigits t → IsExponent ['e', 'E'] e →
      s ∈ floatingSuffixes → IsFloating (t ++ (e ++ s))
  | hexPoint {x : Char} {t e s : Text} : x ∈ ['x', 'X'] → IsFractional hexDigits t →
      IsExponent ['p', 'P'] e → s ∈ floatingSuffixes → IsFloating ('0' :: x :: (t ++ (e ++ s)))
  | hexExponent {x : Char} {t e s : Text} : x ∈ ['x', 'X'] → IsDigits hexDigits hexDigits t →
      IsExponent ['p', 'P'] e → s ∈ floatingSuffixes → IsFloating ('0' :: x :: (t ++ (e ++ s)))

/-! ### What follows a part -/

/-- The first character of a text, if there is one, has a property. -/
def Heads (P : Char → Prop) (t : Text) : Prop := ∀ c ∈ t.head?, P c

theorem Heads.mono {P Q : Char → Prop} {t : Text} (h : Heads P t) (hPQ : ∀ c, P c → Q c) :
    Heads Q t := fun c hc ↦ hPQ c (h c hc)

theorem Heads.append {P : Char → Prop} {s t : Text} (hs : Heads P s) (ht : Heads P t) :
    Heads P (s ++ t) := by
  cases s with
  | nil => exact ht
  | cons c s => exact hs

theorem heads_nil {P : Char → Prop} : Heads P [] := by simp [Heads]

theorem heads_cons_iff {P : Char → Prop} {c : Char} {t : Text} : Heads P (c :: t) ↔ P c := by
  simp [Heads]

theorem heads_cons {P : Char → Prop} {c : Char} {t : Text} (h : P c) : Heads P (c :: t) :=
  heads_cons_iff.2 h

instance (P : Char → Prop) [DecidablePred P] : (t : Text) → Decidable (Heads P t)
  | [] => isTrue heads_nil
  | _ :: _ => decidable_of_iff' _ heads_cons_iff

/-- A character that does not go on with some digits. -/
def Closes (digit : Char → Bool) (c : Char) : Prop := digit c = false ∧ c ≠ '\''

instance (digit : Char → Bool) (c : Char) : Decidable (Closes digit c) :=
  inferInstanceAs (Decidable (digit c = false ∧ c ≠ '\''))

theorem moreDigitsSize_of_heads {digit : Char → Bool} {t : Text} (h : Heads (Closes digit) t) :
    moreDigitsSize digit t = 0 := by
  cases t with
  | nil => rfl
  | cons c t =>
    obtain ⟨hdigit, hquote⟩ := h c rfl
    rw [moreDigitsSize, if_neg (by simp [hdigit])]
    exact fun _ _ hc _ ↦ hquote hc

theorem digitsSize_of_heads {digit : Char → Bool} {t : Text} (h : Heads (Closes digit) t) :
    digitsSize digit t = 0 := by
  cases t with
  | nil => rfl
  | cons c t => rw [digitsSize, if_neg (by simp [(h c rfl).1])]

/-! ### Digits -/

theorem IsDigits.exists_cons {first later t : Text} (h : IsDigits first later t) :
    ∃ d u, t = d :: u ∧ d ∈ first := by
  induction h with
  | @one d hd => exact ⟨d, [], rfl, hd⟩
  | next _ _ ih =>
    obtain ⟨e, u, rfl, he⟩ := ih
    exact ⟨e, _, rfl, he⟩
  | separated _ _ ih =>
    obtain ⟨e, u, rfl, he⟩ := ih
    exact ⟨e, _, rfl, he⟩

/-- The characters of a row of digits. -/
theorem IsDigits.subset {first later t chars : Text} (h : IsDigits first later t)
    (hfirst : first ⊆ chars) (hlater : later ⊆ chars) (hquote : '\'' ∈ chars) : t ⊆ chars := by
  induction h with
  | one hd => exact List.cons_subset.2 ⟨hfirst hd, List.nil_subset _⟩
  | next _ hd ih =>
    exact List.append_subset.2 ⟨ih, List.cons_subset.2 ⟨hlater hd, List.nil_subset _⟩⟩
  | separated _ hd ih =>
    exact List.append_subset.2
      ⟨ih, List.cons_subset.2 ⟨hquote, List.cons_subset.2 ⟨hlater hd, List.nil_subset _⟩⟩⟩

theorem IsDigits.mono {first later first' later' t : Text} (h : IsDigits first later t)
    (hfirst : first ⊆ first') (hlater : later ⊆ later') : IsDigits first' later' t := by
  induction h with
  | one hd => exact .one (hfirst hd)
  | next _ hd ih => exact .next ih (hlater hd)
  | separated _ hd ih => exact .separated ih (hlater hd)

/-- **Digits are read to their end**, and then what follows them. -/
theorem IsDigits.digitsSize_append {first later t : Text} (h : IsDigits first later t)
    {digit : Char → Bool} (hquote : digit '\'' = false) (hfirst : ∀ d ∈ first, digit d = true)
    (hlater : ∀ d ∈ later, digit d = true) (s : Text) :
    digitsSize digit (t ++ s) = t.length + moreDigitsSize digit s := by
  -- The grammar puts the last digit on its right, so the induction is for all that may follow.
  induction h generalizing s with
  | @one d hd => rw [List.singleton_append, digitsSize, if_pos (hfirst d hd), List.length_singleton]
  | @next t d _ hd ih =>
    have hmore : moreDigitsSize digit (d :: s) = 1 + moreDigitsSize digit s := by
      rw [moreDigitsSize, if_pos (hlater d hd)]
      rintro - - rfl -
      cases hquote.symm.trans (hlater _ hd)
    rw [List.append_assoc, List.singleton_append, ih, hmore, List.length_append,
      List.length_singleton, Nat.add_assoc]
  | @separated t d _ hd ih =>
    have hmore : moreDigitsSize digit ('\'' :: d :: s) = 2 + moreDigitsSize digit s := by
      rw [moreDigitsSize, if_pos (hlater d hd)]
    have happend : t ++ ['\'', d] ++ s = t ++ '\'' :: d :: s := by simp
    rw [happend, ih, hmore, List.length_append, Nat.add_assoc]
    rfl

/-! ### The parts of a number -/

/-- The digits and the letters of exponents that a base is written with. -/
structure Base.Spells (b : Base) (digits marks : Text) : Prop extends b.IsUsual where
  digit_of_mem : ∀ d ∈ digits, b.digit d = true
  mark_of_mem : ∀ m ∈ marks, b.exponentMark m = true
  point : b.digit '.' = false
  mark : ∀ m ∈ marks, Closes b.digit m ∧ m ≠ '.'
  digit_part : ∀ c, b.digit c = true → Text.isIdentifierPart c = true

theorem isIdentifierPart_of_isDigit {c : Char} (h : c.isDigit = true) :
    Text.isIdentifierPart c = true := by
  simp [Text.isIdentifierPart, Char.isAlphanum, h]

theorem isIdentifierPart_of_isHex {c : Char} (h : isHex c = true) :
    Text.isIdentifierPart c = true := by
  rw [isHex, Bool.or_eq_true, Bool.or_eq_true] at h
  rcases h with (h | h) | h
  · exact isIdentifierPart_of_isDigit h
  all_goals
    simp only [Bool.and_eq_true, decide_eq_true_eq, Char.le_def, UInt32.le_iff_toNat_le] at h
    have hf : 'f'.val.toNat ≤ 'z'.val.toNat ∧ 'F'.val.toNat ≤ 'Z'.val.toNat := by decide
    simp only [Text.isIdentifierPart, Char.isAlphanum, Bool.or_eq_true, Text.isAlpha_iff]
    omega

theorem spells_decimal : Base.decimal.Spells decimalDigits ['e', 'E'] where
  toIsUsual := Base.isUsual_decimal
  digit_of_mem := List.all_iff_forall_prop.1 (by decide)
  mark_of_mem := List.all_iff_forall_prop.1 (by decide)
  point := rfl
  mark := List.all_iff_forall_prop.1 (by decide)
  digit_part _ h := isIdentifierPart_of_isDigit h

theorem spells_hexadecimal : Base.hexadecimal.Spells hexDigits ['p', 'P'] where
  toIsUsual := Base.isUsual_hexadecimal
  digit_of_mem := List.all_iff_forall_prop.1 (by decide)
  mark_of_mem := List.all_iff_forall_prop.1 (by decide)
  point := rfl
  mark := List.all_iff_forall_prop.1 (by decide)
  digit_part _ h := isIdentifierPart_of_isHex h

/-- The parts of a number: digits, a fraction and an exponent, each of which may be missing. -/
structure IsNumber (digits marks whole fraction exponent : Text) : Prop where
  whole : whole = [] ∨ IsDigits digits digits whole
  fraction : fraction = [] ∨
    ∃ part, fraction = '.' :: part ∧ (part = [] ∨ IsDigits digits digits part)
  exponent : exponent = [] ∨ IsExponent marks exponent

/-- A character that does not go on with a number that has no exponent yet. -/
structure Base.Ends (b : Base) (c : Char) : Prop where
  digit : Closes b.digit c
  point : c ≠ '.'
  mark : b.exponentMark c = false

theorem Base.ends_iff {b : Base} {c : Char} :
    b.Ends c ↔ Closes b.digit c ∧ c ≠ '.' ∧ b.exponentMark c = false :=
  ⟨fun h ↦ ⟨h.digit, h.point, h.mark⟩, fun h ↦ ⟨h.1, h.2.1, h.2.2⟩⟩

instance (b : Base) (c : Char) : Decidable (b.Ends c) := decidable_of_iff' _ Base.ends_iff

namespace Base.Spells

variable {b : Base} {digits marks : Text} (hb : b.Spells digits marks)
include hb

theorem digitsSize_append {t s : Text} (ht : t = [] ∨ IsDigits digits digits t)
    (hs : Heads (Closes b.digit) s) : digitsSize b.digit (t ++ s) = t.length := by
  rcases ht with rfl | ht
  · exact digitsSize_of_heads hs
  · rw [ht.digitsSize_append hb.quote hb.digit_of_mem hb.digit_of_mem, moreDigitsSize_of_heads hs,
      Nat.add_zero]

theorem fractionSize_append {t s : Text}
    (ht : t = [] ∨ ∃ part, t = '.' :: part ∧ (part = [] ∨ IsDigits digits digits part))
    (hs : Heads (fun c ↦ Closes b.digit c ∧ c ≠ '.') s) :
    b.fractionSize (t ++ s) = t.length := by
  rcases ht with rfl | ⟨part, rfl, hpart⟩
  · cases s with
    | nil => rfl
    | cons c s =>
      rw [List.nil_append, fractionSize]
      · rfl
      · rintro rest hc
        exact (hs c rfl).2 (List.cons.inj hc).1
  · have hpoint : (part ++ s).head? ≠ some '.' := by
      have hheads : Heads (· ≠ '.') (part ++ s) := by
        refine Heads.append ?_ (hs.mono fun _ hc ↦ hc.2)
        rcases hpart with rfl | hpart
        · exact heads_nil
        · obtain ⟨d, u, rfl, hd⟩ := hpart.exists_cons
          refine heads_cons ?_
          rintro rfl
          cases hb.point.symm.trans (hb.digit_of_mem _ hd)
      exact fun h ↦ hheads '.' h rfl
    rw [List.cons_append, fractionSize_point, if_neg fun h ↦ hpoint h.1,
      hb.digitsSize_append hpart (hs.mono fun _ hc ↦ hc.1), List.length_cons, Nat.add_comm]

theorem exponentSize_append {t s : Text} (ht : IsExponent marks t)
    (hs : Heads (Closes Char.isDigit) s) : b.exponentSize (t ++ s) = t.length := by
  obtain ⟨hm, hsign, hdigits⟩ := ht
  rename_i m sign t
  obtain ⟨d, u, rfl, hd⟩ := hdigits.exists_cons
  have hsize : digitsSize Char.isDigit (d :: u ++ s) = (d :: u).length :=
    spells_decimal.digitsSize_append (.inr hdigits) hs
  have hsigned : signSize (sign ++ (d :: u ++ s)) = sign.length := by
    simp only [List.mem_cons, List.not_mem_nil, or_false] at hsign
    rcases hsign with rfl | rfl | rfl
    · have hne : d ≠ '+' ∧ d ≠ '-' :=
        (List.all_iff_forall_prop.1 (by decide) : ∀ d ∈ decimalDigits, d ≠ '+' ∧ d ≠ '-') d hd
      simp [signSize, hne]
    · rfl
    · rfl
  rw [List.cons_append, List.append_assoc, exponentSize_cons, hsigned, List.drop_left, hsize,
    if_pos ⟨hb.mark_of_mem m hm, by simp⟩, List.length_cons (a := m), List.length_append]
  omega

/-- **The parts of a number are told apart**, and from what follows them. -/
theorem numberSize_append {whole fraction exponent s : Text}
    (h : IsNumber digits marks whole fraction exponent) (hs : Heads (Closes Char.isDigit) s)
    (hs' : exponent = [] → Heads b.Ends s) :
    b.numberSize (whole ++ (fraction ++ (exponent ++ s))) =
      (whole.length + fraction.length + exponent.length,
        fraction.length + exponent.length != 0) := by
  have hbehind : Heads (fun c ↦ Closes b.digit c ∧ c ≠ '.') (exponent ++ s) := by
    rcases h.exponent with rfl | ⟨hm, -, -⟩
    · exact (hs' rfl).mono fun _ hc ↦ ⟨hc.digit, hc.point⟩
    · exact heads_cons (hb.mark _ hm)
  have hpoint : Heads (Closes b.digit) (fraction ++ (exponent ++ s)) := by
    rcases h.fraction with rfl | ⟨part, rfl, -⟩
    · exact hbehind.mono fun _ hc ↦ hc.1
    · exact heads_cons ⟨hb.point, by decide⟩
  have hexponent : b.exponentSize (exponent ++ s) = exponent.length := by
    rcases h.exponent with rfl | he
    · cases s with
      | nil => rfl
      | cons c s =>
        rw [List.nil_append, exponentSize_cons, if_neg]
        · rfl
        · rintro ⟨hmark, -⟩
          cases (hs' rfl c rfl).mark.symm.trans hmark
    · exact hb.exponentSize_append he hs
  rw [b.numberSize_eq (hb.digitsSize_append h.whole hpoint) List.drop_left,
    hb.fractionSize_append h.fraction hbehind, List.drop_left, hexponent]

end Base.Spells

/-! ### Suffixes -/

/-- A character that goes on with no literal: it is no part of an identifier, no point, no quote,
and no backslash, which might begin a splice. -/
def IsBehind (c : Char) : Prop := Text.isIdentifierPart c = false ∧ c ∉ ['.', '\'', '\\']

theorem IsBehind.closes {digit : Char → Bool} {c : Char} (hc : IsBehind c)
    (hdigit : ∀ d, digit d = true → Text.isIdentifierPart d = true) : Closes digit c := by
  refine ⟨?_, fun h ↦ hc.2 (by simp [h])⟩
  rw [← Bool.not_eq_true]
  exact fun h ↦ absurd (hdigit c h) (by simp [hc.1])

theorem Base.Spells.ends_of_isBehind {b : Base} {digits marks : Text} (hb : b.Spells digits marks)
    {c : Char} (hc : IsBehind c) : b.Ends c where
  digit := hc.closes hb.digit_part
  point h := hc.2 (by simp [h])
  mark := by
    rw [← Bool.not_eq_true]
    exact fun h ↦ absurd (hb.exponentMark c h) (by simp [hc.1])

/-- The suffixes of all literals. -/
def suffixes : List Text := integerSuffixes ++ floatingSuffixes

theorem isIdentifierPart_of_suffix {s : Text} (hs : s ∈ suffixes) :
    ∀ c ∈ s, Text.isIdentifierPart c = true := by
  have hall : ∀ s ∈ suffixes, s.all Text.isIdentifierPart = true := by decide
  exact List.all_eq_true.1 (hall s hs)

theorem heads_of_suffix : ∀ s ∈ suffixes, Heads Base.decimal.Ends s := by decide

theorem heads_of_integerSuffix : ∀ s ∈ integerSuffixes, Heads Base.hexadecimal.Ends s := by decide

/-! ### Reading literals -/

/-- The characters that decimal literals are written with. -/
def decimalChars : Text :=
  decimalDigits ++
    ['\'', '.', 'e', 'E', '+', '-', 'u', 'U', 'l', 'L', 'z', 'Z', 'f', 'F']

/-- The characters that literals are written with. -/
def literalChars : Text := hexDigits ++ ['x', 'X', 'p', 'P'] ++ decimalChars

theorem suffix_subset {s : Text} (hs : s ∈ suffixes) : s ⊆ decimalChars := by
  have hall : ∀ s ∈ suffixes, s ⊆ decimalChars := by decide
  exact hall s hs

theorem suffix_subset_literalChars {s : Text} (hs : s ∈ suffixes) : s ⊆ literalChars := fun _ hc ↦
  List.mem_append_right _ (suffix_subset hs hc)

/-- A suffix ends a decimal number, and so does what comes behind a literal. -/
theorem ends_suffix_append {s r : Text} (hs : s ∈ suffixes) (hr : Heads IsBehind r) :
    Heads Base.decimal.Ends (s ++ r) :=
  (heads_of_suffix s hs).append (hr.mono fun _ hc ↦ spells_decimal.ends_of_isBehind hc)

/-- A literal is read as a whole, up to a suffix as a body of its own, whatever comes behind it. -/
structure IsTaken (floating : Bool) (w : Text) : Prop where
  subset : w ⊆ literalChars
  starts {r : Text} : Heads IsBehind r → starts (w ++ r) = true
  body : ∃ body suffix, w = body ++ suffix ∧ suffix ∈ suffixes ∧
    ∀ r, Heads IsBehind r → bodySize (w ++ r) = (body.length, floating)

/-- **What is read like that is found**, and nothing behind it. -/
theorem IsTaken.suffixed_eq {floating : Bool} {w r : Text} (h : IsTaken floating w)
    (hr : Heads IsBehind r) : suffixed (Numeral.bodySize (w ++ r)).1 (w ++ r) = Text.size w := by
  obtain ⟨body, suffix, rfl, hsuffix, hbody⟩ := h.body
  have hplain := (isPlainFront_bodySize (body ++ suffix ++ r)).suffixed
  have hpart : (suffix ++ r).takeWhile Text.isIdentifierPart = suffix := by
    rw [List.takeWhile_append_of_pos (isIdentifierPart_of_suffix hsuffix)]
    cases r with
    | nil => simp
    | cons c r => simp [(hr c rfl).1]
  have hsize : suffixed (Numeral.bodySize (body ++ suffix ++ r)).1 (body ++ suffix ++ r) =
      (body ++ suffix).length := by
    have hplain : ∀ c ∈ suffix, IsPlainChar c := fun c hc ↦
      isPlainChar_of_isIdentifierPart (isIdentifierPart_of_suffix hsuffix c hc)
    rw [hbody r hr, suffixed, List.append_assoc, List.drop_left, Text.prefixSize, hpart,
      size_of_forall_isPlainChar hplain, List.length_append]
  have htake := hplain.size_take
  rw [hsize, List.take_left] at htake
  rw [hsize, htake]

theorem bodySize_of_heads {t : Text} (h : Heads (· ∉ ['x', 'X', 'b', 'B']) t.tail) :
    bodySize t = Base.decimal.numberSize t := by
  by_cases ht : ∃ mark d rest, t = '0' :: mark :: d :: rest
  · obtain ⟨mark, d, rest, rfl⟩ := ht
    have hmark := h mark rfl
    simp only [List.mem_cons, List.not_mem_nil, or_false, not_or] at hmark
    rw [bodySize_prefixed, if_neg (by simp [hmark]), if_neg (by simp [hmark])]
  · exact bodySize_decimal fun mark d rest h ↦ ht ⟨mark, d, rest, h⟩

/-- The characters of a number. -/
theorem IsNumber.subset {digits marks whole fraction exponent chars : Text}
    (h : IsNumber digits marks whole fraction exponent) (hdigits : digits ⊆ chars)
    (hmarks : marks ⊆ chars) (hchars : '\'' :: '.' :: '+' :: '-' :: decimalDigits ⊆ chars) :
    whole ++ (fraction ++ exponent) ⊆ chars := by
  have hquote : '\'' ∈ chars := hchars (by simp)
  have hrow : ∀ {t}, t = [] ∨ IsDigits digits digits t → t ⊆ chars := by
    rintro t (rfl | ht)
    · exact List.nil_subset _
    · exact ht.subset hdigits hdigits hquote
  refine List.append_subset.2 ⟨hrow h.whole, List.append_subset.2 ⟨?_, ?_⟩⟩
  · rcases h.fraction with rfl | ⟨part, rfl, hpart⟩
    · exact List.nil_subset _
    · exact List.cons_subset.2 ⟨hchars (by simp), hrow hpart⟩
  · rcases h.exponent with rfl | ⟨hm, hsign, ht⟩
    · exact List.nil_subset _
    · have hdecimal : decimalDigits ⊆ chars := fun c hc ↦ hchars (by simp [hc])
      refine List.cons_subset.2 ⟨hmarks hm, List.append_subset.2 ⟨fun c hc ↦ hchars ?_,
        ht.subset hdecimal hdecimal hquote⟩⟩
      have hall : ∀ s ∈ [[], ['+'], ['-']], s ⊆ '\'' :: '.' :: '+' :: '-' :: decimalDigits := by
        decide
      exact hall _ hsign hc

theorem starts_of_isDigit {c : Char} (h : c.isDigit = true) (t : Text) :
    starts (c :: t) = true := by
  rw [starts]
  · exact h
  · rintro - - rfl -
    cases h

/-- A decimal literal, or an octal one, which is read like that. -/
theorem isTaken_decimal {whole fraction exponent suffix : Text}
    (h : IsNumber decimalDigits ['e', 'E'] whole fraction exponent)
    (hstarts : starts (whole ++ fraction) = true) (hsuffix : suffix ∈ suffixes) :
    IsTaken (fraction.length + exponent.length != 0)
      (whole ++ (fraction ++ (exponent ++ suffix))) := by
  obtain ⟨w, hw⟩ : ∃ w, whole ++ (fraction ++ (exponent ++ suffix)) = w := ⟨_, rfl⟩
  have hcut : w = whole ++ fraction ++ (exponent ++ suffix) := by simp [← hw]
  have hbody : w = whole ++ (fraction ++ exponent) ++ suffix := by simp [← hw]
  have hsubset : w ⊆ decimalChars := by
    rw [hbody]
    exact List.append_subset.2
      ⟨h.subset (by decide) (by decide) (by decide), suffix_subset hsuffix⟩
  have hne : whole ++ fraction ≠ [] := by
    intro hnil
    rw [hnil] at hstarts
    cases hstarts
  have hpoint : whole ++ fraction ≠ ['.'] := by
    intro hpoint
    rw [hpoint] at hstarts
    cases hstarts
  rw [hw]
  refine ⟨fun c hc ↦ List.mem_append_right _ (hsubset hc), fun {r} _ ↦ ?_,
    ⟨_, suffix, hbody, hsuffix, fun r hr ↦ ?_⟩⟩
  · rw [hcut, List.append_assoc, starts_append hne hpoint, hstarts]
  · -- No letter behind a zero makes it the prefix of another base.
    have htail : Heads (· ∉ ['x', 'X', 'b', 'B']) (w ++ r).tail := by
      have hr' : Heads (· ∉ ['x', 'X', 'b', 'B']) r := hr.mono fun c hc hmem ↦ by
        have hall : ∀ c ∈ ['x', 'X', 'b', 'B'], Text.isIdentifierPart c = true :=
          List.all_iff_forall_prop.1 (by decide)
        cases hc.1.symm.trans (hall c hmem)
      have hall : ∀ c ∈ decimalChars, c ∉ ['x', 'X', 'b', 'B'] :=
        List.all_iff_forall_prop.1 (by decide)
      cases w with
      | nil => exact absurd (List.append_eq_nil_iff.1 hcut.symm).1 hne
      | cons c w =>
        exact Heads.append (fun d hd ↦ hall d (hsubset (.tail _ (List.mem_of_mem_head? hd)))) hr'
    have hends := ends_suffix_append hsuffix hr
    have happend : w ++ r = whole ++ (fraction ++ (exponent ++ (suffix ++ r))) := by simp [← hw]
    rw [bodySize_of_heads htail, happend,
      spells_decimal.numberSize_append h (hends.mono fun _ hc ↦ hc.digit) fun _ ↦ hends,
      List.length_append, List.length_append, Nat.add_assoc]

/-- A hexadecimal literal. -/
theorem isTaken_hexadecimal {x : Char} {whole fraction exponent suffix : Text} (hx : x ∈ ['x', 'X'])
    (h : IsNumber hexDigits ['p', 'P'] whole fraction exponent) (hne : whole ++ fraction ≠ [])
    (hsuffix : suffix ∈ suffixes) (hends : exponent = [] → suffix ∈ integerSuffixes) :
    IsTaken (fraction.length + exponent.length != 0)
      ('0' :: x :: (whole ++ (fraction ++ (exponent ++ suffix)))) := by
  have hbody : '0' :: x :: (whole ++ (fraction ++ (exponent ++ suffix))) =
      '0' :: x :: (whole ++ (fraction ++ exponent)) ++ suffix := by simp
  refine ⟨?_, fun {r} _ ↦ rfl, ⟨_, suffix, hbody, hsuffix, fun r hr ↦ ?_⟩⟩
  · have hletter : ['x', 'X'] ⊆ literalChars := by decide
    rw [hbody]
    exact List.append_subset.2 ⟨List.cons_subset.2 ⟨by decide, List.cons_subset.2 ⟨hletter hx,
      h.subset (by decide) (by decide) (by decide)⟩⟩, suffix_subset_literalChars hsuffix⟩
  · obtain ⟨d, u, hu, hd⟩ : ∃ d u, whole ++ (fraction ++ (exponent ++ (suffix ++ r))) = d :: u ∧
        (isHex d = true ∨ d = '.') := by
      rcases h.whole with rfl | hwhole
      · rcases h.fraction with rfl | ⟨part, rfl, -⟩
        · exact absurd rfl hne
        · exact ⟨'.', _, rfl, .inr rfl⟩
      · obtain ⟨d, u, rfl, hd⟩ := hwhole.exists_cons
        exact ⟨d, _, rfl, .inl (spells_hexadecimal.digit_of_mem d hd)⟩
    have happend : '0' :: x :: (whole ++ (fraction ++ (exponent ++ suffix))) ++ r =
        '0' :: x :: d :: u := by simp [← hu]
    have hdigit : Heads (Closes Char.isDigit) (suffix ++ r) :=
      (ends_suffix_append hsuffix hr).mono fun _ hc ↦ hc.digit
    have hends' : exponent = [] → Heads Base.hexadecimal.Ends (suffix ++ r) := fun he ↦
      (heads_of_integerSuffix suffix (hends he)).append
        (hr.mono fun _ hc ↦ spells_hexadecimal.ends_of_isBehind hc)
    have hx' : x = 'x' ∨ x = 'X' := by simpa using hx
    rw [happend, bodySize_prefixed, if_pos ⟨hx', hd⟩, ← hu,
      spells_hexadecimal.numberSize_append h hdigit hends']
    simp only [List.length_cons, List.length_append, Prod.mk.injEq, and_true]
    omega

/-- A binary literal. -/
theorem isTaken_binary {b : Char} {t s : Text} (hb : b ∈ ['b', 'B'])
    (ht : IsDigits binaryDigits binaryDigits t) (hs : s ∈ suffixes) :
    IsTaken false ('0' :: b :: (t ++ s)) := by
  have hbody : '0' :: b :: (t ++ s) = '0' :: b :: t ++ s := rfl
  refine ⟨?_, fun {r} _ ↦ rfl, ⟨_, s, hbody, hs, fun r hr ↦ ?_⟩⟩
  · have hletter : ['b', 'B'] ⊆ literalChars := by decide
    exact List.cons_subset.2 ⟨by decide, List.cons_subset.2 ⟨hletter hb, List.append_subset.2
      ⟨ht.subset (by decide) (by decide) (by decide), suffix_subset_literalChars hs⟩⟩⟩
  · have hdigits : ∀ d ∈ binaryDigits, isBinary d = true := List.all_iff_forall_prop.1 (by decide)
    have hends : Heads (Closes isBinary) (s ++ r) := by
      have hdigit : ∀ c, isBinary c = true → Char.isDigit c = true := by
        intro c hc
        rcases (by simpa [isBinary] using hc : c = '0' ∨ c = '1') with rfl | rfl <;> rfl
      refine (ends_suffix_append hs hr).mono fun c hc ↦ ⟨?_, hc.digit.2⟩
      rw [← Bool.not_eq_true]
      exact fun h ↦ by cases hc.digit.1.symm.trans (hdigit c h)
    have hsize : digitsSize isBinary (t ++ (s ++ r)) = t.length := by
      rw [ht.digitsSize_append rfl hdigits hdigits, moreDigitsSize_of_heads hends, Nat.add_zero]
    obtain ⟨d, u, rfl, hd⟩ := ht.exists_cons
    have hb' : b = 'b' ∨ b = 'B' := by simpa using hb
    have hx : ¬ ((b = 'x' ∨ b = 'X') ∧ (isHex d = true ∨ d = '.')) := by
      rcases hb' with rfl | rfl <;> simp
    have hd' : isBinary d = true := hdigits d hd
    show bodySize ('0' :: b :: d :: (u ++ s ++ r)) = _
    rw [bodySize_prefixed, if_neg hx, if_pos ⟨hb', hd'⟩, List.append_assoc, ← List.cons_append,
      hsize]
    simp only [List.length_cons, Prod.mk.injEq, and_true]
    omega

/-! ### Each production -/

theorem isNumber_of_isDigits {digits marks t e : Text} (ht : IsDigits digits digits t)
    (he : e = [] ∨ IsExponent marks e) : IsNumber digits marks t [] e :=
  ⟨.inr ht, .inl rfl, he⟩

theorem IsFractional.exists_isNumber {digits marks t e : Text} (ht : IsFractional digits t)
    (he : e = [] ∨ IsExponent marks e) : ∃ whole fraction, t = whole ++ fraction ∧ fraction ≠ [] ∧
      IsNumber digits marks whole fraction e := by
  cases ht with
  | @before t ht => exact ⟨[], '.' :: t, rfl, by simp, .inl rfl, .inr ⟨t, rfl, .inr ht⟩, he⟩
  | @behind t ht => exact ⟨t, ['.'], rfl, by simp, .inr ht, .inr ⟨[], rfl, .inl rfl⟩, he⟩
  | @among s t hs ht => exact ⟨s, '.' :: t, rfl, by simp, .inr hs, .inr ⟨t, rfl, .inr ht⟩, he⟩

theorem IsDigits.starts {first later t : Text} (h : IsDigits first later t)
    (hfirst : first ⊆ decimalDigits) (r : Text) : starts (t ++ r) = true := by
  obtain ⟨d, u, rfl, hd⟩ := h.exists_cons
  exact starts_of_isDigit (spells_decimal.digit_of_mem d (hfirst hd)) _

theorem IsFractional.starts {t : Text} (h : IsFractional decimalDigits t) : starts t = true := by
  cases h with
  | before ht =>
    obtain ⟨d, u, rfl, hd⟩ := ht.exists_cons
    exact spells_decimal.digit_of_mem d hd
  | behind ht => exact ht.starts (List.Subset.refl _) _
  | among hs _ => exact hs.starts (List.Subset.refl _) _

theorem IsExponent.ne_nil {marks e : Text} (h : IsExponent marks e) : e ≠ [] := by
  obtain ⟨-, -, -⟩ := h
  exact List.cons_ne_nil _ _

theorem mem_suffixes_of_integer {s : Text} (hs : s ∈ integerSuffixes) : s ∈ suffixes :=
  List.mem_append_left _ hs

theorem mem_suffixes_of_floating {s : Text} (hs : s ∈ floatingSuffixes) : s ∈ suffixes :=
  List.mem_append_right _ hs

/-- **An integer literal is read as a whole**, and not as floating. -/
theorem IsInteger.isTaken {w : Text} (h : IsInteger w) : IsTaken false w := by
  -- An octal literal is one more row of decimal digits.
  have hrow : ∀ {t s : Text}, IsDigits decimalDigits decimalDigits t → s ∈ integerSuffixes →
      IsTaken false (t ++ s) := by
    intro t s ht hs
    refine isTaken_decimal (isNumber_of_isDigits ht (.inl rfl)) ?_ (mem_suffixes_of_integer hs)
    exact ht.starts (List.Subset.refl _) []
  cases h with
  | binary hb ht hs => exact isTaken_binary hb ht (mem_suffixes_of_integer hs)
  | octal ht hs => exact hrow (ht.mono (by decide) (by decide)) hs
  | decimal ht hs => exact hrow (ht.mono (by decide) (List.Subset.refl _)) hs
  | hexadecimal hx ht hs =>
    refine isTaken_hexadecimal hx (isNumber_of_isDigits ht (.inl rfl)) ?_
      (mem_suffixes_of_integer hs) fun _ ↦ hs
    obtain ⟨d, u, rfl, -⟩ := ht.exists_cons
    simp

/-- **A floating literal is read as a whole**, and as floating. -/
theorem IsFloating.isTaken {w : Text} (h : IsFloating w) : IsTaken true w := by
  have hfloating : ∀ {fraction exponent : Text}, fraction ≠ [] ∨ exponent ≠ [] →
      (fraction.length + exponent.length != 0) = true := by
    intro fraction exponent hne
    simp only [← List.length_pos_iff] at hne
    simp only [bne_iff_ne]
    omega
  have hpoint : ∀ {t e s : Text}, IsFractional decimalDigits t → e = [] ∨ IsExponent ['e', 'E'] e →
      s ∈ floatingSuffixes → IsTaken true (t ++ (e ++ s)) := by
    intro t e s ht he hs
    have hstarts := ht.starts
    obtain ⟨whole, fraction, rfl, hne, hnumber⟩ := ht.exists_isNumber he
    rw [List.append_assoc, ← hfloating (.inl hne)]
    exact isTaken_decimal hnumber hstarts (mem_suffixes_of_floating hs)
  cases h with
  | point ht hs => exact hpoint ht (.inl rfl) hs
  | pointExponent ht he hs => exact hpoint ht (.inr he) hs
  | @exponent t e s ht he hs =>
    rw [← @hfloating [] e (.inr he.ne_nil)]
    exact isTaken_decimal (isNumber_of_isDigits ht (.inr he)) (ht.starts (List.Subset.refl _) [])
      (mem_suffixes_of_floating hs)
  | hexPoint hx ht he hs =>
    obtain ⟨whole, fraction, rfl, hne, hnumber⟩ := ht.exists_isNumber (.inr he)
    rw [List.append_assoc, ← hfloating (.inl hne)]
    exact isTaken_hexadecimal hx hnumber (by simp [hne]) (mem_suffixes_of_floating hs)
      fun hnil ↦ absurd hnil he.ne_nil
  | @hexExponent x t e s hx ht he hs =>
    rw [← @hfloating [] e (.inr he.ne_nil)]
    refine isTaken_hexadecimal hx (isNumber_of_isDigits ht (.inr he)) ?_
      (mem_suffixes_of_floating hs) fun hnil ↦ absurd hnil he.ne_nil
    obtain ⟨d, u, rfl, -⟩ := ht.exists_cons
    simp

end LexFront.Cpp.Numeral
