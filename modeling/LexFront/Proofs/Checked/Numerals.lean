import LexFront.Proofs.Checked.Slices
import LexFront.Proofs.Cpp.Numeral
import LexFront.Proofs.Source.Encoding

/-!
# Numerals byte by byte

A numeral is measured on the bytes of its text: digits are counted one byte after the other, and
points, exponent marks and signs are looked for at the places that the counts lead to. Only at the
end, when the suffix is measured, is the text itself cut. All places that are reached lie behind
characters of one byte, so that this cut falls between two characters, also where what follows the
numeral takes several bytes.

Key facts:

* `Text.HasRest.byteIs`: a test of one byte is a test of the character that stands there.
* `digitsFrom?_eq`: counting bytes is counting digits.
* `scan?_eq`: measuring a numeral byte by byte is reading it.
-/

set_option autoImplicit false

namespace LexFront

/-! ### Bytes of a text -/

/-- The character that has one byte as its value. -/
def byteChar (b : UInt8) : Char := Char.ofNat b.toNat

/-- A test that only characters of one byte pass. -/
def IsNarrow (p : Char → Bool) : Prop := ∀ c, p c = true → c.utf8Size = 1

theorem isNarrow_beq {d : Char} (hd : d.utf8Size = 1) : IsNarrow (· == d) := by
  intro c hc
  rw [eq_of_beq hc, hd]

theorem IsNarrow.or {p q : Char → Bool} (hp : IsNarrow p) (hq : IsNarrow q) :
    IsNarrow fun c ↦ p c || q c := fun c hc ↦ (Bool.or_eq_true_iff.1 hc).elim (hp c) (hq c)

/-- Whether there is a byte at a place that passes a test. -/
def byteIs (p : Char → Bool) (bytes : List UInt8) (n : Nat) : Bool :=
  bytes[n]?.any fun b ↦ p (byteChar b)

/-- The first byte of a character passes a test exactly if the character does: the bytes of a wider
character are no characters of one byte. -/
theorem Utf8.encode_eq_cons (c : Char) :
    ∃ first tail, String.utf8EncodeChar c = first :: tail ∧
      ∀ p, IsNarrow p → p (byteChar first) = p c := by
  obtain ⟨first, tail, hencode, hwidth, hdecode⟩ := Utf8.decode?_encode c
  refine ⟨first, tail, hencode, fun p hp ↦ ?_⟩
  have hsize : c.utf8Size = tail.length + 1 := by
    rw [← String.length_utf8EncodeChar, hencode, List.length_cons]
  by_cases hone : tail = []
  · subst hone
    have hbyte : byteChar first = c := by
      rw [Utf8.decode?] at hdecode
      split at hdecode
      · rw [byteChar, ← (Utf8.scalar?_eq_some_iff.1 hdecode).2, Char.ofNat_toNat]
      · cases hdecode
    rw [hbyte]
  · have hlength := List.length_pos_iff.2 hone
    have hwide : (byteChar first).utf8Size ≠ 1 := by
      have hrange := Utf8.range_of_width hwidth
      have hlt := first.toNat_lt
      have hscalar : Utf8.scalar? 0 first.toNat = some (byteChar first) :=
        if_pos ⟨Nat.zero_le _, .inl (by omega)⟩
      have hvalue : (byteChar first).toNat = first.toNat := (Utf8.scalar?_eq_some_iff.1 hscalar).2
      rw [ne_eq, Char.utf8Size_eq_one_iff, UInt32.le_iff_toNat_le]
      show ¬ (byteChar first).toNat ≤ 127
      omega
    rw [Bool.eq_iff_iff]
    exact ⟨fun h ↦ absurd (hp _ h) hwide, fun h ↦ absurd (hp c h) (by omega)⟩

theorem byteIs_encode_cons {p : Char → Bool} (hp : IsNarrow p) (c : Char) (rest : Text) :
    byteIs p (Text.encode (c :: rest)) 0 = p c := by
  obtain ⟨first, tail, hencode, hfirst⟩ := Utf8.encode_eq_cons c
  rw [byteIs, Text.encode_cons, hencode, List.cons_append, List.getElem?_cons_zero, Option.any_some,
    hfirst p hp]

namespace Text

/-- Behind a front of a text stand the bytes of what is behind it. -/
theorem HasRest.drop_encode {t rest : Text} {n : Nat} (h : t.HasRest n rest) :
    t.encode.drop n = rest.encode := by
  obtain ⟨front, rfl, rfl⟩ := h
  rw [encode_append, ← length_encode, List.drop_left]

theorem HasRest.drop?_encode {t rest : Text} {n : Nat} (h : t.HasRest n rest) :
    Checked.drop? t.encode n = .ok rest.encode := by
  obtain ⟨front, rfl, rfl⟩ := h
  rw [encode_append, ← length_encode, Checked.drop?_append]

/-- **A test of the byte at a place is a test of the character that stands there.** -/
theorem HasRest.byteIs {t rest : Text} {n : Nat} (h : t.HasRest n rest) {p : Char → Bool}
    (hp : IsNarrow p) : byteIs p t.encode n = rest.head?.any p := by
  have hbyte : t.encode[n]? = rest.encode[0]? := by
    rw [← h.drop_encode, List.getElem?_drop, Nat.add_zero]
  cases rest with
  | nil => rw [LexFront.byteIs, hbyte]; rfl
  | cons c rest =>
    rw [List.head?_cons, Option.any_some, ← byteIs_encode_cons hp c rest, LexFront.byteIs, hbyte]
    rfl

/-- There is a byte where a character stands. -/
theorem HasRest.get?_encode {t rest : Text} {n : Nat} {c : Char} (h : t.HasRest n (c :: rest)) :
    ∃ b, Checked.get? t.encode n = .ok b ∧ ∀ p, IsNarrow p → p (byteChar b) = p c := by
  obtain ⟨first, tail, hencode, hfirst⟩ := Utf8.encode_eq_cons c
  refine ⟨first, Checked.get?_eq_ok ?_, hfirst⟩
  have hbyte : t.encode[n]? = (encode (c :: rest))[0]? := by
    rw [← h.drop_encode, List.getElem?_drop, Nat.add_zero]
  rw [hbyte, encode_cons, hencode]
  rfl

theorem HasRest.lt_length_encode_iff {t rest : Text} {n : Nat} (h : t.HasRest n rest) :
    n < t.encode.length ↔ rest ≠ [] := by
  have hsize := h.add_size
  rw [length_encode, ← hsize]
  cases rest with
  | nil => simp
  | cons c rest =>
    have := c.utf8Size_pos
    simp
    omega

end Text

namespace Cpp.Numeral

theorem isNarrow_of_isPlainChar {p : Char → Bool} (h : ∀ c, p c = true → IsPlainChar c) :
    IsNarrow p := fun c hc ↦ (h c hc).1

/-- Counts digits and the separators between them, of which `n` bytes have been passed over. -/
def digitsFrom? (digit : Char → Bool) (bytes : List UInt8) (n : Nat) : Checked Nat :=
  if h : n < bytes.length then do
    let b ← Checked.get? bytes n
    if digit (byteChar b) then digitsFrom? digit bytes (n + 1)
    else if byteChar b == '\'' && 0 < n && byteIs digit bytes (n + 1) then
      digitsFrom? digit bytes (n + 2)
    else return n
  else return n
  termination_by bytes.length - n

section Digits

variable {digit : Char → Bool} (hdigit : ∀ c, digit c = true → IsPlainChar c) {t rest : Text}
  {n : Nat}

theorem digitsFrom?_nil (h : t.HasRest n []) : digitsFrom? digit t.encode n = .ok n := by
  rw [digitsFrom?, dif_neg]
  · rfl
  · simp [h.lt_length_encode_iff]

include hdigit

theorem digitsFrom?_cons {c : Char} (h : t.HasRest n (c :: rest)) :
    digitsFrom? digit t.encode n =
      if digit c then digitsFrom? digit t.encode (n + 1)
      else if c == '\'' && 0 < n && rest.head?.any digit then digitsFrom? digit t.encode (n + 2)
      else .ok n := by
  have hnarrow := isNarrow_of_isPlainChar hdigit
  obtain ⟨b, hb, hread⟩ := h.get?_encode
  rw [digitsFrom?, dif_pos (h.lt_length_encode_iff.2 (List.cons_ne_nil c rest)), hb,
    Checked.ok_bind, hread digit hnarrow, hread _ (isNarrow_beq rfl)]
  by_cases hc : c = '\''
  · subst hc
    have hnext : t.HasRest (n + 1) rest := h.cons
    rw [hnext.byteIs hnarrow]
    rfl
  · simp [hc]

/-- A digit is passed over as one byte. -/
theorem hasRest_digit {c : Char} (h : t.HasRest n (c :: rest)) (hc : digit c = true) :
    t.HasRest (n + 1) rest := by
  have hpast := h.cons
  rwa [(hdigit c hc).1] at hpast

variable (hquote : digit '\'' = false)
include hquote

theorem digitsFrom?_of_pos (h : t.HasRest n rest) (hn : 0 < n) :
    digitsFrom? digit t.encode n = .ok (n + moreDigitsSize digit rest) := by
  fun_induction moreDigitsSize digit rest generalizing n with
  | case1 d rest hd ih =>
    have hpast : t.HasRest (n + 2) rest := hasRest_digit hdigit h.cons hd
    rw [digitsFrom?_cons hdigit h, if_neg (by simp [hquote]), if_pos (by simp [hn, hd]),
      ih hpast (by omega), Nat.add_assoc]
  | case2 d rest hd =>
    rw [digitsFrom?_cons hdigit h, if_neg (by simp [hquote]), if_neg (by simp [hd])]
    rfl
  | case3 d rest hne hd ih =>
    rw [digitsFrom?_cons hdigit h, if_pos hd, ih (hasRest_digit hdigit h hd) (by omega),
      Nat.add_assoc]
  | case4 d rest hne hd =>
    have hlast : (d == '\'' && 0 < n && rest.head?.any digit) = false := by
      cases rest with
      | nil => simp
      | cons e rest => simpa using fun hc ↦ absurd rfl (hne e rest hc)
    rw [digitsFrom?_cons hdigit h, if_neg hd, if_neg (by simp [hlast])]
    rfl
  | case5 => exact digitsFrom?_nil h

/-- **Counting bytes is counting digits.** -/
theorem digitsFrom?_eq (t : Text) : digitsFrom? digit t.encode 0 = .ok (digitsSize digit t) := by
  have h := t.hasRest_zero
  cases t with
  | nil => exact digitsFrom?_nil h
  | cons c rest =>
    rw [digitsFrom?_cons hdigit h, digitsSize]
    split
    · next hc => exact digitsFrom?_of_pos hdigit hquote (hasRest_digit hdigit h hc) Nat.one_pos
    · rw [if_neg (by simp)]

end Digits

/-! ### Numbers -/

/-- The size of an exponent behind its mark, none if it has no digits. The mark is there. -/
def exponentSize? (bytes : List UInt8) : Checked (Option Nat) := do
  let n := if byteIs (fun c ↦ c == '+' || c == '-') bytes 1 then 2 else 1
  let behind ← Checked.drop? bytes n
  let digits ← digitsFrom? Char.isDigit behind 0
  return if 0 < digits then some (n + digits) else none

/-- Whether a point at a place belongs to a number. -/
def hasPoint (b : Base) (bytes : List UInt8) (n : Nat) : Bool :=
  byteIs (· == '.') bytes n && (b.allowsTwoPoints || !byteIs (· == '.') bytes (n + 1))

/-- The size of a point and the digits behind it. -/
def fractionSize? (b : Base) (bytes : List UInt8) (n : Nat) : Checked Nat :=
  if hasPoint b bytes n then do
    let digits ← digitsFrom? b.digit (← Checked.drop? bytes (n + 1)) 0
    return 1 + digits
  else return 0

/-- The exponent at a place, if there is one. -/
def exponentFrom? (b : Base) (bytes : List UInt8) (n : Nat) : Checked (Option Nat) := do
  if byteIs b.exponentMark bytes n then exponentSize? (← Checked.drop? bytes n) else return none

/-- The end of a number that starts at `start`, and whether it is floating. -/
def numberFrom? (b : Base) (bytes : List UInt8) (start : Nat) : Checked (Nat × Bool) := do
  let whole ← digitsFrom? b.digit (← Checked.drop? bytes start) 0
  let fraction ← fractionSize? b bytes (start + whole)
  let exponent ← exponentFrom? b bytes (start + whole + fraction)
  return (start + whole + fraction + exponent.getD 0,
    hasPoint b bytes (start + whole) || exponent.isSome)

/-- What is behind a front of characters of one byte is found by their number. -/
theorem IsPlainFront.hasRest {t rest : Text} {n k : Nat} (h : IsPlainFront rest k)
    (hn : t.HasRest n rest) : t.HasRest (n + k) (rest.drop k) := by
  have hcut : t.HasRest n (rest.take k ++ rest.drop k) := by rwa [List.take_append_drop]
  have hpast := hcut.append
  rwa [h.size_take] at hpast

theorem isNarrow_exponentMark {b : Base} (hb : b.IsPlain) : IsNarrow b.exponentMark :=
  isNarrow_of_isPlainChar fun c hc ↦ isPlainChar_of_isIdentifierPart (hb.exponentMark c hc)

theorem exponentSize?_eq {b : Base} (hb : b.IsPlain) {mark : Char} (rest : Text)
    (hmark : b.exponentMark mark = true) :
    exponentSize? (Text.encode (mark :: rest)) =
      .ok (if 0 < b.exponentSize (mark :: rest) then some (b.exponentSize (mark :: rest))
        else none) := by
  have hone := isNarrow_exponentMark hb mark hmark
  have hrest : Text.HasRest (mark :: rest) 1 rest := by
    have hpast := (Text.hasRest_zero (mark :: rest)).cons
    rwa [hone] at hpast
  have hsign : (if byteIs (fun c ↦ c == '+' || c == '-') (Text.encode (mark :: rest)) 1 then 2
      else 1) = 1 + signSize rest := by
    rw [hrest.byteIs ((isNarrow_beq rfl).or (isNarrow_beq rfl)), signSize]
    cases rest with
    | nil => rfl
    | cons c rest => by_cases hc : c = '+' ∨ c = '-' <;> simp [hc]
  rw [exponentSize?, hsign, ((isPlainFront_signSize rest).hasRest hrest).drop?_encode,
    Checked.ok_bind, digitsFrom?_eq (fun _ ↦ isPlainChar_of_isDigit) rfl, Checked.ok_bind,
    Base.exponentSize_cons]
  by_cases hdigits : digitsSize Char.isDigit (rest.drop (signSize rest)) = 0
  · simp only [hdigits, ne_eq, not_true_eq_false, and_false, if_false, Nat.lt_irrefl,
      Checked.pure_eq]
  · have hpos := Nat.pos_of_ne_zero hdigits
    rw [if_pos hpos, if_pos (⟨hmark, hdigits⟩ : _ ∧ _ ≠ 0), if_pos (by omega)]
    rfl

section Number

variable {b : Base} {t rest : Text} {n : Nat}

theorem fractionSize_of_ne_point (b : Base) {c : Char} (hc : c ≠ '.') (rest : Text) :
    b.fractionSize (c :: rest) = 0 := by
  rw [Base.fractionSize]
  exact fun _ h ↦ hc (List.cons.inj h).1

theorem hasPoint_eq (b : Base) (h : t.HasRest n rest) :
    hasPoint b t.encode n = (b.fractionSize rest != 0) := by
  have hpoint : IsNarrow (· == '.') := isNarrow_beq rfl
  rw [hasPoint, h.byteIs hpoint]
  cases rest with
  | nil => rfl
  | cons c rest =>
    by_cases hc : c = '.'
    · subst hc
      have hpast : t.HasRest (n + 1) rest := h.cons
      rw [hpast.byteIs hpoint, Base.fractionSize_point]
      cases rest with
      | nil => simp
      | cons d rest =>
        cases htwo : b.allowsTwoPoints <;> by_cases hd : d = '.' <;>
          simp [hd, Nat.add_comm 1]
    · rw [fractionSize_of_ne_point b hc]
      simp [hc]

variable (hb : b.IsPlain)
include hb

theorem exponentFrom?_eq (h : t.HasRest n rest) :
    exponentFrom? b t.encode n =
      .ok (if 0 < b.exponentSize rest then some (b.exponentSize rest) else none) := by
  rw [exponentFrom?, h.byteIs (isNarrow_exponentMark hb)]
  cases rest with
  | nil => rfl
  | cons mark rest =>
    rw [List.head?_cons, Option.any_some]
    cases hmark : b.exponentMark mark with
    | false =>
      have hzero : b.exponentSize (mark :: rest) = 0 := by
        rw [Base.exponentSize_cons, if_neg]
        rw [hmark]
        exact fun hfalse ↦ absurd hfalse.1 Bool.false_ne_true
      rw [hzero]
      rfl
    | true => rw [if_pos rfl, h.drop?_encode, Checked.ok_bind, exponentSize?_eq hb rest hmark]

variable (hquote : b.digit '\'' = false)
include hquote

theorem fractionSize?_eq (h : t.HasRest n rest) :
    fractionSize? b t.encode n = .ok (b.fractionSize rest) := by
  rw [fractionSize?, hasPoint_eq b h]
  by_cases hzero : b.fractionSize rest = 0
  · rw [hzero]
    rfl
  · rw [if_pos (bne_iff_ne.2 hzero)]
    cases rest with
    | nil => exact absurd rfl hzero
    | cons c rest =>
      by_cases hc : c = '.'
      · subst hc
        have hpast : t.HasRest (n + 1) rest := h.cons
        rw [Base.fractionSize_point, ite_eq_left_iff, not_forall] at hzero
        rw [Base.fractionSize_point, if_neg hzero.choose, hpast.drop?_encode, Checked.ok_bind,
          digitsFrom?_eq hb.digit hquote]
        rfl
      · exact absurd (fractionSize_of_ne_point b hc rest) hzero

/-- **Measuring a number byte by byte is reading it.** -/
theorem numberFrom?_eq (h : t.HasRest n rest) :
    numberFrom? b t.encode n = .ok (n + (b.numberSize rest).1, (b.numberSize rest).2) := by
  have hwhole := (isPlainFront_digitsSize hb.digit rest).hasRest h
  have hfraction := (hb.isPlainFront_fractionSize _).hasRest hwhole
  rw [b.numberSize_eq rfl rfl, numberFrom?, h.drop?_encode, Checked.ok_bind,
    digitsFrom?_eq hb.digit hquote, Checked.ok_bind, fractionSize?_eq hb hquote hwhole,
    Checked.ok_bind, exponentFrom?_eq hb hfraction, hasPoint_eq b hwhole]
  generalize b.exponentSize _ = exponent
  generalize b.fractionSize _ = fraction
  by_cases hzero : exponent = 0
  · subst hzero
    simp [Nat.add_assoc]
  · have hpos := Nat.pos_of_ne_zero hzero
    have hfloating : (fraction + exponent != 0) = true := bne_iff_ne.2 (by omega)
    rw [if_pos hpos, hfloating]
    simp [Nat.add_assoc]

end Number

/-! ### Numerals -/

/-- Whether a numeral starts with some bytes. -/
def starts? (bytes : List UInt8) : Bool :=
  byteIs Char.isDigit bytes 0 || (byteIs (· == '.') bytes 0 && byteIs Char.isDigit bytes 1)

/-- The size of a numeral without its suffix, and whether it is floating. A base is looked for only
if there are two more bytes behind the first digit. -/
def bodySize? (bytes : List UInt8) : Checked (Nat × Bool) := do
  if byteIs (· == '0') bytes 0 && 2 < bytes.length then
    let mark := byteChar (← Checked.get? bytes 1)
    let d := byteChar (← Checked.get? bytes 2)
    if (mark == 'x' || mark == 'X') && (isHex d || d == '.') then
      numberFrom? .hexadecimal bytes 2
    else if (mark == 'b' || mark == 'B') && isBinary d then
      let digits ← digitsFrom? isBinary (← Checked.drop? bytes 2) 0
      return (2 + digits, false)
    else numberFrom? .decimal bytes 0
  else numberFrom? .decimal bytes 0

/-- The numeral at the start of a text, if it is floating or not as asked for. -/
def scan? (floating : Bool) (t : Text) : Checked Scan := do
  if starts? t.encode then
    let (n, isFloating) ← bodySize? t.encode
    let behind ← Text.from? n t
    return if isFloating = floating then .matched (n + Text.prefixSize Text.isIdentifierPart behind)
      else .noMatch
  else return .noMatch

theorem starts?_eq (t : Text) : starts? t.encode = starts t := by
  have hdigit : IsNarrow Char.isDigit := isNarrow_of_isPlainChar fun _ ↦ isPlainChar_of_isDigit
  have h := t.hasRest_zero
  rw [starts?, h.byteIs hdigit, h.byteIs (isNarrow_beq rfl)]
  cases t with
  | nil => rfl
  | cons c rest =>
    by_cases hc : c = '.'
    · subst hc
      have hpast : Text.HasRest ('.' :: rest) 1 rest := h.cons
      rw [hpast.byteIs hdigit]
      cases rest <;> rfl
    · rw [starts]
      · simp [hc]
      · exact fun d tail h _ ↦ hc h

theorem decimalFrom?_eq (t : Text) :
    numberFrom? .decimal t.encode 0 = .ok (Base.decimal.numberSize t) := by
  rw [numberFrom?_eq Base.isPlain_decimal rfl t.hasRest_zero, Nat.zero_add]

/-- The marks of a base that is not decimal. -/
def isMark (c : Char) : Bool := (c == 'x' || c == 'X') || (c == 'b' || c == 'B')

theorem utf8Size_of_isMark {c : Char} (hc : isMark c = true) : c.utf8Size = 1 := by
  simp only [isMark, Bool.or_eq_true, beq_iff_eq] at hc
  rcases hc with (rfl | rfl) | (rfl | rfl) <;> rfl

/-- Without the mark of another base a numeral is decimal. -/
theorem bodySize_of_not_isMark {m : Char} (hm : isMark m = false) (rest : Text) :
    bodySize ('0' :: m :: rest) = Base.decimal.numberSize ('0' :: m :: rest) := by
  cases rest with
  | nil => rfl
  | cons d rest =>
    simp only [isMark, Bool.or_eq_false_iff] at hm
    simp [bodySize, hm]

theorem bodySize?_of_not_isMark {m : Char} (hm : isMark m = false) (rest : Text) :
    bodySize? (Text.encode ('0' :: m :: rest)) =
      .ok (Base.decimal.numberSize ('0' :: m :: rest)) := by
  have hfirst : Text.HasRest ('0' :: m :: rest) 1 (m :: rest) := (Text.hasRest_zero _).cons
  obtain ⟨b, hb, hread⟩ := hfirst.get?_encode
  rw [isMark, Bool.or_eq_false_iff] at hm
  have hx : (byteChar b == 'x' || byteChar b == 'X') = false :=
    (hread _ ((isNarrow_beq rfl).or (isNarrow_beq rfl))).trans hm.1
  have hb' : (byteChar b == 'b' || byteChar b == 'B') = false :=
    (hread _ ((isNarrow_beq rfl).or (isNarrow_beq rfl))).trans hm.2
  rw [bodySize?]
  split
  · next hlength =>
    rw [Bool.and_eq_true, decide_eq_true_eq] at hlength
    rw [hb, Checked.ok_bind, Checked.get?_eq_ok (List.getElem?_eq_getElem hlength.2),
      Checked.ok_bind]
    simp only [hx, hb', Bool.false_and, Bool.false_eq_true, if_false]
    exact decimalFrom?_eq _
  · exact decimalFrom?_eq _

theorem bodySize?_of_isMark {m : Char} (hm : isMark m = true) (rest : Text) :
    bodySize? (Text.encode ('0' :: m :: rest)) = .ok (bodySize ('0' :: m :: rest)) := by
  have hfirst : Text.HasRest ('0' :: m :: rest) 1 (m :: rest) := (Text.hasRest_zero _).cons
  have hsecond : Text.HasRest ('0' :: m :: rest) 2 rest := by
    have hpast := hfirst.cons
    rwa [utf8Size_of_isMark hm] at hpast
  have hlength := hsecond.lt_length_encode_iff
  rw [bodySize?]
  cases rest with
  | nil =>
    have hshort : ¬ 2 < (Text.encode ['0', m]).length := fun h ↦ hlength.1 h rfl
    rw [if_neg fun h ↦ hshort (of_decide_eq_true (Bool.and_eq_true_iff.1 h).2)]
    exact decimalFrom?_eq _
  | cons d rest =>
    obtain ⟨b, hb, hread⟩ := hfirst.get?_encode
    obtain ⟨b', hb', hread'⟩ := hsecond.get?_encode
    have hx : (byteChar b == 'x' || byteChar b == 'X') = (m == 'x' || m == 'X') :=
      hread _ ((isNarrow_beq rfl).or (isNarrow_beq rfl))
    have hbinary : (byteChar b == 'b' || byteChar b == 'B') = (m == 'b' || m == 'B') :=
      hread _ ((isNarrow_beq rfl).or (isNarrow_beq rfl))
    have hhex : (isHex (byteChar b') || byteChar b' == '.') = (isHex d || d == '.') :=
      hread' _ ((isNarrow_of_isPlainChar fun _ ↦ isPlainChar_of_isHex).or (isNarrow_beq rfl))
    have hdigit : isBinary (byteChar b') = isBinary d :=
      hread' _ (isNarrow_of_isPlainChar fun _ ↦ isPlainChar_of_isBinary)
    have hzero : byteIs (· == '0') (Text.encode ('0' :: m :: d :: rest)) 0 = true :=
      byteIs_encode_cons (isNarrow_beq rfl) _ _
    have hlong : decide (2 < (Text.encode ('0' :: m :: d :: rest)).length) = true :=
      decide_eq_true (hlength.2 (List.cons_ne_nil _ _))
    rw [hzero, hlong, if_pos (Bool.and_self true), hb, Checked.ok_bind, hb', Checked.ok_bind]
    simp only [hx, hbinary, hhex, hdigit, bodySize]
    split
    · exact numberFrom?_eq Base.isPlain_hexadecimal rfl hsecond
    · split
      · rw [hsecond.drop?_encode, Checked.ok_bind,
          digitsFrom?_eq (fun _ ↦ isPlainChar_of_isBinary) rfl]
        rfl
      · exact decimalFrom?_eq _

theorem bodySize?_eq (t : Text) : bodySize? t.encode = .ok (bodySize t) := by
  -- Only behind a zero is there another base.
  have hdecimal : byteIs (· == '0') t.encode 0 = false →
      bodySize? t.encode = .ok (Base.decimal.numberSize t) := by
    intro hzero
    rw [bodySize?, hzero, Bool.false_and, if_neg Bool.false_ne_true, decimalFrom?_eq]
  cases t with
  | nil => exact hdecimal rfl
  | cons c rest =>
    by_cases hc : c = '0'
    · subst hc
      cases rest with
      | nil =>
        rw [bodySize?, if_neg (by decide)]
        exact decimalFrom?_eq _
      | cons m rest =>
        cases hm : isMark m with
        | false => rw [bodySize?_of_not_isMark hm, bodySize_of_not_isMark hm]
        | true => exact bodySize?_of_isMark hm rest
    · rw [hdecimal, bodySize_decimal]
      · exact fun m d tail h ↦ hc (List.cons.inj h).1
      · rw [byteIs_encode_cons (isNarrow_beq rfl)]
        exact beq_eq_false_iff_ne.2 hc

/-- **A numeral is measured without a step that fails.** -/
theorem scan?_eq (floating : Bool) (t : Text) : scan? floating t = .ok (scan floating t) := by
  have hbody := (isPlainFront_bodySize t).hasRest t.hasRest_zero
  rw [Nat.zero_add] at hbody
  rw [scan?, starts?_eq, bodySize?_eq, scan]
  split
  · simp only [Checked.ok_bind, hbody.from?_eq]
    rfl
  · rfl

end Cpp.Numeral

end LexFront
