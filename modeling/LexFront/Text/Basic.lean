/-!
# Text and its prefixes

A text is a list of characters and every length is counted in UTF-8 bytes. The scanners of both
lexicons are put together from the few prefix measures of this module, and the lexer cuts its
window with `split?`, which refuses a length that falls inside a character or past the end.

Key facts:

* `size_append`: byte lengths add up under concatenation.
* `append_of_split?`, `size_of_split?`: a cut loses nothing and its first half has the asked size.
* `split?_size_append`: cutting at the size of a known prefix gives that prefix back.
-/

set_option autoImplicit false

namespace LexFront

/-- A text is a list of Unicode scalar values. -/
abbrev Text := List Char

namespace Text

/-- The number of bytes of the UTF-8 form of a text. -/
def size : Text → Nat
  | [] => 0
  | c :: rest => c.utf8Size + size rest

@[simp] theorem size_nil : size [] = 0 := rfl

@[simp] theorem size_cons (c : Char) (t : Text) : size (c :: t) = c.utf8Size + size t := rfl

@[simp] theorem size_append (s t : Text) : size (s ++ t) = size s + size t := by
  induction s with
  | nil => simp
  | cons c s ih => simp [ih, Nat.add_assoc]

theorem size_pos {t : Text} (h : t ≠ []) : 0 < size t := by
  cases t with
  | nil => exact absurd rfl h
  | cons c t => exact Nat.add_pos_left c.utf8Size_pos _

theorem length_le_size (t : Text) : t.length ≤ size t := by
  induction t with
  | nil => exact Nat.le_refl _
  | cons c t ih =>
    have := c.utf8Size_pos
    simp only [List.length_cons, size_cons]
    omega

/-- Cuts a text after `n` bytes. There is no cut inside a character or past the end. -/
def split? : Nat → Text → Option (Text × Text)
  | 0, t => some ([], t)
  | _ + 1, [] => none
  | n + 1, c :: rest =>
    if c.utf8Size ≤ n + 1 then
      (split? (n + 1 - c.utf8Size) rest).map fun (front, back) ↦ (c :: front, back)
    else none

theorem append_of_split? {n : Nat} {t front back : Text} (h : split? n t = some (front, back)) :
    front ++ back = t := by
  induction t generalizing n front with
  | nil => cases n <;> simp_all [split?]
  | cons c t ih =>
    cases n with
    | zero =>
      simp only [split?, Option.some.injEq, Prod.mk.injEq] at h
      simp [← h.1, ← h.2]
    | succ n =>
      simp only [split?] at h
      split at h
      · obtain ⟨⟨f, b⟩, hf, hp⟩ := Option.map_eq_some_iff.1 h
        simp only [Prod.mk.injEq] at hp
        obtain ⟨rfl, rfl⟩ := hp
        simp [ih hf]
      · cases h

theorem size_of_split? {n : Nat} {t front back : Text} (h : split? n t = some (front, back)) :
    size front = n := by
  induction t generalizing n front with
  | nil => cases n <;> simp_all [split?]
  | cons c t ih =>
    cases n with
    | zero =>
      simp only [split?, Option.some.injEq, Prod.mk.injEq] at h
      simp [← h.1]
    | succ n =>
      simp only [split?] at h
      split at h
      · next hc =>
        obtain ⟨⟨f, b⟩, hf, hp⟩ := Option.map_eq_some_iff.1 h
        simp only [Prod.mk.injEq] at hp
        obtain ⟨rfl, rfl⟩ := hp
        simp only [size_cons, ih hf]
        omega
      · cases h

@[simp] theorem split?_size_append (s t : Text) : split? (size s) (s ++ t) = some (s, t) := by
  induction s with
  | nil => cases t <;> rfl
  | cons c s ih =>
    have hc := c.utf8Size_pos
    obtain ⟨k, hk⟩ : ∃ k, size (c :: s) = k + 1 := ⟨size (c :: s) - 1, by simp; omega⟩
    have hs : k + 1 - c.utf8Size = size s := by simp at hk; omega
    have hle : c.utf8Size ≤ k + 1 := by simp at hk; omega
    rw [hk, List.cons_append, split?, if_pos hle, hs, ih]
    rfl

/-- A byte length at which a text can be cut: in range and between two characters. -/
def isBoundary (n : Nat) (t : Text) : Bool := (split? n t).isSome

/-- The size of the longest prefix whose characters satisfy `p`. -/
def prefixSize (p : Char → Bool) (t : Text) : Nat := size (t.takeWhile p)

/-- Letters of the ASCII alphabet and the underscore start an identifier. -/
def isIdentifierStart (c : Char) : Bool := c == '_' || c.isAlpha

/-- Later characters of an identifier may be ASCII digits too. -/
def isIdentifierPart (c : Char) : Bool := c == '_' || c.isAlphanum

/-- The identifier at the start of a text, empty if there is none. -/
def identifier : Text → Text
  | [] => []
  | c :: rest => if isIdentifierStart c then (c :: rest).takeWhile isIdentifierPart else []

/-- The carriage return and the line feed each end a line. -/
def isLineBreak (c : Char) : Bool := c == '\n' || c == '\r'

/-- The size of the line break at the start of a text: a carriage return and a line feed after it
are one break. -/
def lineBreakSize : Text → Nat
  | '\r' :: '\n' :: _ => 2
  | '\r' :: _ => 1
  | '\n' :: _ => 1
  | _ => 0

/-- The size of what comes before the next line break. -/
def restOfLineSize (t : Text) : Nat := prefixSize (fun c ↦ !isLineBreak c) t

/-- ASCII letters in lower case, all else as it is. -/
def lower (t : Text) : Text := t.map Char.toLower

/-- What stands before the first occurrence of `needle`. -/
def before? (needle : Text) : Text → Option Text
  | [] => if needle.isEmpty then some [] else none
  | c :: rest =>
    if needle.isPrefixOf (c :: rest) then some []
    else (before? needle rest).map (c :: ·)

/-- Takes `opening` off the front and `closing` off the back, if what is left after the first still
ends in the second; otherwise the text as it is. -/
def stripDelimiters (opening closing t : Text) : Text :=
  if opening.isPrefixOf t then
    let inner := t.drop opening.length
    if closing.isSuffixOf inner then inner.take (inner.length - closing.length) else t
  else t

/-- The bytes from `start` up to `stop`. There are none if the range is reversed, leaves the text
or cuts a character. -/
def slice? (start stop : Nat) (t : Text) : Option Text :=
  if start ≤ stop then do
    let (_, tail) ← split? start t
    let (middle, _) ← split? (stop - start) tail
    some middle
  else none

/-- What a backslash and a character after it stand for. Escaped line breaks vanish, and a
character without a meaning of its own stands for itself. -/
def escapeValue : Char → Text
  | 'n' => ['\n']
  | 't' => ['\t']
  | 'r' => ['\r']
  | '0' => ['\x00']
  | '\r' | '\n' => []
  | c => [c]

/-- Decodes the single-character backslash escapes. A line break of two characters is escaped as a
whole, and a last lone backslash is kept. -/
def unescape : Text → Text
  | [] => []
  | '\\' :: [] => ['\\']
  | '\\' :: '\r' :: '\n' :: rest => unescape rest
  | '\\' :: c :: rest => escapeValue c ++ unescape rest
  | c :: rest => c :: unescape rest

theorem unescape_escape {c : Char} {rest : Text}
    (h : ∀ tail, c = '\r' → rest = '\n' :: tail → False) :
    unescape ('\\' :: c :: rest) = escapeValue c ++ unescape rest := by
  rw [unescape]
  exact h

theorem unescape_pair (c : Char) : unescape ['\\', c] = escapeValue c := by
  rw [unescape_escape fun _ _ h ↦ List.cons_ne_nil _ _ h.symm, unescape, List.append_nil]

theorem unescape_cons {c : Char} {rest : Text} (h : c ≠ '\\') :
    unescape (c :: rest) = c :: unescape rest := by
  rw [unescape] <;> simp_all

end Text

end LexFront
