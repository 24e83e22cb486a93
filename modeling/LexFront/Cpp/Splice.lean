import LexFront.Lexicon.Basic

/-!
# Spliced lines

In C and C++ a backslash right before a line break joins two lines. Such a splice may stand
anywhere, also inside a token. A text is therefore read as a list of pieces, each a character or a
splice, and a scanner written for texts without splices is run on the characters alone; the size
that it finds is then carried back to the text as it was written.

Key facts:

* `flatten_pieces`: the pieces put together are the text.
* `scanSpliced_eq_scanPieces`: the short ways taken for speed make no difference.
* `unsplice_append_pieces`: the characters of consecutive pieces are consecutive.
-/

set_option autoImplicit false

namespace LexFront.Cpp

/-- One character of a text, or a splice with the line break that it hides. -/
inductive Piece where
  | kept (c : Char)
  | splice (lineBreak : Text)
  deriving DecidableEq, Repr

namespace Piece

/-- A piece as it stands in the text. -/
def text : Piece → Text
  | kept c => [c]
  | splice lineBreak => '\\' :: lineBreak

/-- The size of a piece in the text. -/
def size (p : Piece) : Nat := Text.size p.text

/-- The character of a piece, none for a splice. -/
def char? : Piece → Option Char
  | kept c => some c
  | splice _ => none

/-- Whether a piece is a splice. -/
def isSplice (p : Piece) : Bool := p.char?.isNone

end Piece

/-- Reads a text from left to right, taking splices as one piece. -/
def pieces : Text → List Piece
  | '\\' :: '\r' :: '\n' :: rest => .splice ['\r', '\n'] :: pieces rest
  | '\\' :: '\r' :: rest => .splice ['\r'] :: pieces rest
  | '\\' :: '\n' :: rest => .splice ['\n'] :: pieces rest
  | c :: rest => .kept c :: pieces rest
  | [] => []

/-- The characters of some pieces. -/
def keptText (ps : List Piece) : Text := ps.filterMap Piece.char?

/-- A text without its splices. -/
def unsplice (t : Text) : Text := keptText (pieces t)

/-- Whether the last piece is a splice, so that the next line goes on with this one. -/
def isOpenEnded (ps : List Piece) : Bool := ps.getLast?.any Piece.isSplice

/-- The size, in the text, of the shortest run of pieces that holds the first `n` bytes of their
characters. Splices right behind those bytes do not belong to it. -/
def writtenSize : Nat → List Piece → Nat
  | 0, _ => 0
  | n + 1, [] => n + 1
  | n + 1, .splice lineBreak :: rest => (Piece.splice lineBreak).size + writtenSize (n + 1) rest
  | n + 1, .kept c :: rest => c.utf8Size + writtenSize (n + 1 - c.utf8Size) rest

/-- Runs a scanner on the characters of some pieces. If `extendable`, a match that reaches a splice
at the end may go on in the next line, and asks for it. -/
def scanPieces (extendable : Bool) (scan : Text → Scan) (ps : List Piece) : Scan :=
  let kept := keptText ps
  match scan kept with
  | .matched n =>
    -- Only a splice at the very end can hide characters that are not visible yet.
    if extendable && isOpenEnded ps && n == Text.size kept then .needMore
    else .matched (writtenSize n ps)
  | s => s

/-- Whether a text may have splices. -/
def hasBackslash : Text → Bool
  | [] => false
  | c :: rest => if c = '\\' then true else hasBackslash rest

/-- Runs a scanner on the characters of a text, for tokens that start with certain characters only.
A text without a backslash has no splices and is scanned as it is. -/
def scanSpliced (extendable : Bool) (starts : Char → Bool) (scan : Text → Scan) : Text → Scan
  | [] => .noMatch
  | c :: rest =>
    -- A splice at the start may hide any first character, so a backslash does not settle it.
    if c ≠ '\\' ∧ starts c = false then .noMatch
    else if hasBackslash (c :: rest) then scanPieces extendable scan (pieces (c :: rest))
    else scan (c :: rest)

/-! ### Pieces and characters -/

theorem flatten_pieces (t : Text) : (pieces t).flatMap Piece.text = t := by
  fun_induction pieces t <;> simp_all [Piece.text]

theorem unsplice_append_pieces (ps qs : List Piece) :
    keptText (ps ++ qs) = keptText ps ++ keptText qs := by
  simp [keptText]

theorem hasBackslash_eq_false {t : Text} : hasBackslash t = false ↔ '\\' ∉ t := by
  induction t with
  | nil => simp [hasBackslash]
  | cons c t ih =>
    by_cases h : c = '\\'
    · simp [hasBackslash, h]
    · simp [hasBackslash, h, ih, Ne.symm h]

theorem pieces_eq_map_kept {t : Text} (h : '\\' ∉ t) : pieces t = t.map .kept := by
  fun_induction pieces t <;> simp_all

theorem keptText_map_kept (t : Text) : keptText (t.map .kept) = t := by
  induction t with
  | nil => rfl
  | cons c t ih => simpa [keptText, Piece.char?] using ih

theorem unsplice_eq_self {t : Text} (h : '\\' ∉ t) : unsplice t = t := by
  rw [unsplice, pieces_eq_map_kept h, keptText_map_kept]

theorem isOpenEnded_map_kept (t : Text) : isOpenEnded (t.map .kept) = false := by
  cases h : (t.map Piece.kept).getLast? with
  | none => simp [isOpenEnded, h]
  | some p =>
    obtain ⟨c, _, rfl⟩ := List.mem_map.1 (List.mem_of_getLast? h)
    rw [isOpenEnded, h]
    rfl

/-- Without splices a size is the same in both texts, as long as it is within range and falls
between two characters. -/
theorem writtenSize_map_kept {n : Nat} {t : Text} (h : Text.isBoundary n t = true) :
    writtenSize n (t.map .kept) = n := by
  induction t generalizing n with
  | nil => cases n <;> simp_all [Text.isBoundary, Text.split?, writtenSize]
  | cons c t ih =>
    cases n with
    | zero => rfl
    | succ n =>
      simp only [Text.isBoundary, Text.split?] at h
      split at h
      · next hc =>
        simp only [Option.isSome_map] at h
        rw [List.map_cons, writtenSize, ih h]
        omega
      · simp at h

/-- A scanner that matches within range, and only where its first character allows it, is run on
the characters of the text, whether or not that has splices. -/
theorem scanSpliced_eq_scanPieces {extendable : Bool} {starts : Char → Bool} {scan : Text → Scan}
    (hnil : scan [] = .noMatch)
    (hstarts : ∀ c t, starts c = false → scan (c :: t) = .noMatch)
    (hscan : ∀ n t, scan t = .matched n → Text.isBoundary n t = true) (t : Text) :
    scanSpliced extendable starts scan t = scanPieces extendable scan (pieces t) := by
  have plain : ∀ t, '\\' ∉ t → scan t = scanPieces extendable scan (pieces t) := by
    intro t ht
    rw [scanPieces, pieces_eq_map_kept ht, keptText_map_kept, isOpenEnded_map_kept]
    cases hs : scan t with
    | matched n => simp [writtenSize_map_kept (hscan n t hs)]
    | noMatch => rfl
    | needMore => rfl
  cases t with
  | nil => simp [scanSpliced, scanPieces, pieces, keptText, hnil]
  | cons c t =>
    simp only [scanSpliced]
    split
    · next h =>
      have hp : pieces (c :: t) = .kept c :: pieces t := by
        rw [pieces] <;> simp_all
      have hk : keptText (.kept c :: pieces t) = c :: keptText (pieces t) := rfl
      rw [scanPieces, hp, hk, hstarts c _ h.2]
    · split
      · rfl
      · next hb =>
        exact plain _ (hasBackslash_eq_false.1 (by simpa using hb))

end LexFront.Cpp
