import LexFront.Proofs.Checked.CMake

/-!
# Escapes one by one

A text with escapes is read from left to right, as characters and escapes: a backslash takes the
character behind it along, a whole line break if one is there, and stands alone at the end of the
text only. This says what the pieces are without decoding anything (`Reads`), and there is no more
than one way to read a text.

CMake takes escape after escape out of its text and hands each one to the decoder of single escapes,
all but escaped semicolons. So it has to cut where that decoder would, in particular behind a line
break of two characters, of which it hands over the first one only. Piece by piece the two decoders
do the same, and they differ by the escaped semicolons alone.

Key facts:

* `Reads.unique`, `exists_reads`: a text is read in one way.
* `unescape_of_reads`: decoding a text is decoding its pieces.
* `decodeEscapes_of_reads`: so it is for CMake, with its own value of an escaped semicolon.
-/

set_option autoImplicit false

namespace LexFront

namespace Text

/-- The pieces of a text with escapes, from left to right. -/
inductive Reads : Text → List Text → Prop where
  | nil : Reads [] []
  | plain {c : Char} {rest : Text} {ps : List Text} : c ≠ '\\' → Reads rest ps →
      Reads (c :: rest) ([c] :: ps)
  /-- A line break of two characters is escaped as a whole. -/
  | lineBreak {rest : Text} {ps : List Text} : Reads rest ps →
      Reads ('\\' :: '\r' :: '\n' :: rest) (['\\', '\r', '\n'] :: ps)
  | escape {c : Char} {rest : Text} {ps : List Text} : ¬ (c = '\r' ∧ rest.head? = some '\n') →
      Reads rest ps → Reads ('\\' :: c :: rest) (['\\', c] :: ps)
  /-- A backslash at the end escapes nothing. -/
  | lone : Reads ['\\'] [['\\']]

theorem exists_reads (t : Text) : ∃ ps, Reads t ps := by
  fun_induction unescape t with
  | case1 => exact ⟨_, .nil⟩
  | case2 => exact ⟨_, .lone⟩
  | case3 rest ih => exact ih.imp' _ fun _ ↦ .lineBreak
  | case4 c rest hc ih =>
    refine ih.imp' _ fun _ ↦ .escape ?_
    rintro ⟨rfl, hhead⟩
    obtain ⟨tail, rfl⟩ := List.head?_eq_some_iff.1 hhead
    exact hc tail rfl rfl
  | case5 c rest hlone _ hescape ih =>
    exact ih.imp' _ fun _ ↦ .plain (Scan.ne_backslash hlone hescape)

theorem Reads.unique {t : Text} {ps qs : List Text} (h : Reads t ps) (h' : Reads t qs) :
    ps = qs := by
  induction h generalizing qs with
  | nil => cases h'; rfl
  | plain hc _ ih =>
    cases h' with
    | plain _ hrest => rw [ih hrest]
    | lineBreak | escape | lone => exact absurd rfl hc
  | lineBreak _ ih =>
    cases h' with
    | plain hc => exact absurd rfl hc
    | lineBreak hrest => rw [ih hrest]
    | escape hc => exact absurd ⟨rfl, rfl⟩ hc
  | escape hc _ ih =>
    cases h' with
    | plain hc' => exact absurd rfl hc'
    | lineBreak => exact absurd ⟨rfl, rfl⟩ hc
    | escape _ hrest => rw [ih hrest]
  | lone =>
    cases h' with
    | plain hc => exact absurd rfl hc
    | lone => rfl

/-- The pieces put together are the text. -/
theorem Reads.flatten {t : Text} {ps : List Text} (h : Reads t ps) : ps.flatten = t := by
  induction h with
  | nil => rfl
  | plain _ _ ih | lineBreak _ ih | escape _ _ ih => rw [List.flatten_cons, ih]; rfl
  | lone => rfl

/-- **Decoding a text is decoding its pieces.** -/
theorem unescape_of_reads {t : Text} {ps : List Text} (h : Reads t ps) :
    unescape t = ps.flatMap unescape := by
  induction h with
  | nil => rfl
  | plain hc _ ih => rw [unescape_cons hc, ih, List.flatMap_cons, unescape_cons hc]; rfl
  | lineBreak _ ih => rw [unescape, ih]; rfl
  | escape hc _ ih =>
    rw [unescape_escape fun _ hr ht ↦ hc ⟨hr, by rw [ht]; rfl⟩, ih, List.flatMap_cons,
      unescape_pair]
  | lone => rfl

end Text

namespace CMake

/-- What a piece of a text stands for: an escaped semicolon for itself, as it is written. -/
def pieceValue (p : Text) : Text := if p = ['\\', ';'] then p else Text.unescape p

theorem decodeEscapes_escape {c : Char} {rest : Text}
    (h : ¬ (c = '\r' ∧ rest.head? = some '\n')) :
    decodeEscapes ('\\' :: c :: rest) = pieceValue ['\\', c] ++ decodeEscapes rest := by
  by_cases hc : c = ';'
  · subst hc
    rfl
  · rw [decodeEscapes, pieceValue, if_neg (by simpa using hc), Text.unescape_pair]
    · exact hc
    · exact fun _ hr ht ↦ h ⟨hr, by rw [ht]; rfl⟩

/-- **CMake decodes piece by piece.** -/
theorem decodeEscapes_of_reads {t : Text} {ps : List Text} (h : Text.Reads t ps) :
    decodeEscapes t = ps.flatMap pieceValue := by
  induction h with
  | nil => rfl
  | @plain c rest ps hc _ ih =>
    have hvalue : pieceValue [c] = [c] := by
      rw [pieceValue, if_neg (by simp), Text.unescape_cons hc]
      rfl
    have hcons : decodeEscapes ([c] ++ rest) = [c] ++ decodeEscapes rest :=
      decodeEscapes_append (by simpa using Ne.symm hc) rest
    rw [List.flatMap_cons, hvalue, ← ih, ← hcons]
    rfl
  | lineBreak _ ih => rw [decodeEscapes, ih]; rfl
  | escape hc _ ih => rw [decodeEscapes_escape hc, ih, List.flatMap_cons]
  | lone => rfl

/-- **CMake decodes a text like any text with escapes, but for escaped semicolons.** A text is read
in one way as characters and escapes. Each of these is decoded by itself, an escaped semicolon is
kept, and it does not matter that CMake looks for one escape after the other and cuts it out. Where
no semicolon is escaped there is no difference at all. -/
theorem decodeEscapes_refines (t : Text) :
    (∃! ps, Text.Reads t ps) ∧
      ∀ ps, Text.Reads t ps →
        ps.flatten = t ∧
        decodeEscapes t = ps.flatMap pieceValue ∧
        decodeEscapes? t = .ok (ps.flatMap pieceValue) ∧
        Text.unescape t = ps.flatMap Text.unescape ∧
        (['\\', ';'] ∉ ps → decodeEscapes t = Text.unescape t) := by
  obtain ⟨ps, hps⟩ := Text.exists_reads t
  refine ⟨⟨ps, hps, fun _ h ↦ h.unique hps⟩, fun qs hqs ↦ ?_⟩
  have hdecode := decodeEscapes_of_reads hqs
  have hunescape := Text.unescape_of_reads hqs
  refine ⟨hqs.flatten, hdecode, by rw [decodeEscapes?_eq, hdecode], hunescape, fun hfree ↦ ?_⟩
  rw [hdecode, hunescape]
  refine List.flatMap_congr fun p hp ↦ if_neg ?_
  rintro rfl
  exact hfree hp

/-- Behind an escaped backslash a semicolon is not escaped, and a line break of two characters goes
with its backslash. -/
example : decodeEscapes ['\\', '\\', ';', '\\', ';', '\\', '\r', '\n', 'é', '\\'] =
    ['\\', ';', '\\', ';', 'é', '\\'] := by decide

end CMake

end LexFront
