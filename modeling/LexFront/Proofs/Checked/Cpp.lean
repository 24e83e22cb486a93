import LexFront.Proofs.Checked.Numerals
import LexFront.Proofs.Checked.Rules
import LexFront.Proofs.Checked.Splices

/-!
# C++ by offsets

The scanners and decoders of C++ as they take their text apart. What is run on a copy without
splices takes the copy apart, and what is read as it was written the text: the encoding of a literal
is cut off, the delimiter of a raw string is cut out and its content is what is behind. Decoders are
given any text, also one that no scanner has matched.

Key facts:

* `scanString?_eq`, `decodeString?_eq`: strings, raw ones among them.
* `agrees_checkedLexicon`: the whole table.
-/

set_option autoImplicit false

namespace LexFront.Cpp

/-! ### Literals between quotes -/

/-- A literal between quotes, behind its encoding. -/
def scanQuoted? (quote : Char) (t : Text) : Checked Scan := do
  match ← Text.from? (encodingSize t) t with
  | c :: rest =>
    return if c = quote then
      (Scan.throughQuote quote false rest).after (encodingSize t + c.utf8Size) else .noMatch
  | [] => return .noMatch

theorem hasRest_encodingSize (t : Text) : t.HasRest (encodingSize t) (t.drop (encodingSize t)) := by
  obtain ⟨e, rest, rfl, hsize, he⟩ := encoding_spec t
  rw [hsize, List.drop_left]
  exact ⟨e, rfl, (size_of_encoding he).symm⟩

theorem scanQuoted?_eq (quote : Char) (t : Text) :
    scanQuoted? quote t = .ok (scanQuoted quote t) := by
  rw [scanQuoted?, (hasRest_encodingSize t).from?_eq, Checked.ok_bind]
  simp only [scanQuoted]
  generalize t.drop (encodingSize t) = rest
  cases rest <;> rfl

/-! ### Raw strings -/

/-- A raw string from its first character on, which an opening quote follows. -/
def scanRaw? (t : Text) : Checked Scan := do
  let body ← Text.from? 2 t
  let n := Text.prefixSize isRawDelimiter body
  if 16 < n then return .noMatch
  else
    let behind ← Text.from? n body
    if behind.head? = some '(' then
      let delimiter ← Text.upto? n body
      let content ← Text.from? (n + 1) body
      return (Scan.through (rawCloser delimiter) content).after (2 + n + 1)
    else return .noMatch

theorem scanRaw?_eq (body : Text) :
    scanRaw? ('R' :: '"' :: body) = .ok ((scanRawBody body).after 2) := by
  have hbody : Text.from? 2 ('R' :: '"' :: body) = .ok body := Text.from?_append ['R', '"'] body
  obtain ⟨d, rest, rfl, hd, hrest⟩ := rawBody_spec body
  have hsize : Text.prefixSize isRawDelimiter (d ++ rest) = Text.size d := by
    rw [Text.prefixSize, takeWhile_isRawDelimiter d hd hrest]
  simp only [scanRaw?, hbody, Checked.ok_bind, hsize, Text.from?_append, Text.upto?_append]
  by_cases hp : rest.head? = some '('
  · obtain ⟨content, rfl⟩ := List.head?_eq_some_iff.1 hp
    have hcontent : Text.from? (Text.size d + 1) (d ++ '(' :: content) = .ok content := by
      have hrest : Text.HasRest (d ++ '(' :: content) (Text.size d) ('(' :: content) :=
        ⟨d, rfl, rfl⟩
      exact hrest.cons.from?_eq
    rw [scanRawBody_paren d content hd, List.head?_cons, if_pos rfl, hcontent, Text.size_append,
      Nat.add_assoc 2]
    by_cases hlong : 16 < Text.size d
    · rw [if_pos hlong, if_neg (Nat.not_le.2 hlong)]
      rfl
    · rw [if_neg hlong, if_pos (Nat.not_lt.1 hlong), Scan.after_after]
      rfl
  · rw [scanRawBody_eq_noMatch d rest hd hrest hp, if_neg hp, ite_self]
    rfl

/-- A string, raw if its first characters stand together as they are. -/
def scanString? (t : Text) : Checked Scan := do
  let rest ← Text.from? (encodingSize t) t
  if ['R', '"'].isPrefixOf rest then return (← scanRaw? rest).after (encodingSize t)
  else runSpliced? false (scanQuoted? '"') t

theorem scanString?_eq (t : Text) : scanString? t = .ok (scanString t) := by
  rw [scanString?, (hasRest_encodingSize t).from?_eq, Checked.ok_bind]
  by_cases hraw : ∃ body, t.drop (encodingSize t) = 'R' :: '"' :: body
  · obtain ⟨body, hbody⟩ := hraw
    rw [hbody, if_pos (by simp), scanRaw?_eq, Checked.ok_bind, Scan.after_after, scanString]
    simp only [hbody]
    rfl
  · rw [if_neg, scanString_quoted fun body hbody ↦ hraw ⟨body, hbody⟩,
      runSpliced?_eq plain_scanString (scanQuoted?_eq '"')]
    rw [List.isPrefixOf_iff_prefix]
    rintro ⟨body, hbody⟩
    exact hraw ⟨body, hbody.symm⟩

/-! ### Decoding -/

/-- A number without splices and separators. -/
def decodeNumber? (t : Text) : Checked Text := do
  let kept ← unsplice? t
  return kept.filter (· != '\'')

theorem decodeNumber?_eq (t : Text) : decodeNumber? t = .ok (decodeNumber t) := by
  rw [decodeNumber?, unsplice?_eq]
  rfl

/-- What stands between the quotes of a character literal, decoded. -/
def decodeCharacter? (t : Text) : Checked Text :=
  match Text.before? ['\''] t with
  | some front => do
    let stop ← Checked.sub? (Text.size t) 1
    return Text.unescape ((Text.slice? (Text.size front + 1) stop t).getD [])
  | none => .ok t

theorem decodeCharacter?_eq (t : Text) : decodeCharacter? t = .ok (decodeCharacter t) := by
  rw [decodeCharacter?, decodeCharacter]
  obtain ⟨hnone, hfree⟩ | ⟨front, rest, rfl, hsome, hfree⟩ := Text.before?_singleton '\'' t
  · rw [hnone, if_neg (by simpa using hfree)]
  · have hsize : 1 ≤ Text.size (front ++ '\'' :: rest) := Text.size_pos (by simp)
    rw [hsome, if_pos (by simp), Text.prefixSize, Text.takeWhile_ne hfree]
    simp only [Checked.sub?_of_le hsize, Checked.ok_bind]
    rfl

/-- What stands between the quotes of a string, decoded; the content of a raw string is kept. -/
def decodeString? (t : Text) : Checked Text :=
  match Text.before? ['"'] t with
  | some front => do
    let body ← Text.from? (Text.size front + 1) t
    let opening ← Text.upto? (Text.size front) t
    if opening.getLast? = some 'R' then
      match Text.before? ['('] body with
      | some inner =>
        let start := Text.size inner
        return (Text.slice? (start + 1) (Text.size body - (start + 2)) body).getD []
      | none => return t
    else return Text.unescape (if body.getLast? = some '"' then body.dropLast else body)
  | none => .ok t

theorem decodeString?_eq (t : Text) : decodeString? t = .ok (decodeString t) := by
  rw [decodeString?, decodeString]
  obtain ⟨hnone, hfree⟩ | ⟨front, body, rfl, hsome, hfree⟩ := Text.before?_singleton '"' t
  · have hall : t.takeWhile (· != '"') = t :=
      List.takeWhile_eq_self_iff.2 fun c hc ↦ bne_iff_ne.2 fun h ↦ hfree (h ▸ hc)
    rw [hnone, hall]
    simp only [List.drop_length]
  · have hbody : Text.from? (Text.size front + 1) (front ++ '"' :: body) = .ok body := by
      have hrest : Text.HasRest (front ++ '"' :: body) (Text.size front) ('"' :: body) :=
        ⟨front, rfl, rfl⟩
      exact hrest.cons.from?_eq
    rw [hsome, Text.takeWhile_ne hfree]
    simp only [hbody, Text.upto?_append, Checked.ok_bind, List.drop_left]
    split
    · obtain ⟨hnone, hfree⟩ | ⟨inner, rest, rfl, hsome, hfree⟩ := Text.before?_singleton '(' body
      · rw [hnone, if_neg (by simpa using hfree)]
        rfl
      · rw [hsome, if_pos (by simp), Text.prefixSize, Text.takeWhile_ne hfree]
        rfl
    · rfl

/-! ### The lexicon -/

/-- The rules of C++ by offsets. -/
def checkedLexicon : CheckedLexicon Kind where
  name := "cpp"
  rules :=
    [⟨.whitespace, scanWhitespace?, .ok⟩,
      ⟨.newline, fun t ↦ .ok (scanNewline t), .ok⟩,
      ⟨.lineComment, runSpliced? true fun t ↦ .ok (scanLineComment t), unsplice?⟩,
      ⟨.blockComment, runSpliced? false fun t ↦ .ok (scanBlockComment t), unsplice?⟩,
      ⟨.keyword, runSpliced? true (Scan.keyword? isKeyword), unsplice?⟩,
      ⟨.identifier, runSpliced? true fun t ↦ .ok (scanIdentifier t), unsplice?⟩,
      ⟨.integerLiteral, runSpliced? true (Numeral.scan? false), decodeNumber?⟩,
      ⟨.floatingLiteral, runSpliced? true (Numeral.scan? true), decodeNumber?⟩,
      ⟨.characterLiteral, runSpliced? false (scanQuoted? '\''), decodeCharacter?⟩,
      ⟨.stringLiteral, scanString?, decodeString?⟩,
      ⟨.operator, runSpliced? true fun t ↦ .ok (scanOperator t), unsplice?⟩]

/-- **No rule of C++ is ever refused a step.** -/
theorem agrees_checkedLexicon : checkedLexicon.Agrees lexicon where
  name := rfl
  rules := by
    refine .cons ⟨rfl, scanWhitespace?_eq, fun _ ↦ rfl⟩ (.cons ⟨rfl, fun _ ↦ rfl, fun _ ↦ rfl⟩
      (.cons ?_ (.cons ?_ (.cons ?_ (.cons ?_ (.cons ?_ (.cons ?_ (.cons ?_ (.cons ?_
        (.cons ?_ .nil))))))))))
    · exact ⟨rfl, runSpliced?_eq plain_scanLineComment (fun _ ↦ rfl) true, unsplice?_eq⟩
    · exact ⟨rfl, runSpliced?_eq plain_scanBlockComment (fun _ ↦ rfl) false, unsplice?_eq⟩
    · exact ⟨rfl, runSpliced?_eq plain_scanKeyword (Scan.keyword?_eq isKeyword) true, unsplice?_eq⟩
    · exact ⟨rfl, runSpliced?_eq plain_scanIdentifier (fun _ ↦ rfl) true, unsplice?_eq⟩
    · exact ⟨rfl, runSpliced?_eq (plain_scanNumeral false) (Numeral.scan?_eq false) true,
        decodeNumber?_eq⟩
    · exact ⟨rfl, runSpliced?_eq (plain_scanNumeral true) (Numeral.scan?_eq true) true,
        decodeNumber?_eq⟩
    · exact ⟨rfl, runSpliced?_eq plain_scanCharacter (scanQuoted?_eq '\'') false,
        decodeCharacter?_eq⟩
    · exact ⟨rfl, scanString?_eq, decodeString?_eq⟩
    · exact ⟨rfl, runSpliced?_eq plain_scanOperator (fun _ ↦ rfl) true, unsplice?_eq⟩

end LexFront.Cpp
