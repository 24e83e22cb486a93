import LexFront.Proofs.Cpp.SplicedLiterals
import LexFront.Proofs.Languages

/-!
# Texts between quotes

Every text can be written between quotes, so that it is one token of its language and the value of
that token. What is written for a character is a matter of the language, for CMake keeps line breaks
between quotes and C++ does not allow them; that it is one of two forms is enough for all the rest
(`Spells`). The scanner passes over either form as a whole, so it does not take an escaped quote for
the closing one; the decoder takes either form back to its character, and both see an escape begin
at the same places because the forms come one after the other from the opening quote on.

Key facts:

* `throughQuote_flatMap`: the quote behind spelled characters is the closing one.
* `unescape_flatMap`: spelled characters are decoded to themselves.
* `lexemes_of_longest`: a text that a rule matches as a whole is one token.
* `lexemes_of_quote`: a quoted text is one token, and its value is the text.
-/

set_option autoImplicit false

namespace LexFront

/-! ### Spelled characters -/

/-- How a character may be written between quotes: as it is, or as a backslash and a character that
stand for it. Behind a backslash neither a line break nor a semicolon is like other characters. -/
inductive Spells (multiline : Bool) : Char → Text → Prop where
  | plain {c : Char} : c ≠ '"' → c ≠ '\\' → (!multiline && Text.isLineBreak c) = false →
      Spells multiline c [c]
  | escape {c d : Char} : Text.isLineBreak d = false → d ≠ ';' → Text.escapeValue d = [c] →
      Spells multiline c ['\\', d]

/-- A text between quotes, with what is written for each of its characters. -/
def quoteWith (spelling : Char → Text) (s : Text) : Text := '"' :: (s.flatMap spelling ++ ['"'])

section

variable {multiline : Bool} {spelling : Char → Text} {s : Text}

/-- **The quote behind spelled characters is the closing one.** -/
theorem throughQuote_flatMap (h : ∀ c ∈ s, Spells multiline c (spelling c)) (rest : Text) :
    Scan.throughQuote '"' multiline (s.flatMap spelling ++ '"' :: rest) =
      .matched (Text.size (s.flatMap spelling) + 1) := by
  induction s with
  | nil =>
    rw [List.flatMap_nil, List.nil_append, Scan.throughQuote_cons (by decide),
      if_neg (by simp [Text.isLineBreak]), if_pos rfl]
    rfl
  | cons c s ih =>
    obtain ⟨hc, hs⟩ := List.forall_mem_cons.1 h
    rw [List.flatMap_cons, List.append_assoc, Text.size_append]
    generalize spelling c = w at hc
    cases hc with
    | plain hq hb hbreak =>
      rw [List.singleton_append, Scan.throughQuote_cons hb, if_neg (by simp [hbreak]), if_neg hq,
        ih hs, Scan.after]
      simp [Nat.add_assoc]
    | @escape d hbreak _ _ =>
      rw [List.cons_append, List.singleton_append, Scan.throughQuote, if_neg (by simp [hbreak]),
        ih hs, Scan.after]
      have hslash : Char.utf8Size '\\' = 1 := rfl
      simp only [Text.size_cons, Text.size_nil, hslash, Nat.add_assoc, Nat.add_zero]

/-- **Spelled characters are decoded to themselves.** -/
theorem unescape_flatMap (h : ∀ c ∈ s, Spells multiline c (spelling c)) :
    Text.unescape (s.flatMap spelling) = s := by
  induction s with
  | nil => rfl
  | cons c s ih =>
    obtain ⟨hc, hs⟩ := List.forall_mem_cons.1 h
    rw [List.flatMap_cons]
    generalize spelling c = w at hc
    cases hc with
    | plain _ hb _ => rw [List.singleton_append, Text.unescape_cons hb, ih hs]
    | escape hbreak _ hvalue =>
      rw [List.cons_append, List.singleton_append, Cpp.unescape_escape_of_unbroken hbreak, hvalue,
        ih hs, List.singleton_append]

theorem hasEscapedSemicolon_flatMap (h : ∀ c ∈ s, Spells multiline c (spelling c)) :
    CMake.hasEscapedSemicolon (s.flatMap spelling) = false := by
  induction s with
  | nil => rfl
  | cons c s ih =>
    obtain ⟨hc, hs⟩ := List.forall_mem_cons.1 h
    rw [List.flatMap_cons]
    generalize spelling c = w at hc
    cases hc with
    | plain _ hb _ =>
      rw [List.singleton_append, CMake.hasEscapedSemicolon, ih hs]
      exact fun _ _ heq _ ↦ hb heq
    | escape _ hsemicolon _ =>
      rw [List.cons_append, List.singleton_append, CMake.hasEscapedSemicolon, ih hs]
      simp [hsemicolon]

end

/-! ### A text that is one token -/

namespace Lexer

variable {T : Type} [Terminal T]

/-- A text that is short enough to be the only token of a unit. -/
structure FitsAlone (unitLimit lineLimit maxLength maxCount : Nat) (t : Text) : Prop where
  unit : Text.size t ≤ unitLimit
  lines : t.FitsLines lineLimit
  length : Text.size t ≤ maxLength
  count : 0 < maxCount

theorem lex_of_longest {lexicon : Lexicon T} {t : Text} (ht : t ≠ []) {i : Nat} {r : Rule T}
    (hm : Lexicon.longestMatch lexicon.rules t = .matched i (Text.size t))
    (hr : lexicon.rules[i]? = some r) (start : Location) :
    lexicon.lex start t = [.valid (.covering r.terminal t (r.decode t) start)] := by
  have hcut := cut_size_append t []
  rw [List.append_nil] at hcut
  have hlexeme : lexicon.lexeme start t =
      (.valid (.covering r.terminal t (r.decode t) start), []) := by
    rw [Lexicon.lexeme, hm]
    simp only [hr, hcut]
  rw [Lexicon.lex_of_ne_nil _ _ ht, hlexeme, Lexicon.lex_nil]

/-- **A text that a rule matches as a whole is one token**, if the rules are stable. -/
theorem lexemes_of_longest {lexicon : Lexicon T} {P : Text → Prop}
    (hs : Lexicon.IsStable lexicon.rules P) (preferences : LexicalPreferences) (unit : String)
    {feed : Feed} {t : Text} {unitLimit lineLimit maxLength maxCount : Nat} (ht : feed.Delivers t)
    (hfits : FitsAlone unitLimit lineLimit maxLength maxCount t) (hP : P t) (hne : t ≠ [])
    {i : Nat} {r : Rule T} (hm : Lexicon.longestMatch lexicon.rules t = .matched i (Text.size t))
    (hr : lexicon.rules[i]? = some r) {value : Text} (hvalue : r.decode t = value) :
    ((ofDecoder lexicon preferences unit { feed, limit := unitLimit } lineLimit).withLimits
      maxLength maxCount).lexemes = [.valid (.covering r.terminal t value (.start unit))] := by
  subst hvalue
  have hlex := lex_of_longest hne hm hr (.start unit)
  rw [lexemes_of_delivers hs preferences unit ht hfits.unit hfits.lines hP, hlex]
  rw [hlex]
  refine ⟨fun x hx _ ↦ ?_, hfits.count⟩
  rw [List.mem_singleton.1 hx]
  exact hfits.length

end Lexer

/-! ### Quoted arguments of CMake -/

namespace CMake

/-- A backslash in front of quotes and backslashes. -/
def spelling (c : Char) : Text := if c = '"' ∨ c = '\\' then ['\\', c] else [c]

/-- A text as a quoted argument. Line breaks are kept as they are. -/
def quote (s : Text) : Text := quoteWith spelling s

theorem spells_spelling (c : Char) : Spells true c (spelling c) := by
  rw [spelling]
  split
  · next h => rcases h with rfl | rfl <;> exact .escape (by decide) (by decide) rfl
  · next h =>
    obtain ⟨hq, hb⟩ := not_or.1 h
    exact .plain hq hb rfl

theorem scanQuoted_quote (s : Text) : scanQuoted (quote s) = .matched (Text.size (quote s)) := by
  have hquote : Char.utf8Size '"' = 1 := rfl
  rw [quote, quoteWith, scanQuoted, throughQuote_flatMap fun c _ ↦ spells_spelling c, Scan.after]
  simp only [Text.size_cons, Text.size_append, Text.size_nil, hquote]

/-- No rule but that for quoted arguments has anything to say behind a quote. -/
theorem longestMatch_quote (s : Text) :
    Lexicon.longestMatch lexicon.rules (quote s) = .matched 8 (Text.size (quote s)) := by
  have hscan := scanQuoted_quote s
  have hfits := fits_scanQuoted (quote s)
  have hscans : lexicon.rules.map (·.scan (quote s)) =
      List.replicate 8 .noMatch ++ scanQuoted (quote s) :: List.replicate 2 .noMatch := rfl
  rw [hscan] at hscans hfits
  exact Lexicon.longestMatch_eq_matched hscans hfits (by simp)

theorem decodeQuoted_quote (s : Text) : decodeQuoted (quote s) = s := by
  have hspells : ∀ c ∈ s, Spells true c (spelling c) := fun c _ ↦ spells_spelling c
  have hstrip : Text.stripDelimiters ['"'] ['"'] (quote s) = s.flatMap spelling := by
    simp [Text.stripDelimiters, quote, quoteWith]
  rw [decodeQuoted, hstrip, decodeEscapes_eq_unescape (hasEscapedSemicolon_flatMap hspells),
    unescape_flatMap hspells]

end CMake

/-! ### String literals of C++ -/

namespace Cpp

/-- A backslash in front of quotes and backslashes, and letters for line breaks. -/
def spelling (c : Char) : Text :=
  if c = '\n' then ['\\', 'n'] else if c = '\r' then ['\\', 'r'] else CMake.spelling c

/-- A text as a string literal. -/
def quote (s : Text) : Text := quoteWith spelling s

theorem spells_spelling (c : Char) : Spells false c (spelling c) := by
  rw [spelling]
  split
  · next h =>
    subst h
    exact .escape (by decide) (by decide) rfl
  · next hlf =>
    split
    · next h =>
      subst h
      exact .escape (by decide) (by decide) rfl
    · next hcr =>
      have hbreak : Text.isLineBreak c = false := by simp [Text.isLineBreak, hlf, hcr]
      have hspells := CMake.spells_spelling c
      generalize CMake.spelling c = w at hspells
      cases hspells with
      | plain hq hb _ => exact .plain hq hb hbreak
      | escape hd hsemicolon hvalue => exact .escape hd hsemicolon hvalue

/-- A string literal stays on its line, so that nothing in it is a splice. -/
theorem isSpliceFree_quote (s : Text) : IsSpliceFree (quote s) := by
  have hunbroken : ∀ b ∈ quote s, Text.isLineBreak b = false := by
    intro b hb
    simp only [quote, quoteWith, List.mem_cons, List.mem_append, List.mem_flatMap,
      List.not_mem_nil, or_false] at hb
    rcases hb with rfl | ⟨c, -, hb⟩ | rfl
    · rfl
    · have hspells := spells_spelling c
      generalize spelling c = w at hspells hb
      cases hspells with
      | plain _ _ hbreak =>
        rw [List.mem_singleton.1 hb]
        simpa using hbreak
      | escape hbreak _ _ =>
        simp only [List.mem_cons, List.not_mem_nil, or_false] at hb
        rcases hb with rfl | rfl
        · rfl
        · exact hbreak
    · rfl
  intro b hb hsub
  rw [hunbroken b (hsub.subset (by simp))] at hb
  cases hb

theorem scanString_quote (s : Text) : scanString (quote s) = .matched (Text.size (quote s)) := by
  have hquote : Char.utf8Size '"' = 1 := rfl
  rw [scanString_quoted (fun rest h ↦ by cases h),
    plain_scanString.scanSpliced_of_isSpliceFree _ (isSpliceFree_quote s), quote, quoteWith,
    scanQuoted_quote (.inr rfl), throughQuote_flatMap fun c _ ↦ spells_spelling c, Scan.after]
  simp only [Text.size_cons, Text.size_append, Text.size_nil, hquote]

/-- No rule but that for strings has anything to say behind a quote. -/
theorem longestMatch_quote (s : Text) :
    Lexicon.longestMatch lexicon.rules (quote s) = .matched 9 (Text.size (quote s)) := by
  have hscan := scanString_quote s
  have hfits := fits_scanString (quote s)
  have hscans : lexicon.rules.map (·.scan (quote s)) =
      List.replicate 9 .noMatch ++ scanString (quote s) :: List.replicate 1 .noMatch := rfl
  rw [hscan] at hscans hfits
  exact Lexicon.longestMatch_eq_matched hscans hfits (by simp)

theorem decodeString_quote (s : Text) : decodeString (quote s) = s := by
  have hquoted : decodeString ([] ++ '"' :: (s.flatMap spelling ++ ['"'])) = _ :=
    decodeString_quoted (by simp) (by simp)
  exact hquoted.trans (unescape_flatMap fun c _ ↦ spells_spelling c)

end Cpp

/-! ### Both languages -/

namespace Lexer

/-- **Every text can be written between quotes** and comes back unchanged. As a quoted argument of
CMake it keeps its line breaks, and as a string literal of C++ it has escapes for them; in both a
backslash stands in front of its quotes and backslashes. The quoted text is the one lexeme of its
unit if it is within the limits, whatever characters the text has and however the bytes arrive. -/
theorem lexemes_of_quote (preferences : LexicalPreferences) (unit : String) (s : Text)
    {feed : Feed} {unitLimit lineLimit maxLength maxCount : Nat} :
    let decoder : Decoder := { feed, limit := unitLimit }
    let cmake := (ofDecoder CMake.lexicon preferences unit decoder lineLimit).withLimits
      maxLength maxCount
    let cpp := (ofDecoder Cpp.lexicon preferences unit decoder lineLimit).withLimits
      maxLength maxCount
    (feed.Delivers (CMake.quote s) →
        FitsAlone unitLimit lineLimit maxLength maxCount (CMake.quote s) →
        cmake.lexemes =
          [.valid (.covering .quotedArgument (CMake.quote s) s (.start unit))]) ∧
      (feed.Delivers (Cpp.quote s) →
        FitsAlone unitLimit lineLimit maxLength maxCount (Cpp.quote s) →
        cpp.lexemes = [.valid (.covering .stringLiteral (Cpp.quote s) s (.start unit))]) := by
  intro decoder cmake cpp
  refine ⟨fun ht hfits ↦ ?_, fun ht hfits ↦ ?_⟩
  · exact lexemes_of_longest CMake.isStable preferences unit ht hfits trivial
      (List.cons_ne_nil _ _) (CMake.longestMatch_quote s) rfl (CMake.decodeQuoted_quote s)
  · exact lexemes_of_longest Cpp.isStable preferences unit ht hfits (Cpp.isSpliceFree_quote s)
      (List.cons_ne_nil _ _) (Cpp.longestMatch_quote s) rfl (Cpp.decodeString_quote s)

/-- A text with quotes, line breaks, an escaped semicolon, and a backslash at its end. -/
theorem lexemes_of_quote_backslash :
    let s : Text := ['"', '\r', '\n', '\\', ';', '\n', 'é', '\\']
    let cmake (t : Text) := ofDecoder CMake.lexicon {} "u" { feed := .ofBytes (Text.encode t) }
    let cpp (t : Text) := ofDecoder Cpp.lexicon {} "u" { feed := .ofBytes (Text.encode t) }
    (cmake ['"', '\\', '"', '\r', '\n', '\\', '\\', ';', '\n', 'é', '\\', '\\', '"']).lexemes =
        [.valid (.covering .quotedArgument (CMake.quote s) s (.start "u"))] ∧
      (cpp ['"', '\\', '"', '\\', 'r', '\\', 'n', '\\', '\\', ';', '\\', 'n', 'é', '\\', '\\',
          '"']).lexemes = [.valid (.covering .stringLiteral (Cpp.quote s) s (.start "u"))] := by
  intro s cmake cpp
  have hfits : ∀ t : Text, Text.size t ≤ 20 → FitsAlone Limits.unitSize Limits.lineLength
      Limits.tokenLength Limits.tokenCount t := fun t ht ↦
    ⟨Nat.le_trans ht (by decide),
      Text.fitsLines_of_size_le (Nat.le_trans ht (by decide : 20 ≤ Limits.lineLength)),
      Nat.le_trans ht (by decide), by decide⟩
  exact ⟨(lexemes_of_quote {} "u" s).1 (Feed.delivers_ofBytes (CMake.quote s))
      (hfits _ (by decide)),
    (lexemes_of_quote {} "u" s).2 (Feed.delivers_ofBytes (Cpp.quote s)) (hfits _ (by decide))⟩

end Lexer

end LexFront
