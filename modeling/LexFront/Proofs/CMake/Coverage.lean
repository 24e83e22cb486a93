import LexFront.Proofs.CMake.Scanning
import LexFront.Proofs.Lexer.Failures

/-!
# Every text is CMake

The rules of CMake account for every text. Nearly every character may stand in an unquoted argument,
and for each of the others there is a rule of its own: blanks and line breaks, parentheses, quotes,
and the number sign, which begins a comment of one kind or of the other. So no input is
unrecognized. What can be wrong with a unit is that one of the three constructs that run over lines
is not closed, that a limit is passed, or that the source failed.

Key facts:

* `exists_answer`: some rule answers at every character.
* `opens_of_needMore`: only three rules ask for more, each where its construct opens.
* `errors_of_run`: what the invalid lexemes of a unit may be.
-/

set_option autoImplicit false

namespace LexFront.CMake

/-! ### Some rule answers -/

theorem through_ne_noMatch (closer t : Text) : Scan.through closer t ≠ .noMatch := by
  rw [Scan.through]
  split <;> simp

/-- A bracket that opens is matched or asks for more. -/
theorem scanBracket_ne_noMatch {t : Text} {n : Nat} (h : level? t = some n) :
    scanBracket t ≠ .noMatch := by
  obtain ⟨rest, rfl⟩ := append_of_level? h
  rw [scanBracket_of_level?]
  exact Scan.after_ne_noMatch (through_ne_noMatch _ _) _

/-- An unquoted argument begins with every character that ends none. -/
theorem scanUnquoted_ne_noMatch {c : Char} (hc : endsUnquoted c = false) (rest : Text) :
    scanUnquoted (c :: rest) ≠ .noMatch := by
  have hpos : 0 < unquotedSize false (c :: rest) := by
    by_cases hb : c = '\\'
    · subst hb
      cases rest with
      | nil => exact Nat.zero_lt_one
      | cons d rest =>
        rw [unquotedSize]
        split <;> omega
    · have hq : c ≠ '"' := by
        rintro rfl
        cases hc
      rw [unquotedSize_cons hq hb, hc, if_neg (by simp)]
      exact Nat.add_pos_left c.utf8Size_pos _
  rw [scanUnquoted, Scan.ofSize, if_neg (by omega)]
  simp

/-- The characters that are no part of an unquoted argument, one by one. -/
theorem endsUnquoted_iff {c : Char} : endsUnquoted c = true ↔
    (c = ' ' ∨ c = '\t') ∨ Text.isLineBreak c = true ∨ c = '(' ∨ c = ')' ∨ c = '#' ∨ c = '"' := by
  simp [endsUnquoted, Text.isLineBreak, or_assoc, or_comm, or_left_comm]

/-- **Some rule answers at every character**, whatever follows it. -/
theorem exists_answer (c : Char) (rest : Text) :
    ∃ r ∈ lexicon.rules, r.scan (c :: rest) ≠ .noMatch := by
  cases hc : endsUnquoted c with
  | false =>
    exact ⟨⟨.unquotedArgument, scanUnquoted, decodeEscapes⟩, by simp [lexicon],
      scanUnquoted_ne_noMatch hc rest⟩
  | true =>
    rcases endsUnquoted_iff.1 hc with hblank | hbreak | rfl | rfl | rfl | rfl
    · refine ⟨⟨.whitespace, scanWhitespace, id⟩, by simp [lexicon], ?_⟩
      have hpos := c.utf8Size_pos
      have hp : (c == ' ' || c == '\t') = true := by simpa using hblank
      simp only [scanWhitespace, Text.prefixSize, List.takeWhile_cons, hp, if_true, Text.size_cons]
      rw [Scan.ofSize, if_neg (by omega)]
      simp
    · exact ⟨⟨.newline, scanNewline, id⟩, by simp [lexicon],
        Text.lineBreakSize_ne_noMatch hbreak rest⟩
    · exact ⟨⟨.leftParen, scanChar '(', id⟩, by simp [lexicon], by simp [scanChar]⟩
    · exact ⟨⟨.rightParen, scanChar ')', id⟩, by simp [lexicon], by simp [scanChar]⟩
    · -- A number sign begins a comment of the one kind exactly if it begins none of the other.
      cases hlevel : level? rest with
      | none =>
        exact ⟨⟨.lineComment, scanLineComment, id⟩, by simp [lexicon],
          by simp [scanLineComment, hlevel]⟩
      | some n =>
        exact ⟨⟨.bracketComment, scanBracketComment, id⟩, by simp [lexicon],
          Scan.after_ne_noMatch (scanBracket_ne_noMatch hlevel) 1⟩
    · exact ⟨⟨.quotedArgument, scanQuoted, decodeQuoted⟩, by simp [lexicon],
        Scan.after_ne_noMatch (Scan.throughQuote_ne_noMatch '"' rest) 1⟩

/-- **The longest match of a text is never nothing.** -/
theorem longestMatch_ne_noMatch {t : Text} (ht : t ≠ []) :
    Lexicon.longestMatch lexicon.rules t ≠ .noMatch := by
  obtain ⟨c, rest, rfl⟩ := List.exists_cons_of_ne_nil ht
  obtain ⟨r, hr, hanswer⟩ := exists_answer c rest
  exact Lexicon.longestMatch_ne_noMatch hr (fits_of_mem hr _) hanswer

/-! ### Which rules ask for more -/

/-- The constructs that may run over lines, by name, and where they open. -/
inductive Opens : String → Text → Prop where
  | quotedArgument (rest : Text) : Opens "quoted argument" ('"' :: rest)
  | bracketArgument (n : Nat) (rest : Text) : Opens "bracket argument" (opener n ++ rest)
  | bracketComment (n : Nat) (rest : Text) : Opens "bracket comment" ('#' :: (opener n ++ rest))

theorem exists_opener_of_scanBracket {t : Text} (h : scanBracket t = .needMore) :
    ∃ n rest, t = opener n ++ rest := by
  cases hlevel : level? t with
  | none =>
    rw [scanBracket, hlevel] at h
    cases h
  | some n =>
    obtain ⟨rest, ht⟩ := append_of_level? hlevel
    exact ⟨n, rest, ht⟩

/-- **Only three rules ask for more**, each where its construct opens. -/
theorem opens_of_needMore {r : Rule Kind} (hr : r ∈ lexicon.rules) {t : Text}
    (h : r.scan t = .needMore) : Opens (Terminal.name r.terminal) t := by
  have hafter : ∀ {s : Scan} {n : Nat}, s.after n = .needMore → s = .needMore := by
    intro s n hs
    by_contra hne
    exact Scan.after_ne_needMore hne n hs
  simp only [lexicon, List.mem_cons, List.not_mem_nil, or_false] at hr
  rcases hr with rfl | rfl | rfl | rfl | rfl | rfl | rfl | rfl | rfl | rfl | rfl
  · exact absurd h (isLocal_scanWhitespace.ne_needMore t)
  · exact absurd h (Scan.ofSize_ne_needMore _)
  · exact absurd h (isLocal_scanLineComment.ne_needMore t)
  · have hcomment : scanBracketComment t = .needMore := h
    unfold scanBracketComment at hcomment
    split at hcomment
    · obtain ⟨n, rest, rfl⟩ := exists_opener_of_scanBracket (hafter hcomment)
      exact .bracketComment n rest
    · cases hcomment
  · exact absurd h (isLocal_scanKeyword.ne_needMore t)
  · exact absurd h (Text.isLocal_identifier.ne_needMore t)
  · exact absurd h ((isLocal_scanChar (by decide)).ne_needMore t)
  · exact absurd h ((isLocal_scanChar (by decide)).ne_needMore t)
  · have hquoted : scanQuoted t = .needMore := h
    unfold scanQuoted at hquoted
    split at hquoted
    · exact .quotedArgument _
    · cases hquoted
  · obtain ⟨n, rest, rfl⟩ := exists_opener_of_scanBracket h
    exact .bracketArgument n rest
  · exact absurd h (isLocal_scanUnquoted.ne_needMore t)

/-! ### A whole unit -/

/-- What may be wrong with a unit: a construct is left open, a limit is passed, or the source
failed. -/
inductive IsFailure (maxLength maxCount : Nat) (fault : Option SplitError) (i : InvalidToken) :
    Prop where
  | unterminated {construct : String} : i.error = .unterminated construct →
      Opens construct i.text → IsFailure maxLength maxCount fault i
  | tokenTooLong : i.error = .tokenTooLong maxLength → IsFailure maxLength maxCount fault i
  | tooManyTokens : i.error = .tooManyTokens maxCount → IsFailure maxLength maxCount fault i
  | split {e : SplitError} : i.error = .split e → fault = some e →
      IsFailure maxLength maxCount fault i

theorem IsFailure.ne_unrecognized {maxLength maxCount : Nat} {fault : Option SplitError}
    {i : InvalidToken} (h : IsFailure maxLength maxCount fault i) :
    i.error ≠ .unrecognizedInput := by
  intro hnone
  cases h with
  | unterminated herror _ => cases hnone.symm.trans herror
  | tokenTooLong herror => cases hnone.symm.trans herror
  | tooManyTokens herror => cases hnone.symm.trans herror
  | split herror _ => cases hnone.symm.trans herror

/-- **Nothing is unrecognized.** Some rule matches the start of every text that is not empty, or
asks for more of it. So whatever the source and the limits are, no lexeme of a unit is unrecognized
input: an invalid one is a construct that its text opens, of one of three kinds, or it is due to a
limit or to the failure of the source. -/
theorem errors_of_run (preferences : LexicalPreferences) (unit : String) (feed : Feed)
    (unitLimit lineLimit maxLength maxCount : Nat) :
    let splitter : Splitter :=
      { unit, decoder := { feed, limit := unitLimit }, limit := lineLimit }
    let l := (Lexer.ofDecoder lexicon preferences unit { feed, limit := unitLimit }
      lineLimit).withLimits maxLength maxCount
    (∀ t : Text, t ≠ [] → Lexicon.longestMatch lexicon.rules t ≠ .noMatch ∧
        ∃ r ∈ lexicon.rules, r.scan t = .needMore ∨
          ∃ n, r.scan t = .matched n ∧ 0 < n ∧ Text.isBoundary n t = true) ∧
      ∀ i, .invalid i ∈ l.lexemes → i.error ≠ .unrecognizedInput ∧
        IsFailure maxLength maxCount splitter.rest.2.fault i := by
  intro splitter l
  refine ⟨fun t ht ↦ ⟨longestMatch_ne_noMatch ht, ?_⟩, fun i hi ↦ ?_⟩
  · obtain ⟨c, rest, rfl⟩ := List.exists_cons_of_ne_nil ht
    obtain ⟨r, hr, hanswer⟩ := exists_answer c rest
    refine ⟨r, hr, ?_⟩
    cases hs : r.scan (c :: rest) with
    | noMatch => exact absurd hs hanswer
    | needMore => exact .inl rfl
    | matched n =>
      obtain ⟨front, back, ht, rfl, hne, -⟩ := fits_of_mem hr _ n hs
      refine .inr ⟨_, rfl, Text.size_pos hne, ?_⟩
      rw [ht]
      exact Text.isBoundary_size_append front back
  · obtain ⟨-, hl, live⟩ :=
      Lexer.ofDecoder_spec lexicon preferences unit { feed, limit := unitLimit } lineLimit maxLength
        maxCount
    have hending : l.lines.ending = splitter.rest.2.fault :=
      LineStream.ending_ofSplitter _ splitter
    have hfails := Lexer.fails_of_mem live hl hi
    rw [hending] at hfails
    have hfailure : IsFailure maxLength maxCount splitter.rest.2.fault i := by
      cases hfails with
      | unrecognized _ hw hm => exact absurd hm (longestMatch_ne_noMatch hw)
      | unterminated herror hr hm =>
        obtain ⟨r', hr', hscan⟩ := Lexicon.exists_needMore_of_longestMatch hm
        obtain rfl := Option.some.inj (hr.symm.trans hr')
        exact .unterminated herror (opens_of_needMore (List.mem_of_getElem? hr') hscan)
      | overlong herror => exact .tokenTooLong herror
      | full herror => exact .tooManyTokens herror
      | split herror hfault => exact .split herror hfault
    exact ⟨hfailure.ne_unrecognized, hfailure⟩

end LexFront.CMake
