import LexFront.Proofs.Languages

/-!
# Bracket arguments and what may be longer

A bracket holds any characters up to the first closing bracket of its level, and its rule finds just
that. But brackets are characters of unquoted arguments too, so the rule for these looks at the same
place, and the longest match counts. An unquoted argument ends with its line, or before a blank or a
parenthesis, unless they stand in a quoted segment of it. So there is one way for it to get past a
bracket: a quote in the bracket opens a segment that is not closed before the bracket is, but behind
it on the same line. A comment is not started where a bracket opens behind the number sign; no such
condition keeps an unquoted argument from starting where a bracket opens.

`leavesQuoteOpen` reads a text as an unquoted argument would and says whether it is in a segment
then. A backslash takes the next character with it there; in a bracket it is a character like any
other.

Key facts:

* `lt_reach_bracket`: when an unquoted argument goes beyond a bracket.
* `longestMatch_bracket`: which of the two rules wins.
* `bracket_first_iff`: when a bracket at the start of a unit is its first token.
-/

set_option autoImplicit false

namespace LexFront.CMake

/-! ### What an unquoted argument makes of a text -/

/-- The characters that an unquoted argument does not go beyond: in a quoted segment only the line
breaks. -/
def interrupts (isOpen : Bool) (c : Char) : Bool :=
  if isOpen then Text.isLineBreak c else endsUnquoted c

/-- Whether an unquoted argument that goes on with a text is in a quoted segment at the end of it.
An argument that ends before that is in none. -/
def leavesQuoteOpen : Bool → Text → Bool
  | isOpen, [] => isOpen
  | isOpen, '"' :: rest => leavesQuoteOpen (!isOpen) rest
  -- Whatever follows is escaped.
  | isOpen, ['\\'] => isOpen
  | isOpen, '\\' :: c :: rest => !Text.isLineBreak c && leavesQuoteOpen isOpen rest
  | isOpen, c :: rest => !interrupts isOpen c && leavesQuoteOpen isOpen rest

theorem interrupts_of_isLineBreak {c : Char} (hc : Text.isLineBreak c = true) (isOpen : Bool) :
    interrupts isOpen c = true := by
  cases isOpen with
  | false => rcases Text.isLineBreak_iff.1 hc with rfl | rfl <;> rfl
  | true => exact hc

theorem leavesQuoteOpen_cons {c : Char} (hq : c ≠ '"') (hb : c ≠ '\\') (isOpen : Bool)
    (t : Text) :
    leavesQuoteOpen isOpen (c :: t) = (!interrupts isOpen c && leavesQuoteOpen isOpen t) := by
  rw [leavesQuoteOpen]
  · exact fun h ↦ hq h
  · exact fun h _ ↦ hb h
  · exact fun _ _ h _ ↦ hb h

/-- Without a quote no segment is opened. -/
theorem leavesQuoteOpen_of_not_mem {t : Text} (h : '"' ∉ t) : leavesQuoteOpen false t = false := by
  induction t using Text.escape_induction with
  | nil => rfl
  | lone => rfl
  | escape c rest ih =>
    have hrest : '"' ∉ rest := fun hm ↦ h (List.mem_cons_of_mem _ (List.mem_cons_of_mem _ hm))
    rw [leavesQuoteOpen, ih hrest, Bool.and_false]
  | cons c rest hb ih =>
    obtain ⟨hc, hrest⟩ : '"' ≠ c ∧ '"' ∉ rest := by simpa [not_or] using h
    rw [leavesQuoteOpen_cons (Ne.symm hc) hb, ih hrest, Bool.and_false]

/-- Nothing is open behind a line break. -/
theorem leavesQuoteOpen_of_isBroken {t : Text} (h : t.IsBroken) (isOpen : Bool) :
    leavesQuoteOpen isOpen t = false := by
  induction t using Text.escape_induction generalizing isOpen with
  | nil => simp [Text.IsBroken] at h
  | lone => simp [Text.IsBroken, Text.isLineBreak] at h
  | escape c rest ih =>
    rw [Text.isBroken_cons rfl] at h
    rw [leavesQuoteOpen]
    cases hc : Text.isLineBreak c with
    | true => rfl
    | false => rw [ih ((Text.isBroken_cons hc).1 h), Bool.and_false]
  | cons c rest hb ih =>
    by_cases hq : c = '"'
    · subst hq
      rw [leavesQuoteOpen]
      exact ih ((Text.isBroken_cons rfl).1 h) _
    · rw [leavesQuoteOpen_cons hq hb]
      cases hc : Text.isLineBreak c with
      | true => rw [interrupts_of_isLineBreak hc, Bool.not_true, Bool.false_and]
      | false => rw [ih ((Text.isBroken_cons hc).1 h), Bool.and_false]

/-- Without a quote in its line no segment is closed. -/
theorem segmentSize_of_not_mem {t : Text} (h : '"' ∉ Text.line t) : segmentSize t = none := by
  rw [← (unquotedSize_line t).2]
  generalize Text.line t = s at h
  induction s using Text.escape_induction with
  | nil => rfl
  | lone => rfl
  | escape c rest ih =>
    have hrest : '"' ∉ rest := fun hm ↦ h (List.mem_cons_of_mem _ (List.mem_cons_of_mem _ hm))
    rw [segmentSize, ih hrest]
    split <;> rfl
  | cons c rest hb ih =>
    obtain ⟨hc, hrest⟩ : '"' ≠ c ∧ '"' ∉ rest := by simpa [not_or] using h
    rw [segmentSize_cons (Ne.symm hc) hb, ih hrest]
    split <;> rfl

/-- A segment that is closed has its closing quote at least. -/
theorem segmentSize_pos {t : Text} {m : Nat} (h : segmentSize t = some m) : 0 < m := by
  induction t using Text.escape_induction generalizing m with
  | nil => cases h
  | lone => cases h
  | escape c rest _ =>
    rw [segmentSize] at h
    split at h
    · cases h
    · obtain ⟨k, -, rfl⟩ := Option.map_eq_some_iff.1 h
      omega
  | cons c rest hb _ =>
    by_cases hq : c = '"'
    · subst hq
      rw [segmentSize] at h
      obtain rfl := Option.some.inj h
      omega
    · rw [segmentSize_cons hq hb] at h
      split at h
      · cases h
      · obtain ⟨k, -, rfl⟩ := Option.map_eq_some_iff.1 h
        have := c.utf8Size_pos
        omega

/-! ### How far an unquoted argument goes -/

/-- How far an argument goes into a text that it has come to: in a quoted segment nowhere if that
is not closed. -/
def reach (isOpen : Bool) (t : Text) : Nat :=
  if isOpen then (segmentSize t).getD 0 else unquotedSize true t

theorem lt_reach_true_iff {k : Nat} {t : Text} :
    k < reach true t ↔ ∃ m, segmentSize t = some m ∧ k < m := by
  rw [reach, if_pos rfl]
  cases segmentSize t <;> simp

theorem lt_reach_quote {isOpen : Bool} {k : Nat} {t : Text} :
    1 + k < reach isOpen ('"' :: t) ↔ k < reach (!isOpen) t := by
  cases isOpen with
  | false =>
    rw [Bool.not_false, lt_reach_true_iff, reach, if_neg (by simp), unquotedSize, if_pos rfl]
    cases segmentSize t <;> simp
  | true =>
    rw [lt_reach_true_iff, Bool.not_true, reach, if_neg (by simp), segmentSize]
    simp

theorem lt_reach_escape {isOpen : Bool} {c : Char} {k : Nat} {t : Text} :
    1 + (c.utf8Size + k) < reach isOpen ('\\' :: c :: t) ↔
      Text.isLineBreak c = false ∧ k < reach isOpen t := by
  cases isOpen with
  | false =>
    simp only [reach, Bool.false_eq_true, if_false, unquotedSize]
    cases hc : Text.isLineBreak c with
    | true => simp
    | false => simp only [Bool.false_eq_true, if_false, true_and]; omega
  | true =>
    rw [lt_reach_true_iff, lt_reach_true_iff, segmentSize]
    cases hc : Text.isLineBreak c with
    | true => simp
    | false => simp [Nat.add_assoc]

theorem lt_reach_cons {isOpen : Bool} {c : Char} (hq : c ≠ '"') (hb : c ≠ '\\') {k : Nat}
    {t : Text} : c.utf8Size + k < reach isOpen (c :: t) ↔
      interrupts isOpen c = false ∧ k < reach isOpen t := by
  cases isOpen with
  | false =>
    simp only [reach, interrupts, Bool.false_eq_true, if_false, unquotedSize_cons hq hb]
    cases hc : endsUnquoted c with
    | true => simp
    | false => simp
  | true =>
    rw [lt_reach_true_iff, lt_reach_true_iff, segmentSize_cons hq hb, interrupts, if_pos rfl]
    cases hc : Text.isLineBreak c with
    | true => simp
    | false => simp

/-- A character that an argument passes over whether it is in a quoted segment or not. -/
def IsPlain (c : Char) : Prop := c ≠ '"' ∧ c ≠ '\\' ∧ ∀ isOpen, interrupts isOpen c = false

theorem lt_reach_plain {s : Text} (hs : ∀ c ∈ s, IsPlain c) {isOpen : Bool} {k : Nat} {t : Text} :
    Text.size s + k < reach isOpen (s ++ t) ↔ k < reach isOpen t := by
  induction s with
  | nil => simp
  | cons c s ih =>
    obtain ⟨⟨hq, hb, hi⟩, hs⟩ := List.forall_mem_cons.1 hs
    rw [List.cons_append, Text.size_cons, Nat.add_assoc, lt_reach_cons hq hb, ih hs, hi]
    simp

/-! ### Brackets among the characters of an argument -/

theorem isPlain_closer (n : Nat) : ∀ c ∈ closer n, IsPlain c := by
  intro c hc
  simp only [closer, List.mem_cons, List.mem_append, List.mem_replicate, List.not_mem_nil,
    or_false] at hc
  rcases hc with rfl | ⟨-, rfl⟩ | rfl <;> exact ⟨by decide, by decide, by decide⟩

theorem isPlain_opener (n : Nat) : ∀ c ∈ opener n, IsPlain c := by
  intro c hc
  simp only [opener, List.mem_cons, List.mem_append, List.mem_replicate, List.not_mem_nil,
    or_false] at hc
  rcases hc with rfl | ⟨-, rfl⟩ | rfl <;> exact ⟨by decide, by decide, by decide⟩

/-- **When an unquoted argument goes beyond a bracket** whose content it has come to: if the content
leaves a quote open that is closed behind the bracket. -/
theorem lt_reach_bracket (n : Nat) {r : Text} (hr : unquotedSize true r = 0) (c : Text)
    (isOpen : Bool) : Text.size (c ++ closer n) < reach isOpen (c ++ (closer n ++ r)) ↔
      leavesQuoteOpen isOpen c = true ∧ (segmentSize r).isSome = true := by
  have hend : ∀ isOpen, 0 < reach isOpen r ↔ isOpen = true ∧ (segmentSize r).isSome = true := by
    intro isOpen
    cases isOpen with
    | false => simp [reach, hr]
    | true =>
      rw [lt_reach_true_iff, Option.isSome_iff_exists, eq_self_iff_true, true_and]
      exact exists_congr fun m ↦ and_iff_left_of_imp segmentSize_pos
  simp only [Text.size_append]
  induction c using Text.escape_induction generalizing isOpen with
  | nil =>
    have h : Text.size (closer n) + 0 < reach isOpen (closer n ++ r) ↔ 0 < reach isOpen r :=
      lt_reach_plain (isPlain_closer n)
    rw [Nat.add_zero, hend] at h
    rw [Text.size_nil, Nat.zero_add, List.nil_append, h, leavesQuoteOpen]
  | lone =>
    -- The backslash takes the first character of the closing bracket.
    let tail := List.replicate n '=' ++ [']']
    have htail : ∀ d ∈ tail, IsPlain d := fun d hd ↦
      isPlain_closer n d (List.mem_cons_of_mem _ hd)
    have h : Text.size tail + 0 < reach isOpen (tail ++ r) ↔ 0 < reach isOpen r :=
      lt_reach_plain htail
    rw [Nat.add_zero, hend] at h
    have hescape : 1 + (Char.utf8Size ']' + Text.size tail) <
        reach isOpen ('\\' :: ']' :: (tail ++ r)) ↔
          Text.isLineBreak ']' = false ∧ Text.size tail < reach isOpen (tail ++ r) :=
      lt_reach_escape
    rw [h] at hescape
    rw [leavesQuoteOpen]
    exact hescape.trans (and_iff_right rfl)
  | escape c rest ih =>
    have hsize : Text.size ('\\' :: c :: rest) + Text.size (closer n) =
        1 + (c.utf8Size + (Text.size rest + Text.size (closer n))) := by
      have hbackslash : Char.utf8Size '\\' = 1 := rfl
      rw [Text.size_cons, Text.size_cons]
      omega
    rw [hsize, List.cons_append, List.cons_append, lt_reach_escape, leavesQuoteOpen,
      Bool.and_eq_true, Bool.not_eq_true', and_assoc]
    exact and_congr_right fun _ ↦ ih isOpen
  | cons c rest hb ih =>
    by_cases hq : c = '"'
    · subst hq
      rw [Text.size_cons, Nat.add_assoc, List.cons_append, leavesQuoteOpen]
      exact lt_reach_quote.trans (ih (!isOpen))
    · rw [Text.size_cons, Nat.add_assoc, List.cons_append, lt_reach_cons hq hb,
        leavesQuoteOpen_cons hq hb, Bool.and_eq_true, Bool.not_eq_true', and_assoc]
      exact and_congr_right fun _ ↦ ih isOpen

/-! ### A bracket at the start of a text -/

/-- A bracket argument of level `n`. -/
def bracket (n : Nat) (c : Text) : Text := opener n ++ (c ++ closer n)

theorem size_closer (n : Nat) : Text.size (closer n) = n + 2 := by
  have hopener := size_opener n
  rw [opener, Text.size_cons, Text.size_append] at hopener
  rw [closer, Text.size_cons, Text.size_append]
  exact hopener

theorem size_bracket (n : Nat) (c : Text) :
    Text.size (bracket n c) = (n + 2) + (Text.size c + (n + 2)) := by
  rw [bracket, Text.size_append, Text.size_append, size_opener, size_closer]

/-- The rule for brackets finds the bracket, if its level is closed where the content ends and not
before. -/
theorem scanBracket_bracket {n : Nat} {c : Text}
    (hc : Text.before? (closer n) (c ++ closer n) = some c) (r : Text) :
    scanBracket (bracket n c ++ r) = .matched (Text.size (bracket n c)) := by
  rw [bracket, List.append_assoc, scanBracket_of_level?, Text.size_append,
    Scan.through_append (Text.before?_append_of_some hc r), Scan.after]

/-- The rule for unquoted arguments answers too. -/
theorem scanUnquoted_bracket (n : Nat) (c r : Text) :
    scanUnquoted (bracket n c ++ r) = .matched (reach false (bracket n c ++ r)) := by
  have hstart : ∀ started t, unquotedSize started ('[' :: t) = 1 + unquotedSize true t :=
    fun started t ↦ unquotedSize_cons (by decide) (by decide) started t
  rw [bracket, opener, List.cons_append, List.cons_append, scanUnquoted, reach,
    if_neg (by simp), hstart, hstart, Scan.ofSize, if_neg (by omega)]

/-- No rule but those two has anything to say where a bracket opens. -/
theorem scans_bracket {n : Nat} {c : Text}
    (hc : Text.before? (closer n) (c ++ closer n) = some c) (r : Text) :
    lexicon.rules.map (·.scan (bracket n c ++ r)) = List.replicate 9 .noMatch ++
      [.matched (Text.size (bracket n c)), .matched (reach false (bracket n c ++ r))] := by
  rw [← scanBracket_bracket hc r, ← scanUnquoted_bracket n c r]
  rfl

/-- **The bracket wins** unless the unquoted argument goes beyond it. -/
theorem longestMatch_bracket {n : Nat} {c : Text}
    (hc : Text.before? (closer n) (c ++ closer n) = some c) (r : Text) :
    Lexicon.longestMatch lexicon.rules (bracket n c ++ r) =
      if Text.size (bracket n c) < reach false (bracket n c ++ r) then
        .matched 10 (reach false (bracket n c ++ r))
      else .matched 9 (Text.size (bracket n c)) := by
  have hscans := scans_bracket hc r
  have husable : ∀ {s : Scan} {k : Nat}, Scan.Fits (bracket n c ++ r) s → s = .matched k →
      Lexicon.usable? (bracket n c ++ r) (.matched k) = some k := by
    rintro s k hs rfl
    exact Lexicon.usable?_of_fits hs
  have hbracket := husable (fits_scanBracket _) (scanBracket_bracket hc r)
  have hargument := husable (fits_scanUnquoted _) (scanUnquoted_bracket n c r)
  generalize reach false (bracket n c ++ r) = k at hscans hargument ⊢
  generalize Text.size (bracket n c) = m at hscans hbracket ⊢
  have hanswers : ∀ rule ∈ lexicon.rules, rule.scan (bracket n c ++ r) ≠ .needMore := by
    intro rule hrule
    have hmem := List.mem_map_of_mem (f := fun rule ↦ rule.scan (bracket n c ++ r)) hrule
    rw [hscans] at hmem
    intro hmore
    simp [hmore] at hmem
  have hnone : Lexicon.usable? (bracket n c ++ r) .noMatch = none := rfl
  rw [Lexicon.longestMatch_eq_longest hanswers, hscans]
  simp only [List.replicate, List.cons_append, List.nil_append, Lexicon.longest, hnone, hbracket,
    hargument, Lexicon.better]
  by_cases hk : k ≤ m
  · rw [if_pos hk, if_neg (Nat.not_lt.2 hk)]
    rfl
  · rw [if_neg hk, if_pos (Nat.not_le.1 hk)]
    rfl

/-- What may follow a bracket so that nothing is known to be amiss: nothing at all, or a character
that ends an unquoted argument and opens no quoted segment of it. -/
def EndsArgument (r : Text) : Prop := ∀ d ∈ r.head?, endsUnquoted d = true ∧ d ≠ '"'

instance : (r : Text) → Decidable (EndsArgument r)
  | [] => isTrue fun _ h ↦ nomatch h
  | d :: _ => decidable_of_iff (endsUnquoted d = true ∧ d ≠ '"') (by simp [EndsArgument])

theorem EndsArgument.unquotedSize_eq_zero {r : Text} (hr : EndsArgument r) :
    unquotedSize true r = 0 := by
  cases r with
  | nil => rfl
  | cons d r =>
    obtain ⟨hd, hq⟩ := hr d rfl
    have hb : d ≠ '\\' := by
      rintro rfl
      cases hd
    rw [unquotedSize_cons hq hb, if_pos hd]

/-- The unquoted argument goes beyond the bracket just if a quote is open at the closing bracket and
closed behind it. -/
theorem size_bracket_lt_reach_iff (n : Nat) (c : Text) {r : Text} (hr : EndsArgument r) :
    Text.size (bracket n c) < reach false (bracket n c ++ r) ↔
      leavesQuoteOpen false c = true ∧ (segmentSize r).isSome = true := by
  rw [bracket, Text.size_append, List.append_assoc, List.append_assoc,
    lt_reach_plain (isPlain_opener n), lt_reach_bracket n hr.unquotedSize_eq_zero]

/-! ### What a bracket stands for -/

/-- A text without the line break that it may begin with. -/
def withoutBreak : Text → Text
  | '\r' :: '\n' :: rest => rest
  | '\r' :: rest => rest
  | '\n' :: rest => rest
  | t => t

theorem drop_lineBreakSize (t : Text) : t.drop (Text.lineBreakSize t) = withoutBreak t := by
  fun_cases withoutBreak t <;> simp_all [Text.lineBreakSize]

/-- **A bracket stands for its content** without a line break right after the opening one. -/
theorem decodeBracket_bracket (n : Nat) (c : Text) :
    decodeBracket (bracket n c) = withoutBreak c := by
  have hsize := size_bracket n c
  have hfront := Text.split?_size_append (opener n) (c ++ closer n)
  rw [size_opener, ← bracket] at hfront
  have hcontent : Text.size (bracket n c) - (n + 2) - (n + 2) = Text.size c := by omega
  have hslice : Text.slice? (n + 2) (Text.size (bracket n c) - (n + 2)) (bracket n c) = some c := by
    rw [Text.slice?, if_pos (by omega), hfront, hcontent]
    simp
  have hlevel : level? (bracket n c) = some n := level?_opener n _
  rw [decodeBracket, hlevel]
  simp only [hslice, Option.getD_some, drop_lineBreakSize]

/-! ### The first token of a unit -/

/-- The content leaves a quote open that is closed on the line behind the bracket. -/
def IsCaught (c r : Text) : Prop :=
  leavesQuoteOpen false c = true ∧ (segmentSize r).isSome = true

/-- Three ways for a bracket to be safe. -/
theorem not_isCaught {c r : Text} (h : '"' ∉ c ∨ c.IsBroken ∨ '"' ∉ Text.line r) :
    ¬ IsCaught c r := by
  rintro ⟨hopen, hsegment⟩
  rcases h with h | h | h
  · rw [leavesQuoteOpen_of_not_mem h] at hopen
    cases hopen
  · rw [leavesQuoteOpen_of_isBroken h] at hopen
    cases hopen
  · rw [segmentSize_of_not_mem h] at hsegment
    cases hsegment

theorem lexeme_bracket {n : Nat} {c r : Text}
    (hc : Text.before? (closer n) (c ++ closer n) = some c) (hr : EndsArgument r)
    (h : ¬ IsCaught c r) (start : Location) :
    (lexicon.lexeme start (bracket n c ++ r)).1 =
      .valid (.covering .bracketArgument (bracket n c) (withoutBreak c) start) := by
  have hshort := mt (size_bracket_lt_reach_iff n c hr).1 h
  rw [Lexicon.lexeme, longestMatch_bracket hc, if_neg hshort, ← decodeBracket_bracket n c]
  simp [lexicon, Lexer.cut_size_append]

/-- **When a bracket at the start of a unit is its first token**: just if its content leaves no
quote open that is closed on the line behind it. That is so if there is no quote in its content, or
a line break, or no quote behind it on its line. Otherwise the first token, if the limits leave one,
is an unquoted argument that has the bracket in it. -/
theorem bracket_first_iff (preferences : LexicalPreferences) (unit : String) {n : Nat}
    {c r : Text} (hc : Text.before? (closer n) (c ++ closer n) = some c) (hr : EndsArgument r)
    {feed : Feed} (hfeed : feed.Delivers (bracket n c ++ r))
    {unitLimit lineLimit maxLength maxCount : Nat}
    (hunit : Text.size (bracket n c ++ r) ≤ unitLimit)
    (hlines : (bracket n c ++ r).FitsLines lineLimit)
    (hlength : Text.size (bracket n c) ≤ maxLength) (hcount : 0 < maxCount) :
    let l := (Lexer.ofDecoder lexicon preferences unit { feed, limit := unitLimit }
      lineLimit).withLimits maxLength maxCount
    (l.next.1 = .valid (.covering .bracketArgument (bracket n c) (withoutBreak c) (.start unit)) ↔
        ¬ IsCaught c r) ∧
      ('"' ∉ c ∨ c.IsBroken ∨ '"' ∉ Text.line r → ¬ IsCaught c r) ∧
      (IsCaught c r → ∀ t, l.next.1 = .valid t → t.terminal = .unquotedArgument ∧
        bracket n c <+: t.text ∧ t.text ≠ bracket n c) := by
  intro l
  obtain ⟨hlocated, live, hshow, hpending, hlocation, -⟩ :=
    Lexer.located_of_delivers lexicon preferences unit maxLength maxCount hfeed hunit hlines
  have hcaught : IsCaught c r → ∀ t, l.next.1 = .valid t → t.terminal = .unquotedArgument ∧
      bracket n c <+: t.text ∧ t.text ≠ bracket n c := by
    intro h t ht
    have hlong := (size_bracket_lt_reach_iff n c hr).2 h
    obtain ⟨i, rule, hm, hrule, hterminal, hprefix⟩ :=
      hlocated.matched_of_valid isStable hshow trivial ht
    have hmatch := longestMatch_bracket hc r
    rw [if_pos hlong, ← hpending] at hmatch
    obtain ⟨rfl, hsize⟩ := Match.matched.inj (hm.symm.trans hmatch)
    obtain rfl := Option.some.inj hrule
    rw [← hpending, ← hsize] at hlong
    rw [hpending] at hprefix
    exact ⟨hterminal.symm,
      Text.prefix_of_size_le (List.prefix_append _ r) hprefix (Nat.le_of_lt hlong),
      fun heq ↦ absurd hlong (by rw [heq]; exact Nat.lt_irrefl _)⟩
  refine ⟨⟨fun h hi ↦ (hcaught hi _ h).2.2 rfl, fun h ↦ ?_⟩, not_isCaught, hcaught⟩
  have hlexeme := lexeme_bracket hc hr h (.start unit)
  rw [← hlexeme, ← hpending, ← hlocation]
  rw [← hpending, ← hlocation] at hlexeme
  refine (hlocated.next_eq_lexeme isStable live hshow ?_ trivial hcount ?_).1
  · rw [hpending]
    simp [bracket, opener]
  · intro _
    have hlexicon : l.lexicon = lexicon := rfl
    have hmaxLength : l.maxLength = maxLength := rfl
    rw [hlexicon, hmaxLength, hlexeme]
    exact hlength

/-- A bracket with a quote in its content and one behind it, but a line break between the two. -/
theorem bracket_first_of_two_lines :
    let c : Text := ['\n', '"', '\n', ']', ']']
    let feed : Feed := .ofBytes (Text.encode (bracket 1 c ++ [' ', '"']))
    let l := Lexer.ofDecoder lexicon {} "u" { feed }
    l.next.1 = .valid
      (.covering .bracketArgument (bracket 1 c) ['"', '\n', ']', ']'] (.start "u")) := by
  intro c feed l
  have hsize : Text.size (bracket 1 c ++ [' ', '"']) ≤ 13 := by decide
  refine (bracket_first_iff {} "u" (n := 1) (c := c) (r := [' ', '"']) (by decide) (by decide)
    (Feed.delivers_ofBytes _) (Nat.le_trans hsize (by decide : 13 ≤ Limits.unitSize))
    (Text.fitsLines_of_size_le (Nat.le_trans hsize (by decide : 13 ≤ Limits.lineLength)))
    (by decide : _ ≤ Limits.tokenLength) (by decide : 0 < Limits.tokenCount)).1.2 ?_
  exact not_isCaught (.inr (.inl ⟨'\n', by decide, rfl⟩))

/-- **A bracket is no token of its own** if a quote in it and one behind it are on one line. -/
theorem bracket_caught :
    let c : Text := ['"']
    let r : Text := [' ', '"']
    let l := Lexer.ofDecoder lexicon {} "u" { feed := .ofBytes (Text.encode (bracket 0 c ++ r)) }
    Text.before? (closer 0) (c ++ closer 0) = some c ∧ r.head? = some ' ' ∧
      l.next.1 = .valid (.covering .unquotedArgument (bracket 0 c ++ r) (bracket 0 c ++ r)
        (.start "u")) := by
  refine ⟨by decide, rfl, ?_⟩
  decide +kernel

end LexFront.CMake
