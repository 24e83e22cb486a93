import LexFront.Proofs.Cpp.Quotes
import LexFront.Proofs.Cpp.SplicedWindows
import LexFront.Proofs.Lexer.Endings

/-!
# Constructs that do not end

A rule asks for more if a construct is open: a comment, a literal between quotes or a raw string
that is not closed in the text at hand. It does so too if a token is complete, and a splice at the
end of the text may hide more of it. At the end of a unit nobody comes with more, and the lexer
calls either of them unterminated.

Key facts:

* `asksForMore_iff`: a rule asks for more exactly if a construct is open or a token is held up.
* `OpensConstruct.not_isHeldUp`: it is never both.
* `unterminated_iff`: an unterminated lexeme is an open construct, unless it is a token held up.
-/

set_option autoImplicit false

namespace LexFront.Cpp

open Lexer (texts)

/-- A text begins with a construct that is not closed in it. -/
inductive OpensConstruct (t : Text) : Prop where
  | comment {rest : Text} : unsplice t = '/' :: '*' :: rest → ¬ ['*', '/'] <:+: rest →
      OpensConstruct t
  | quoted {quote : Char} {e rest : Text} : quote = '\'' ∨ quote = '"' → e = [] ∨ e ∈ encodings →
      unsplice t = e ++ quote :: rest → IsOpen quote rest → OpensConstruct t
  /-- A raw string is closed by what stands in the text, splices included. -/
  | raw {e d content : Text} : e = [] ∨ e ∈ encodings → IsDelimiter d →
      t = e ++ rawOpener d ++ content → unsplice t = e ++ rawOpener d ++ unsplice content →
      ¬ rawCloser d <:+: content → OpensConstruct t

/-- A text is all of a token and a splice behind it, and the token is one that may go on in the next
line. -/
def IsHeldUp (t : Text) : Prop :=
  isOpenEnded (pieces t) = true ∧
    ∃ p ∈ plainRules, p.extendable = true ∧ p.scan (unsplice t) = .matched (Text.size (unsplice t))

instance (t : Text) : Decidable (IsHeldUp t) := inferInstanceAs (Decidable (_ ∧ _))

/-! ### Who asks for more -/

theorem through_eq_needMore_iff {closer t : Text} :
    Scan.through closer t = .needMore ↔ ¬ closer <:+: t := by
  rw [Scan.through]
  constructor
  · rintro h ⟨s, r, rfl⟩
    split at h
    · cases h
    · next hnone => exact Text.before?_ne_none s closer r hnone
  · intro h
    split
    · next inner hsome =>
      obtain ⟨r, hr⟩ := Text.append_of_before? hsome
      exact absurd ⟨inner, r, hr.symm⟩ h
    · rfl

theorem unsplice_append_rawOpener {e d : Text} (he : e = [] ∨ e ∈ encodings) (hd : IsDelimiter d)
    (content : Text) :
    unsplice (e ++ rawOpener d ++ content) = e ++ rawOpener d ++ unsplice content := by
  have hkept : ∀ s : Text, '\\' ∉ s → ∀ r, unsplice (s ++ r) = s ++ unsplice r := by
    intro s hs r
    induction s with
    | nil => rfl
    | cons c s ih =>
      rw [List.mem_cons, not_or] at hs
      rw [List.cons_append, unsplice_cons (Ne.symm hs.1), ih hs.2, List.cons_append]
  refine hkept _ ?_ content
  have hslash : '\\' ∉ d := by
    intro h
    cases hd.1 _ h
  have hencoding : '\\' ∉ e := by
    have hall : ∀ e ∈ encodings, '\\' ∉ e := by decide
    rcases he with rfl | he
    · exact List.not_mem_nil
    · exact hall e he
  simp [rawOpener, hslash, hencoding]

/-- More is asked for behind a quote that is open. -/
theorem scanQuoted_eq_needMore_iff {quote : Char} (hq : quote = '\'' ∨ quote = '"') {t : Text} :
    scanQuoted quote t = .needMore ↔
      ∃ e rest, (e = [] ∨ e ∈ encodings) ∧ t = e ++ quote :: rest ∧ IsOpen quote rest := by
  constructor
  · intro h
    have hne : scanQuoted quote t ≠ .noMatch := by
      rw [h]
      simp
    obtain ⟨e, rest, he, ht, hscan⟩ := scanQuoted_ne_noMatch hne
    exact ⟨e, rest, he, ht, isOpen_iff.2 (after_eq_needMore_iff.1 (hscan.symm.trans h))⟩
  · rintro ⟨e, rest, he, rfl, hopen⟩
    rw [scanQuoted_append_cons (encodingSize_quote hq he rest), if_pos rfl, isOpen_iff.1 hopen]
    rfl

theorem scanBlockComment_eq_needMore_iff {t : Text} : scanBlockComment t = .needMore ↔
    ∃ rest, t = '/' :: '*' :: rest ∧ ¬ ['*', '/'] <:+: rest := by
  constructor
  · intro h
    fun_cases scanBlockComment t with
    | case1 rest =>
      exact ⟨rest, rfl, through_eq_needMore_iff.1 (after_eq_needMore_iff.1 h)⟩
    | case2 _ hne =>
      rw [scanBlockComment] at h
      · cases h
      · exact hne
  · rintro ⟨rest, rfl, h⟩
    rw [scanBlockComment, through_eq_needMore_iff.2 h]
    rfl

theorem opensConstruct_of_plain {t : Text} {p : PlainRule} (hp : p ∈ plainRules)
    (h : p.scan (unsplice t) = .needMore) : OpensConstruct t := by
  simp only [plainRules, List.mem_cons, List.not_mem_nil, or_false] at hp
  rcases hp with rfl | rfl | rfl | rfl | rfl | rfl | rfl | rfl | rfl
  · exact absurd h (scanLineComment_ne_needMore _)
  · obtain ⟨rest, ht, hopen⟩ := scanBlockComment_eq_needMore_iff.1 h
    exact .comment ht hopen
  · exact absurd h (scanKeyword_ne_needMore _)
  · exact absurd h (Scan.ofSize_ne_needMore _)
  · exact absurd h (scanNumeral_ne_needMore false _)
  · exact absurd h (scanNumeral_ne_needMore true _)
  · obtain ⟨e, rest, he, ht, hopen⟩ := (scanQuoted_eq_needMore_iff (.inl rfl)).1 h
    exact .quoted (.inl rfl) he ht hopen
  · obtain ⟨e, rest, he, ht, hopen⟩ := (scanQuoted_eq_needMore_iff (.inr rfl)).1 h
    exact .quoted (.inr rfl) he ht hopen
  · exact absurd h (Scan.ofSize_ne_needMore _)

/-- Where a raw string opens, it asks for more until it is closed. -/
theorem scanString_of_rawOpener {e d : Text} (he : e = [] ∨ e ∈ encodings) (hd : IsDelimiter d)
    (content : Text) : scanString (e ++ rawOpener d ++ content) = .needMore ↔
      ¬ rawCloser d <:+: content := by
  rw [scanString_rawOpener he hd, after_eq_needMore_iff, through_eq_needMore_iff]

/-- What begins with a raw string is no other literal among its characters either. -/
theorem scanQuoted_of_opensRaw {quote : Char} (hq : quote ≠ 'R') {t : Text}
    (h : opensRaw t = true) : scanQuoted quote (unsplice t) = .noMatch := by
  obtain ⟨e, r, he, ht⟩ := unsplice_of_opensRaw h
  rw [ht]
  exact scanQuoted_rawOpener hq he _

/-- Who may ask for more. -/
theorem exists_needMore_iff {t : Text} :
    (∃ k, Lexicon.longestMatch lexicon.rules t = .needMore k) ↔ scanString t = .needMore ∨
      ∃ p ∈ plainRules, p.kind ≠ .stringLiteral ∧
        scanPieces p.extendable p.scan (pieces t) = .needMore := by
  have hrules : (∃ k, Lexicon.longestMatch lexicon.rules t = .needMore k) ↔
      .needMore ∈ lexicon.rules.map (·.scan t) := by
    rw [List.mem_map]
    constructor
    · rintro ⟨k, hk⟩
      obtain ⟨r, hr, hscan⟩ := Lexicon.exists_needMore_of_longestMatch hk
      exact ⟨r, List.mem_of_getElem? hr, hscan⟩
    · rintro ⟨r, hr, hscan⟩
      exact Lexicon.longestMatch_of_needMore hr hscan
  have hwhite : .needMore ≠ scanWhitespace t := (Scan.ofSize_ne_needMore _).symm
  have hnewline : .needMore ≠ scanNewline t := (Scan.ofSize_ne_needMore _).symm
  rw [hrules, map_scan_rules_all, List.mem_cons, List.mem_cons, or_iff_right hwhite,
    or_iff_right hnewline, List.mem_map]
  constructor
  · rintro ⟨p, hp, hscan⟩
    split at hscan
    · exact .inl hscan
    · next hkind => exact .inr ⟨p, hp, hkind, hscan⟩
  · rintro (hscan | ⟨p, hp, hkind, hscan⟩)
    · exact ⟨⟨.stringLiteral, false, startsQuoted '"', scanQuoted '"'⟩, by simp [plainRules], hscan⟩
    · exact ⟨p, hp, by rw [if_neg hkind, hscan]⟩

/-- **When a rule asks for more**: a construct is open, or a token is held up. -/
theorem asksForMore_iff {t : Text} :
    (∃ k, Lexicon.longestMatch lexicon.rules t = .needMore k) ↔ OpensConstruct t ∨ IsHeldUp t := by
  rw [exists_needMore_iff]
  constructor
  · rintro (hscan | ⟨p, hp, -, hscan⟩)
    · refine .inl ?_
      cases hraw : opensRaw t with
      | true =>
        obtain ⟨e, d, he, hd, content, rfl⟩ := opensRaw_iff.1 hraw
        exact .raw he hd rfl (unsplice_append_rawOpener he hd content)
          ((scanString_of_rawOpener he hd content).1 hscan)
      | false =>
        rw [scanString_of_not_opensRaw hraw, scanPieces_eq_needMore_iff] at hscan
        rcases hscan with hscan | ⟨hext, -⟩
        · have hp : ⟨.stringLiteral, false, startsQuoted '"', scanQuoted '"'⟩ ∈ plainRules := by
            simp [plainRules]
          exact opensConstruct_of_plain hp hscan
        · cases hext
    · rcases scanPieces_eq_needMore_iff.1 hscan with hscan | ⟨hext, hopen, hscan⟩
      · exact .inl (opensConstruct_of_plain hp hscan)
      · exact .inr ⟨hopen, p, hp, hext, hscan⟩
  · rintro (hopens | ⟨hopen, p, hp, hext, hscan⟩)
    · cases hopens with
      | comment ht hopen =>
        refine .inr ⟨⟨.blockComment, false, (· == '/'), scanBlockComment⟩, by simp [plainRules],
          by simp, scanPieces_eq_needMore_iff.2 (.inl ?_)⟩
        exact scanBlockComment_eq_needMore_iff.2 ⟨_, ht, hopen⟩
      | @quoted quote e rest hq he ht hopen =>
        have hscan := (scanQuoted_eq_needMore_iff hq).2 ⟨e, rest, he, ht, hopen⟩
        rcases hq with rfl | rfl
        · exact .inr ⟨⟨.characterLiteral, false, startsQuoted '\'', scanQuoted '\''⟩,
            by simp [plainRules], by simp, scanPieces_eq_needMore_iff.2 (.inl hscan)⟩
        · refine .inl ?_
          have hraw : opensRaw t = false := by
            by_contra hraw
            rw [scanQuoted_of_opensRaw (by decide) (by simpa using hraw)] at hscan
            cases hscan
          rw [scanString_of_not_opensRaw hraw]
          exact scanPieces_eq_needMore_iff.2 (.inl hscan)
      | raw he hd ht _ hopen =>
        rw [ht]
        exact .inl ((scanString_of_rawOpener he hd _).2 hopen)
    · have hkind : ∀ p ∈ plainRules, p.extendable = true → p.kind ≠ .stringLiteral := by decide
      exact .inr ⟨p, hp, hkind p hp hext,
        scanPieces_eq_needMore_iff.2 (.inr ⟨hext, hopen, hscan⟩)⟩

/-! ### Open constructs are not held up -/

/-- In front of a quote an extendable match is the encoding at most. -/
theorem scan_quote {quote : Char} (hq : quote = '\'' ∨ quote = '"') {e : Text}
    (he : e = [] ∨ e ∈ encodings) (t : Text) {p : PlainRule} (hp : p ∈ plainRules)
    (hext : p.extendable = true) : p.scan (e ++ quote :: t) = .noMatch ∨
      p.scan (e ++ quote :: t) = .matched (Text.size e) := by
  obtain ⟨c, r, hcons, hslash, hnumeral, hoperator⟩ : ∃ c r, e ++ quote :: t = c :: r ∧
      (c == '/') = false ∧ Numeral.isStart c = false ∧ operatorStarts.contains c = false := by
    simp only [encodings, List.mem_cons, List.not_mem_nil, or_false] at he
    rcases hq with rfl | rfl <;> rcases he with rfl | rfl | rfl | rfl | rfl <;>
      exact ⟨_, _, rfl, by decide, by decide, by decide⟩
  have hnone : p.starts c = false → p.scan (e ++ quote :: t) = .noMatch := by
    intro hs
    rw [hcons]
    exact (plain_of_mem hp).cons c r hs
  have hword : Text.identifier (e ++ quote :: t) = e := by
    simp only [encodings, List.mem_cons, List.not_mem_nil, or_false] at he
    rcases hq with rfl | rfl <;> rcases he with rfl | rfl | rfl | rfl | rfl <;> rfl
  simp only [plainRules, List.mem_cons, List.not_mem_nil, or_false] at hp
  rcases hp with rfl | rfl | rfl | rfl | rfl | rfl | rfl | rfl | rfl
  · exact .inl (hnone hslash)
  · cases hext
  · refine .inl ?_
    simp only [scanKeyword, hword]
    simp only [encodings, List.mem_cons, List.not_mem_nil, or_false] at he
    rcases he with rfl | rfl | rfl | rfl | rfl <;> decide
  · simp only [scanIdentifier, hword, Scan.ofText, Scan.ofSize]
    split
    · exact .inl rfl
    · exact .inr rfl
  · exact .inl (hnone hnumeral)
  · exact .inl (hnone hnumeral)
  · cases hext
  · cases hext
  · exact .inl (hnone hoperator)

/-- In front of a comment an extendable match is the slash at most. -/
theorem scan_blockComment (t : Text) {p : PlainRule} (hp : p ∈ plainRules)
    (hext : p.extendable = true) {n : Nat} (h : p.scan ('/' :: '*' :: t) = .matched n) : n ≤ 1 := by
  have hnone : p.starts '/' = false → n ≤ 1 := by
    intro hs
    rw [(plain_of_mem hp).cons '/' _ hs] at h
    cases h
  simp only [plainRules, List.mem_cons, List.not_mem_nil, or_false] at hp
  rcases hp with rfl | rfl | rfl | rfl | rfl | rfl | rfl | rfl | rfl
  · cases h
  · cases hext
  · exact hnone (by decide)
  · exact hnone (by decide)
  · exact hnone (by decide)
  · exact hnone (by decide)
  · cases hext
  · cases hext
  · obtain ⟨m, hscan, -, hm⟩ := scanOperator_spec ('/' :: '*' :: t)
    obtain rfl : n = m := Scan.eq_of_ofSize (hscan.symm.trans h)
    rcases hm with rfl | ⟨op, hop, hprefix, rfl⟩
    · exact Nat.zero_le 1
    · have hall : ∀ op ∈ operators.map String.toList, Text.size op ≤ 1 ∨
          2 ≤ op.length ∧ op.take 2 ≠ ['/', '*'] := by decide
      refine (hall op hop).resolve_right ?_
      rintro ⟨hlength, hne⟩
      obtain ⟨rest, hrest⟩ := hprefix
      apply hne
      have htake := congrArg (List.take 2) hrest
      rw [List.take_append_of_le_length hlength] at htake
      exact htake

/-- **An open construct is no token that is held up.** -/
theorem OpensConstruct.not_isHeldUp {t : Text} (h : OpensConstruct t) : ¬ IsHeldUp t := by
  rintro ⟨-, p, hp, hext, hscan⟩
  -- An extendable match ends before the text does.
  have hlt : ∀ {s u : Text}, u ≠ [] → unsplice t = s ++ u →
      p.scan (unsplice t) ≠ .matched (Text.size s) := by
    intro s u hu ht hs
    have hpos := Text.size_pos hu
    rw [hscan, Scan.matched.injEq, ht, Text.size_append] at hs
    omega
  have hnone : p.scan (unsplice t) ≠ .noMatch := by simp [hscan]
  cases h with
  | @comment rest ht _ =>
    rw [ht] at hscan
    have hle : 1 + (1 + Text.size rest) ≤ 1 := scan_blockComment rest hp hext hscan
    omega
  | @quoted quote e rest hq he ht _ =>
    have hscans := scan_quote hq he rest hp hext
    rw [← ht] at hscans
    exact hscans.elim hnone (hlt (by simp) ht)
  | @raw e d content he hd _ ht _ =>
    have ht : unsplice t = e ++ 'R' :: '"' :: (d ++ '(' :: unsplice content) := by
      rw [ht]
      simp [rawOpener]
    have hscans := scan_rawOpener he (d ++ '(' :: unsplice content) hp
    rw [← ht] at hscans
    refine hscans.elim hnone (hlt (u := '"' :: (d ++ '(' :: unsplice content)) (by simp) ?_)
    rw [ht]
    simp

/-! ### Runs -/

/-- **What is unterminated.** An unterminated lexeme is all that is left of the input, and a
construct opens with it that is not closed in it, exactly if it is no token that a splice holds
up. -/
theorem unterminated_iff (preferences : LexicalPreferences) (unit : String) (feed : Feed)
    (unitLimit lineLimit maxLength maxCount : Nat) :
    let run := ((Lexer.ofDecoder lexicon preferences unit { feed, limit := unitLimit }
      lineLimit).withLimits maxLength maxCount).lexemes
    ∀ front i back construct, run = front ++ .invalid i :: back →
      i.error = .unterminated construct →
      (OpensConstruct i.text ↔ ¬ IsHeldUp i.text) ∧ texts back = [] := by
  intro run front i back construct hrun hi
  obtain ⟨-, hl, -⟩ := Lexer.ofDecoder_spec lexicon preferences unit { feed, limit := unitLimit }
    lineLimit maxLength maxCount
  obtain ⟨hm, hback⟩ := Lexer.needMore_of_unterminated hl hrun hi
  exact ⟨⟨OpensConstruct.not_isHeldUp, (asksForMore_iff.1 hm).resolve_right⟩, hback⟩

/-- A comment that is open at the end of the unit, and ends in a splice besides. -/
theorem unterminated_comment :
    let t : Text := ['x', '/', '*', 'y', '\\', '\n']
    let run := (Lexer.ofDecoder lexicon {} "u" { feed := .ofBytes (Text.encode t) }).lexemes
    ∃ x i, run = [x, .invalid i] ∧ i.error = .unterminated "block comment" ∧
      OpensConstruct i.text := by
  intro t run
  let x : Token Kind := ⟨.identifier, ['x'], ['x'], ⟨⟨"u", 1, 1⟩, ⟨"u", 1, 2⟩⟩⟩
  let i : InvalidToken := ⟨['/', '*', 'y', '\\', '\n'], ⟨⟨"u", 1, 2⟩, ⟨"u", 2, 1⟩⟩,
    .unterminated "block comment"⟩
  have hrun : run = [.valid x] ++ .invalid i :: [] := by decide +kernel
  exact ⟨.valid x, i, hrun, rfl, (unterminated_iff {} "u" (.ofBytes (Text.encode t)) _ _ _ _ _ i _ _
    hrun rfl).1.2 (by decide)⟩

/-- **A word is held up** by a splice at the end of the unit, and handed out as unterminated. -/
theorem identifier_held_up :
    let t : Text := ['a', '\\', '\n']
    let run := (Lexer.ofDecoder lexicon {} "u" { feed := .ofBytes (Text.encode t) }).lexemes
    ∃ i, run = [.invalid i] ∧ i.error = .unterminated "identifier" ∧ i.text = t ∧
      ¬ OpensConstruct i.text := by
  intro t run
  have hheld : IsHeldUp t := by decide
  exact ⟨⟨t, ⟨⟨"u", 1, 1⟩, ⟨"u", 2, 1⟩⟩, .unterminated "identifier"⟩, by decide +kernel, rfl, rfl,
    fun h ↦ h.not_isHeldUp hheld⟩

end LexFront.Cpp
