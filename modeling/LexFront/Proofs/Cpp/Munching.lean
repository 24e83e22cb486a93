import LexFront.Proofs.Cpp.Overruns
import LexFront.Proofs.Languages
import LexFront.Proofs.Lexer.Windows

/-!
# The tokens of a text without splices

Two texts that differ in their splices have different blanks between their tokens, and stretches
that no rule accounts for may fall into different parts. What the two are compared in is therefore a
summary: the tokens that mean something, whether anything is invalid, and whether a raw string
opens. `munch` works the summary out of a text without splices, one character at a time where
there is no token.

Key facts:

* `munch_token`, `munch_unrecognized`, `munch_unterminated`: what a position contributes.
* `munch_longer`: a token that is longer takes the place of a given one.
* `summary_of_isRead`: a run over a text without splices has the summary of the text.
-/

set_option autoImplicit false

namespace LexFront.Cpp

open Lexer (IsRead Reads texts cut)

/-! ### Characters between tokens -/

theorem isGap_iff {c : Char} : isGap c = true ↔ isBlank c = true ∨ Text.isLineBreak c = true := by
  rw [isGap, Bool.or_eq_true]

theorem scanWhitespace_of_not_isGap {c : Char} {t : Text} (h : IsSpliceFree (c :: t))
    (hc : isGap c = false) : scanWhitespace (c :: t) = .noMatch := by
  rw [isGap, Bool.or_eq_false_iff] at hc
  rw [scanWhitespace, h.blankSize_eq, Text.prefixSize, List.takeWhile_cons, if_neg (by simp [hc.1])]
  rfl

theorem scanNewline_of_not_isGap {c : Char} {t : Text} (hc : isGap c = false) :
    scanNewline (c :: t) = .noMatch := by
  rw [isGap, Bool.or_eq_false_iff] at hc
  have hzero : Text.lineBreakSize (c :: t) = 0 := by
    unfold Text.lineBreakSize
    split <;> simp_all [Text.isLineBreak]
  rw [scanNewline, hzero]
  rfl

theorem blankSize_of_isBlank {c : Char} (hc : isBlank c = true) (t : Text) :
    blankSize (c :: t) = c.utf8Size + blankSize t := by
  rw [blankSize, if_pos hc]
  · rintro r rfl
    cases hc
  · rintro r rfl
    cases hc
  · rintro r rfl
    cases hc

/-- Some rule answers where no token starts. -/
theorem longestMatch_of_isGap {c : Char} (hc : isGap c = true) (t : Text) :
    Lexicon.longestMatch lexicon.rules (c :: t) ≠ .noMatch := by
  rcases isGap_iff.1 hc with hb | hb
  · refine Lexicon.longestMatch_ne_noMatch (r := ⟨.whitespace, scanWhitespace, id⟩)
      (by simp [lexicon]) (fits_scanWhitespace _) ?_
    have hpos := c.utf8Size_pos
    simp only [scanWhitespace, blankSize_of_isBlank hb, Scan.ofSize]
    rw [if_neg (by omega)]
    simp
  · exact keepsBreaks.longestMatch_ne_noMatch hb t

/-- The head of a raw string is no blank, no line break and no slash. -/
theorem head_of_opensRaw {t : Text} (h : opensRaw t = true) :
    ∃ c r, t = c :: r ∧ isGap c = false ∧ c ≠ '/' := by
  obtain ⟨e, d, he, -, r, rfl⟩ := opensRaw_iff.1 h
  simp only [encodings, List.mem_cons, List.not_mem_nil, or_false] at he
  rcases he with rfl | rfl | rfl | rfl | rfl <;> exact ⟨_, _, rfl, by decide, by decide⟩

theorem opensRaw_of_isGap {c : Char} (hc : isGap c = true) (t : Text) :
    opensRaw (c :: t) = false := by
  by_contra h
  obtain ⟨d, r, ht, hd, -⟩ := head_of_opensRaw (by simpa using h)
  rw [(List.cons.inj ht).1, hd] at hc
  cases hc

/-- The rules behind the first two are the plain ones, but for strings. -/
theorem rule_of_getElem?_all (t : Text) {j : Nat} {r : Rule Kind}
    (hr : lexicon.rules[j + 2]? = some r) : ∃ p, plainRules[j]? = some p ∧ r.terminal = p.kind ∧
      r.scan t = if p.kind = .stringLiteral then scanString t
        else scanPieces p.extendable p.scan (pieces t) := by
  have hkind := congrArg (·[j + 2]?) kinds_of_rules
  have hscan := congrArg (·[j + 2]?) (map_scan_rules_all t)
  simp only [List.getElem?_cons_succ, List.getElem?_map, hr, Option.map_some] at hkind hscan
  cases hp : plainRules[j]? with
  | none =>
    rw [hp] at hkind
    cases hkind
  | some p =>
    rw [hp, Option.map_some, Option.some.injEq] at hkind hscan
    exact ⟨p, rfl, hkind, hscan⟩

/-- Where no raw string opens all of them are. -/
theorem rule_of_getElem? {t : Text} (hraw : opensRaw t = false) {j : Nat} {r : Rule Kind}
    (hr : lexicon.rules[j + 2]? = some r) : ∃ p, plainRules[j]? = some p ∧ r.terminal = p.kind ∧
      r.scan t = scanPieces p.extendable p.scan (pieces t) := by
  obtain ⟨p, hp, hkind, hscan⟩ := rule_of_getElem?_all t hr
  refine ⟨p, hp, hkind, hscan.trans ?_⟩
  have hmem := List.mem_of_getElem? hp
  rw [scanString_of_not_opensRaw hraw]
  simp only [plainRules, List.mem_cons, List.not_mem_nil, or_false] at hmem
  rcases hmem with rfl | rfl | rfl | rfl | rfl | rfl | rfl | rfl | rfl <;> rfl

/-- Only the first two rules find something at a blank or a line break. -/
theorem scan_of_isGap {c : Char} (hc : isGap c = true) (t : Text) {j : Nat} {r : Rule Kind}
    (hr : lexicon.rules[j + 2]? = some r) : r.scan (c :: t) = .noMatch := by
  obtain ⟨p, hp, -, hscan⟩ := rule_of_getElem? (opensRaw_of_isGap hc t) hr
  have hp := List.mem_of_getElem? hp
  have hslash : c ≠ '\\' := by
    rintro rfl
    cases hc
  rw [hscan, scanPieces, ← unsplice, unsplice_cons hslash,
    (plain_of_mem hp).cons c _ (starts_of_isGap hp hc)]

theorem longestMatch_ne_needMore_of_isGap {c : Char} (hc : isGap c = true) (t : Text) (i : Nat) :
    Lexicon.longestMatch lexicon.rules (c :: t) ≠ .needMore i := by
  intro h
  obtain ⟨r, hr, hscan⟩ := Lexicon.exists_needMore_of_longestMatch h
  match i, hr with
  | 0, hr =>
    obtain rfl := Option.some.inj hr
    exact Scan.ofSize_ne_needMore _ hscan
  | 1, hr =>
    obtain rfl := Option.some.inj hr
    exact Scan.ofSize_ne_needMore _ hscan
  | j + 2, hr =>
    rw [scan_of_isGap hc t hr] at hscan
    cases hscan

/-! ### The summary of a text -/

/-- What a run over a text comes to. -/
structure Summary where
  /-- The tokens that are no whitespace and no comments. -/
  tokens : List (Kind × Text) := []
  invalid : Bool := false
  /-- A raw string opens where a token starts. -/
  raw : Bool := false

/-- A summary with one more token in front of it. -/
def Summary.token (kind : Kind) (text : Text) (s : Summary) : Summary :=
  if Terminal.isTrivia kind then s else { s with tokens := (kind, text) :: s.tokens }

/-- A summary with something invalid in front of it. -/
def Summary.flagged (s : Summary) : Summary := { s with invalid := true }

/-- The kind of the tokens of a rule, by its place in the lexicon. -/
def kindAt (i : Nat) : Kind := (lexicon.rules[i]?).elim .whitespace (·.terminal)

/-- **The summary of a text without splices.** -/
def munch (t : Text) : Summary :=
  match t with
  | [] => {}
  | c :: rest =>
    if isGap c then munch rest
    else
      match _h : Lexicon.longestMatch lexicon.rules (c :: rest) with
      | .noMatch => (munch rest).flagged
      | .needMore _ => { invalid := true, raw := opensRaw (c :: rest) }
      | .matched i n =>
        let s := (munch (cut n (c :: rest)).2).token (kindAt i) (cut n (c :: rest)).1
        { s with raw := opensRaw (c :: rest) || s.raw }
termination_by t.length
decreasing_by
  · exact Nat.lt_succ_self _
  · exact Nat.lt_succ_self _
  · have hpos := (Lexicon.scan_of_longestMatch_eq_matched _h).2.1
    have hcut := congrArg List.length (Lexer.append_of_cut n (c :: rest))
    have hne := List.length_pos_iff.2 (Lexer.cut_ne_nil hpos (List.cons_ne_nil c rest))
    rw [List.length_append] at hcut
    omega

theorem munch_nil : munch [] = {} := by rw [munch]

theorem munch_of_isGap {c : Char} (hc : isGap c = true) (t : Text) : munch (c :: t) = munch t := by
  rw [munch, if_pos hc]

theorem munch_append_of_isGap {s : Text} (hs : ∀ c ∈ s, isGap c = true) (t : Text) :
    munch (s ++ t) = munch t := by
  induction s with
  | nil => rfl
  | cons c s ih =>
    rw [List.forall_mem_cons] at hs
    rw [List.cons_append, munch_of_isGap hs.1, ih hs.2]

theorem munch_unrecognized {c : Char} {t : Text}
    (h : Lexicon.longestMatch lexicon.rules (c :: t) = .noMatch) :
    munch (c :: t) = (munch t).flagged := by
  have hc : ¬ isGap c = true := fun hc ↦ longestMatch_of_isGap hc t h
  rw [munch, if_neg hc]
  split
  · rfl
  · next _ hm => rw [h] at hm; cases hm
  · next _ _ hm => rw [h] at hm; cases hm

theorem munch_unterminated {t : Text} {i : Nat} (ht : t ≠ [])
    (h : Lexicon.longestMatch lexicon.rules t = .needMore i) :
    munch t = { invalid := true, raw := opensRaw t } := by
  obtain ⟨c, r, rfl⟩ := List.exists_cons_of_ne_nil ht
  have hc : ¬ isGap c = true := fun hc ↦ longestMatch_ne_needMore_of_isGap hc r i h
  rw [munch, if_neg hc]
  split
  · next hm => rw [h] at hm; cases hm
  · rfl
  · next _ _ hm => rw [h] at hm; cases hm

/-- A token that is found contributes itself. -/
theorem munch_token {c : Char} {t text rest : Text} {i : Nat} (hc : isGap c = false)
    (h : Lexicon.longestMatch lexicon.rules (c :: t) = .matched i (Text.size text))
    (ht : c :: t = text ++ rest) : munch (c :: t) =
      { (munch rest).token (kindAt i) text with
        raw := opensRaw (c :: t) || ((munch rest).token (kindAt i) text).raw } := by
  have hcut : cut (Text.size text) (c :: t) = (text, rest) := by rw [ht, Lexer.cut_size_append]
  rw [munch, if_neg (by simp [hc])]
  split
  · next hm => rw [h] at hm; cases hm
  · next _ hm => rw [h] at hm; cases hm
  · next i' n hm =>
    rw [h, Match.matched.injEq] at hm
    obtain ⟨rfl, rfl⟩ := hm
    rw [hcut]

@[simp] theorem raw_token (s : Summary) (kind : Kind) (text : Text) :
    (s.token kind text).raw = s.raw := by
  rw [Summary.token]
  split <;> rfl

theorem tokens_token (s : Summary) (kind : Kind) (text : Text) : (s.token kind text).tokens =
    if Terminal.isTrivia kind then s.tokens else (kind, text) :: s.tokens := by
  rw [Summary.token]
  split <;> rfl

@[simp] theorem invalid_token (s : Summary) (kind : Kind) (text : Text) :
    (s.token kind text).invalid = s.invalid := by
  rw [Summary.token]
  split <;> rfl

theorem opensRaw_append {s : Text} (h : opensRaw s = true) (t : Text) :
    opensRaw (s ++ t) = true := by
  obtain ⟨e, d, he, hd, hp⟩ := opensRaw_iff.1 h
  exact opensRaw_iff.2 ⟨e, d, he, hd, hp.trans (List.prefix_append s t)⟩

theorem opensRaw_eq_false_of_append {s t : Text} (h : opensRaw (s ++ t) = false) :
    opensRaw s = false := by
  by_contra hs
  rw [opensRaw_append (by simpa using hs) t] at h
  cases h

/-- **Where a raw string opens** no less than its opener is found. -/
theorem longestMatch_of_opensRaw {t : Text} (h : opensRaw t = true) :
    Lexicon.longestMatch lexicon.rules t ≠ .noMatch ∧
      ∀ i text rest, Lexicon.longestMatch lexicon.rules t = .matched i (Text.size text) →
        t = text ++ rest → encodingSize t + 1 < Text.size text ∧ opensRaw text = true := by
  obtain ⟨e, d, he, hd, content, rfl⟩ := opensRaw_iff.1 h
  have ht : e ++ rawOpener d ++ content = e ++ 'R' :: '"' :: (d ++ '(' :: content) := by
    simp [rawOpener]
  have hencoding := encodingSize_rawOpener he ('"' :: (d ++ '(' :: content))
  have hopener : e.length + 2 ≤ Text.size (e ++ rawOpener d) := by
    rw [size_rawOpener he]
    simp [rawOpener]
  have hscan := scanString_rawOpener he hd content
  have hr : ⟨.stringLiteral, scanString, decodeString⟩ ∈ lexicon.rules := by simp [lexicon]
  have hfits := fits_of_mem hr (e ++ rawOpener d ++ content)
  refine ⟨Lexicon.longestMatch_ne_noMatch hr hfits ?_, ?_⟩
  · simp only [hscan]
    refine Scan.after_ne_noMatch ?_ _
    rw [Scan.through]
    split <;> simp
  · intro i text rest hm htext
    have hle : Text.size (e ++ rawOpener d) ≤ Text.size text := by
      cases hthrough : Scan.through (rawCloser d) content with
      | noMatch =>
        rw [Scan.through] at hthrough
        split at hthrough <;> cases hthrough
      | needMore =>
        rw [hthrough] at hscan
        refine absurd hscan (Lexicon.ne_needMore_of_longestMatch (fun j hj ↦ ?_) _ hr)
        rw [hm] at hj
        cases hj
      | matched m =>
        rw [hthrough] at hscan
        have := Lexicon.le_of_longestMatch hm hr hscan hfits
        omega
    refine ⟨?_, opensRaw_iff.2 ⟨e, d, he, hd, ?_⟩⟩
    · rw [ht, hencoding]
      omega
    · exact Text.prefix_of_size_le (List.prefix_append _ content) ⟨rest, htext.symm⟩ hle

theorem exists_front_of_longestMatch {t : Text} {i n : Nat}
    (h : Lexicon.longestMatch lexicon.rules t = .matched i n) :
    ∃ text rest, t = text ++ rest ∧ n = Text.size text := by
  obtain ⟨-, -, hb⟩ := Lexicon.scan_of_longestMatch_eq_matched h
  exact Text.isBoundary_iff.1 hb

/-- Where a raw string opens, the summary says so. -/
theorem munch_raw_of_opensRaw {t : Text} (h : opensRaw t = true) : (munch t).raw = true := by
  obtain ⟨c, r, rfl, hc, -⟩ := head_of_opensRaw h
  cases hm : Lexicon.longestMatch lexicon.rules (c :: r) with
  | noMatch => exact absurd hm (longestMatch_of_opensRaw h).1
  | needMore i => rw [munch_unterminated (by simp) hm, h]
  | matched i n =>
    obtain ⟨text, rest, ht, rfl⟩ := exists_front_of_longestMatch hm
    rw [munch_token hc hm ht, h]
    rfl

/-! ### Longer tokens -/

/-- Comments begin with a slash. -/
theorem isTrivia_kindAt {c : Char} {t : Text} (h : IsSpliceFree (c :: t)) (hc : isGap c = false)
    (hslash : c ≠ '/') {i n : Nat}
    (hm : Lexicon.longestMatch lexicon.rules (c :: t) = .matched i n) :
    Terminal.isTrivia (kindAt i) = false := by
  obtain ⟨⟨r, hr, hscan⟩, -, -⟩ := Lexicon.scan_of_longestMatch_eq_matched hm
  have hkind : kindAt i = r.terminal := by rw [kindAt, hr]; rfl
  rw [hkind]
  match i, hr with
  | 0, hr =>
    obtain rfl := Option.some.inj hr
    cases (scanWhitespace_of_not_isGap h hc).symm.trans hscan
  | 1, hr =>
    obtain rfl := Option.some.inj hr
    cases (scanNewline_of_not_isGap (t := t) hc).symm.trans hscan
  | 2, hr =>
    obtain rfl := Option.some.inj hr
    have hnone := scanLineComment_eq_noMatch hslash t
    rw [← plain_scanLineComment.scanSpliced_of_isSpliceFree true h] at hnone
    cases hnone.symm.trans hscan
  | 3, hr =>
    obtain rfl := Option.some.inj hr
    have hnone := scanBlockComment_eq_noMatch hslash t
    rw [← plain_scanBlockComment.scanSpliced_of_isSpliceFree false h] at hnone
    cases hnone.symm.trans hscan
  | 4, hr | 5, hr | 6, hr | 7, hr | 8, hr | 9, hr | 10, hr =>
    obtain rfl := Option.some.inj hr
    rfl
  | j + 11, hr => cases hr

/-- **A longer token takes the place** of one that is not as long as what some rule finds. -/
theorem munch_longer {c : Char} {t : Text} (h : IsSpliceFree (c :: t)) (hc : isGap c = false)
    (hslash : c ≠ '/') {k : Nat} (hne : Lexicon.longestMatch lexicon.rules (c :: t) ≠ .noMatch)
    (hlonger : ∀ i n, Lexicon.longestMatch lexicon.rules (c :: t) = .matched i n → k < n)
    {kind : Kind} {text : Text} (htext : Text.size text ≤ k) (rest : List (Kind × Text)) :
    (munch (c :: t)).tokens ≠ (kind, text) :: rest := by
  cases hm : Lexicon.longestMatch lexicon.rules (c :: t) with
  | noMatch => exact absurd hm hne
  | needMore i =>
    rw [munch_unterminated (by simp) hm]
    simp
  | matched i n =>
    obtain ⟨text', rest', ht, rfl⟩ := exists_front_of_longestMatch hm
    have hlt := hlonger i _ hm
    rw [munch_token hc hm ht, Summary.token, if_neg (by simp [isTrivia_kindAt h hc hslash hm])]
    intro heq
    obtain ⟨hhead, -⟩ := List.cons.inj heq
    rw [Prod.mk.injEq] at hhead
    rw [hhead.2] at hlt
    omega

/-! ### The summary of a run -/

/-- A token that is no whitespace and no comment, without its splices. -/
def significant? : Lexeme Kind → Option (Kind × Text)
  | .valid x => if x.isTrivia then none else some (x.terminal, unsplice x.text)
  | _ => none

/-- The tokens of a run that mean something. -/
def significant (xs : List (Lexeme Kind)) : List (Kind × Text) := xs.filterMap significant?

theorem significant_valid (x : Token Kind) (xs : List (Lexeme Kind)) :
    significant (.valid x :: xs) =
      if x.isTrivia then significant xs else (x.terminal, unsplice x.text) :: significant xs := by
  cases hx : x.isTrivia <;> simp [significant, significant?, hx]

/-- What a run comes to. -/
def summaryOf (xs : List (Lexeme Kind)) : Summary where
  tokens := significant xs
  invalid := xs.any Lexeme.isInvalid
  raw := xs.any fun x ↦ opensRaw x.text

theorem summaryOf_invalid (i : InvalidToken) (xs : List (Lexeme Kind)) :
    summaryOf (.invalid i :: xs) =
      { (summaryOf xs).flagged with raw := opensRaw i.text || (summaryOf xs).raw } := rfl

theorem summaryOf_valid (x : Token Kind) (xs : List (Lexeme Kind)) :
    summaryOf (.valid x :: xs) =
      { (summaryOf xs).token x.terminal (unsplice x.text) with
        raw := opensRaw x.text || (summaryOf xs).raw } := by
  have hinvalid : (Lexeme.valid x :: xs).any Lexeme.isInvalid = xs.any Lexeme.isInvalid := rfl
  rw [summaryOf, significant_valid, hinvalid, Summary.token, Token.isTrivia]
  cases Terminal.isTrivia x.terminal <;> rfl

theorem IsSpliceFree.unsplice_eq {t : Text} (h : IsSpliceFree t) : unsplice t = t := by
  rw [unsplice, h.pieces_eq, keptText_map_kept]

/-- A stretch that no rule accounts for contributes that it is there. -/
theorem munch_append_unrecognized {front back : Text} (hne : front ≠ [])
    (h : ∀ p q, front = p ++ q → q ≠ [] →
      Lexicon.longestMatch lexicon.rules (q ++ back) = .noMatch) :
    munch (front ++ back) = (munch back).flagged := by
  induction front with
  | nil => exact absurd rfl hne
  | cons c front ih =>
    have hm : Lexicon.longestMatch lexicon.rules (c :: (front ++ back)) = .noMatch :=
      h [] (c :: front) rfl (by simp)
    rw [List.cons_append, munch_unrecognized hm]
    by_cases hf : front = []
    · rw [hf, List.nil_append]
    · rw [ih hf fun p q hpq hq ↦ h (c :: p) q (by rw [hpq]; rfl) hq]
      rfl

/-- Blanks and splices are some pieces of their text. -/
theorem blankSize_pieces (t : Text) : ∃ ps qs, pieces t = ps ++ qs ∧
    blankSize t = Text.size (writtenText ps) ∧ ∀ c ∈ keptText ps, isBlank c = true := by
  fun_induction blankSize t with
  | case1 rest ih =>
    obtain ⟨ps, qs, hps, hsize, hblank⟩ := ih
    refine ⟨.splice ['\r', '\n'] :: ps, qs, by rw [pieces, hps]; rfl, ?_, hblank⟩
    rw [hsize, writtenText_cons, Text.size_append]
    rfl
  | case2 rest hne ih =>
    obtain ⟨ps, qs, hps, hsize, hblank⟩ := ih
    refine ⟨.splice ['\r'] :: ps, qs, by rw [pieces, hps]; rfl; exact hne, ?_, hblank⟩
    rw [hsize, writtenText_cons, Text.size_append]
    rfl
  | case3 rest ih =>
    obtain ⟨ps, qs, hps, hsize, hblank⟩ := ih
    refine ⟨.splice ['\n'] :: ps, qs, by rw [pieces, hps]; rfl, ?_, hblank⟩
    rw [hsize, writtenText_cons, Text.size_append]
    rfl
  | case4 c rest h₁ h₂ h₃ hc ih =>
    obtain ⟨ps, qs, hps, hsize, hblank⟩ := ih
    refine ⟨.kept c :: ps, qs, ?_, ?_, List.forall_mem_cons.2 ⟨hc, hblank⟩⟩
    · rw [pieces_cons_of_kept (head?_of_kept h₁ h₂ h₃), hps]
      rfl
    · rw [hsize, writtenText_cons, Text.size_append]
      rfl
  | case5 c rest _ _ _ _ => exact ⟨[], _, rfl, rfl, by simp⟩
  | case6 => exact ⟨[], [], rfl, rfl, by simp⟩

/-- A match of the first rule is made of blanks and splices. -/
theorem scanWhitespace_spec {text rest : Text}
    (h : scanWhitespace (text ++ rest) = .matched (Text.size text)) :
    unsplice (text ++ rest) = unsplice text ++ unsplice rest ∧
      ∀ c ∈ unsplice text, isGap c = true := by
  obtain ⟨ps, qs, hps, hsize, hblank⟩ := blankSize_pieces (text ++ rest)
  obtain ⟨ht, hfront, hback⟩ := pieces_split hps
  have hn : Text.size text = Text.size (writtenText ps) := by
    rw [scanWhitespace, hsize] at h
    exact Scan.eq_of_ofSize h
  obtain ⟨rfl, rfl⟩ := Text.append_inj_of_size ht hn
  refine ⟨?_, fun c hc ↦ isGap_iff.2 (.inl (hblank c ?_))⟩
  · rw [unsplice, hps, unsplice, unsplice, hfront, hback, unsplice_append_pieces]
  · rwa [unsplice, hfront] at hc

/-- A match of the second rule is a line break. -/
theorem scanNewline_spec {text rest : Text}
    (h : scanNewline (text ++ rest) = .matched (Text.size text)) :
    unsplice (text ++ rest) = unsplice text ++ unsplice rest ∧
      ∀ c ∈ unsplice text, isGap c = true := by
  have hbreak : ∃ s ∈ [['\r', '\n'], ['\r'], ['\n']], ∃ r, text ++ rest = s ++ r ∧
      Text.size text = Text.size s := by
    rw [scanNewline, Scan.ofSize] at h
    split at h
    · cases h
    · next hne =>
      have hn := (Scan.matched.inj h).symm
      unfold Text.lineBreakSize at hn hne
      split at hn
      · next r ht => exact ⟨['\r', '\n'], by simp, r, ht, hn⟩
      · next r _ ht => exact ⟨['\r'], by simp, r, ht, hn⟩
      · next r ht => exact ⟨['\n'], by simp, r, ht, hn⟩
      · simp at hne
  obtain ⟨s, hs, r, ht, hn⟩ := hbreak
  obtain ⟨rfl, rfl⟩ := Text.append_inj_of_size ht hn
  simp only [List.mem_cons, List.not_mem_nil, or_false] at hs
  rcases hs with rfl | rfl | rfl <;> simp [unsplice_cons, isGap, Text.isLineBreak]

/-- **A match of the first two rules contributes nothing.** -/
theorem gap_of_rule {text rest : Text} {i : Nat} {r : Rule Kind} (hi : i < 2)
    (hr : lexicon.rules[i]? = some r) (h : r.scan (text ++ rest) = .matched (Text.size text)) :
    unsplice (text ++ rest) = unsplice text ++ unsplice rest ∧
      (∀ c ∈ unsplice text, isGap c = true) ∧ Terminal.isTrivia r.terminal = true := by
  match i, hi, hr with
  | 0, _, hr =>
    obtain rfl := Option.some.inj hr
    obtain ⟨happend, hgap⟩ := scanWhitespace_spec h
    exact ⟨happend, hgap, rfl⟩
  | 1, _, hr =>
    obtain rfl := Option.some.inj hr
    obtain ⟨happend, hgap⟩ := scanNewline_spec h
    exact ⟨happend, hgap, rfl⟩

/-- A stretch in front of a text that no rule accounts for. -/
theorem munch_of_gap {t text rest : Text} (hne : t ≠ [])
    (hm : Lexicon.longestMatch lexicon.rules t = .noMatch) (ht : t = text ++ rest)
    (hn : Lexicon.unrecognizedSize lexicon.rules t = Text.size text) :
    munch t = (munch rest).flagged ∧ opensRaw text = false := by
  obtain ⟨front, back, hfront, hsize, hf, hinside, -⟩ :=
    Lexicon.unrecognizedSize_spec lexicon.rules hm hne
  obtain ⟨rfl, rfl⟩ := Text.append_inj_of_size (ht.symm.trans hfront) (hn.symm.trans hsize)
  refine ⟨?_, ?_⟩
  · rw [ht, munch_append_unrecognized hf hinside]
  · by_contra hraw
    have hopens := opensRaw_append (by simpa using hraw) rest
    rw [← ht] at hopens
    exact (longestMatch_of_opensRaw hopens).1 hm

/-- A token in front of a text, trivial or not. -/
theorem munch_of_token {t rest : Text} {x : Token Kind} {i : Nat} {r : Rule Kind}
    (hfree : IsSpliceFree t) (hne : t ≠ [])
    (hm : Lexicon.longestMatch lexicon.rules t = .matched i (Text.size x.text))
    (ht : t = x.text ++ rest) (hr : lexicon.rules[i]? = some r)
    (hterminal : x.terminal = r.terminal) : munch t =
      { (munch rest).token x.terminal (unsplice x.text) with
        raw := opensRaw x.text || (munch rest).raw } := by
  have hkind : kindAt i = x.terminal := by
    rw [kindAt, hr, hterminal]
    rfl
  have htextfree : IsSpliceFree x.text := hfree.of_infix ⟨[], rest, by rw [ht]; rfl⟩
  obtain ⟨⟨r', hr', hscan⟩, -, -⟩ := Lexicon.scan_of_longestMatch_eq_matched hm
  obtain rfl : r = r' := Option.some.inj (hr.symm.trans hr')
  obtain ⟨c, t, rfl⟩ := List.exists_cons_of_ne_nil hne
  rw [htextfree.unsplice_eq]
  cases hc : isGap c with
  | true =>
    have hi : i < 2 := by
      by_contra hi
      obtain ⟨j, rfl⟩ := Nat.exists_eq_add_of_le' (Nat.not_lt.1 hi)
      rw [scan_of_isGap hc t hr] at hscan
      cases hscan
    rw [ht] at hscan
    obtain ⟨-, hgap, htrivia⟩ := gap_of_rule hi hr hscan
    rw [htextfree.unsplice_eq] at hgap
    have hraw : opensRaw x.text = false := by
      cases ht : x.text with
      | nil => rfl
      | cons d s => exact opensRaw_of_isGap (hgap d (by rw [ht]; exact List.mem_cons_self)) s
    rw [ht, munch_append_of_isGap hgap, Summary.token, hterminal, if_pos htrivia, hraw]
    rfl
  | false =>
    have hraw : opensRaw x.text = opensRaw (c :: t) := by
      rw [Bool.eq_iff_iff]
      constructor
      · intro h
        rw [ht]
        exact opensRaw_append h rest
      · exact fun h ↦ ((longestMatch_of_opensRaw h).2 i x.text rest hm ht).2
    rw [munch_token hc hm ht, hkind, hraw, raw_token]

/-- **A run over a text without splices has the summary of the text.** -/
theorem summary_of_isRead {t : Text} {xs : List (Lexeme Kind)} (h : IsRead lexicon.rules t xs)
    (hfree : IsSpliceFree t) : summaryOf xs = munch t := by
  induction h with
  | nil => rw [munch_nil]; rfl
  | @cons t w v rest x xs ht hw hwindow hreads hx _ ih =>
    have hrest := ih (hfree.of_infix (hx ▸ List.suffix_append x.text rest).isInfix)
    subst ht
    have hwhole := hreads.whole isStable hfree hw hwindow
    have hne : w ++ v ≠ [] := by simp [hw]
    generalize w ++ v = t at hwhole hx hfree hne
    cases hwhole with
    | @gap i back hm htext hn =>
      have hx : t = i.text ++ rest := hx
      obtain ⟨hmunch, hraw⟩ := munch_of_gap hne hm hx hn
      rw [summaryOf_invalid, hraw, Bool.false_or, hrest, hmunch]
      rfl
    | @unterminated i k hm _ hi =>
      have hnil : rest = [] := by
        rw [Lexeme.text, hi] at hx
        exact List.append_cancel_left (hx.symm.trans (List.append_nil t).symm)
      subst hnil
      rw [summaryOf_invalid, hrest, munch_unterminated hne hm, munch_nil, hi]
      simp [Summary.flagged]
    | @token x i r back hm htext hr hterminal =>
      rw [summaryOf_valid, hrest, munch_of_token hfree hne hm hx hr hterminal]

end LexFront.Cpp
