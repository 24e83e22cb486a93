import LexFront.Proofs.Cpp.Munching

/-!
# Windows of a spliced text

What the rules of C++ find in a window of a spliced text, compared with what they find in the
characters of all of the text. The characters of the window are a front of those; the two agree
unless the token found in the window has been cut short, or the characters begin a raw string that
the text itself does not have.

Key facts:

* `settled_of_isWindow`: unless more is asked for, a window has all that its rules look at.
* `longestMatch_chars`: in a text without splices and raw strings only plain rules find tokens.
* `mirrors_of_reads`: a lexeme of the text is the first one of its characters, or has gone astray.
-/

set_option autoImplicit false

namespace LexFront.Cpp

open Lexer (Reads texts)

/-! ### A window and its characters -/

theorem joint_of_isWindow {w v : Text} (h : Lexicon.IsWindow w v) : Joint w v where
  splice hlast b hb := by
    have hv : v ≠ [] := by
      rintro rfl
      cases hb
    obtain ⟨c, hc, hbreak⟩ := h.closed hv
    rw [hlast] at hc
    obtain rfl := Option.some.inj hc
    cases hbreak
  seam := h.seam

theorem needMore_of_scan {p : PlainRule} {ps : List Piece} (h : p.scan (keptText ps) = .needMore) :
    scanPieces p.extendable p.scan ps = .needMore := scanPieces_eq_needMore_iff.2 (.inl h)

theorem scan_of_needMore {p : PlainRule} {ps : List Piece} (hopen : isOpenEnded ps = false)
    (h : scanPieces p.extendable p.scan ps = .needMore) : p.scan (keptText ps) = .needMore :=
  (scanPieces_eq_needMore_iff.1 h).resolve_right fun h ↦ by simp [hopen] at h

theorem scanPieces_eq_noMatch_iff {p : PlainRule} {ps : List Piece} :
    scanPieces p.extendable p.scan ps = .noMatch ↔ p.scan (keptText ps) = .noMatch := by
  rw [scanPieces]
  cases p.scan (keptText ps) with
  | noMatch => simp
  | needMore => simp
  | matched n =>
    simp only
    split <;> simp

/-- **A window has all that its rules look at**, unless one of them asks for more. -/
theorem settled_of_isWindow {w v : Text} (hwindow : Lexicon.IsWindow w v) (hv : v ≠ [])
    (hk : unsplice w ≠ [])
    (h : ∀ p ∈ plainRules, scanPieces p.extendable p.scan (pieces w) ≠ .needMore) :
    Settled (unsplice w) where
  ne_nil := hk
  closed p hp hm := h p hp (needMore_of_scan hm)
  inside p hp he hm := by
    by_cases hopen : isOpenEnded (pieces w) = true
    · refine h p hp ?_
      rw [scanPieces, ← unsplice, hm]
      simp [he, hopen]
    · -- The window ends with a line break that is no part of a splice, and a match stops there.
      obtain ⟨b, hb, hbreak⟩ := hwindow.closed hv
      have hmem : b ∈ unsplice w := by
        obtain ⟨ps, q, hps⟩ := List.eq_nil_or_concat (pieces w) |>.resolve_left fun hnil ↦
          hk (by rw [unsplice, hnil]; rfl)
        have hlast : (writtenText (pieces w)).getLast? = some b := by rw [writtenText_pieces, hb]
        rw [hps, List.concat_eq_append] at hlast hopen
        cases q with
        | splice s =>
          rw [isOpenEnded, List.getLast?_append_of_ne_nil _ (by simp)] at hopen
          exact absurd rfl hopen
        | kept c =>
          rw [writtenText_append, Text.getLast?_append_of_ne_nil _ (by simp [Piece.text])] at hlast
          obtain rfl : c = b := Option.some.inj hlast
          rw [unsplice, hps, List.concat_eq_append, unsplice_append_pieces]
          simp
      exact absurd ((isWithinLine_of_extendable hp he _).size_lt ⟨b, hmem, hbreak⟩ hm)
        (Nat.lt_irrefl _)

theorem forall_scan_rules {t : Text} (hraw : opensRaw t = false) {P : Scan → Prop} :
    (∀ r ∈ lexicon.rules, P (r.scan t)) ↔ P (scanWhitespace t) ∧ P (scanNewline t) ∧
      ∀ p ∈ plainRules, P (scanPieces p.extendable p.scan (pieces t)) := by
  rw [← List.forall_mem_map (f := fun r : Rule Kind ↦ r.scan t) (P := P), map_scan_rules hraw,
    List.forall_mem_cons, List.forall_mem_cons, List.forall_mem_map]

/-- **In a text without splices, where no raw string opens**, only plain rules find tokens. -/
theorem longestMatch_chars {c : Char} {t : Text} (hfree : IsSpliceFree (c :: t))
    (hc : isGap c = false) (hraw : opensRaw (c :: t) = false)
    (h : ∀ p ∈ plainRules, p.scan (c :: t) ≠ .needMore) :
    Lexicon.longestMatch lexicon.rules (c :: t) =
      (plainMatch (c :: t)).elim .noMatch fun r ↦ .matched r.1 r.2 := by
  have hplain : plainRules.map (fun p ↦ scanPieces p.extendable p.scan (pieces (c :: t))) =
      plainRules.map (·.scan (c :: t)) :=
    List.map_congr_left fun p hp ↦ hfree.scanPieces_eq hp
  have hneed : ∀ r ∈ lexicon.rules, r.scan (c :: t) ≠ .needMore := by
    rw [forall_scan_rules (P := (· ≠ .needMore)) hraw]
    refine ⟨Scan.ofSize_ne_needMore _, Scan.ofSize_ne_needMore _, fun p hp ↦ ?_⟩
    rw [hfree.scanPieces_eq hp]
    exact h p hp
  rw [Lexicon.longestMatch_eq_longest hneed, map_scan_rules hraw, hplain,
    scanWhitespace_of_not_isGap hfree hc, scanNewline_of_not_isGap hc]
  rfl

/-- What the lexer finds in a window, if it is not one of the first two rules that finds it. -/
theorem plainMatch_of_longestMatch {w : Text} (hraw : opensRaw w = false) {i n : Nat} (hi : 2 ≤ i)
    (hm : Lexicon.longestMatch lexicon.rules w = .matched i n) :
    ∃ m, plainMatch (unsplice w) = some (i, m) ∧ n = writtenSize m (pieces w) := by
  have hneed : ∀ r ∈ lexicon.rules, r.scan w ≠ .needMore :=
    Lexicon.ne_needMore_of_longestMatch (by simp [hm])
  have hplain := ((forall_scan_rules (P := (· ≠ .needMore)) hraw).1 hneed).2.2
  rw [Lexicon.longestMatch_eq_longest hneed] at hm
  cases hl : Lexicon.longest w 0 (lexicon.rules.map (·.scan w)) with
  | none =>
    rw [hl] at hm
    cases hm
  | some r =>
    rw [hl, Option.elim_some, Match.matched.injEq] at hm
    obtain ⟨rfl, rfl⟩ := hm
    rw [map_scan_rules hraw, Lexicon.longest, Lexicon.longest] at hl
    have hl := Lexicon.of_better (Lexicon.of_better hl (by omega)) (by omega)
    rw [plainMatch_window hplain, Option.map_eq_some_iff] at hl
    obtain ⟨⟨i, m⟩, hfound, heq⟩ := hl
    rw [Prod.mk.injEq] at heq
    exact ⟨m, heq.1 ▸ hfound, heq.2.symm⟩

/-- What is found nowhere is found by no rule. -/
theorem scan_eq_noMatch {t : Text} (h : Lexicon.longestMatch lexicon.rules t = .noMatch) :
    ∀ r ∈ lexicon.rules, r.scan t = .noMatch := by
  intro r hr
  by_contra hscan
  exact Lexicon.longestMatch_ne_noMatch hr (fits_of_mem hr t) hscan h

theorem Overruns.exists_match {k v : Text} (h : Overruns k v) :
    ∃ p ∈ plainRules, p.scan k ≠ .noMatch := by
  cases h with
  | points hk _ =>
    subst hk
    exact ⟨_, operator_mem_plainRules, by decide⟩
  | digraphs hk _ =>
    subst hk
    exact ⟨_, operator_mem_plainRules, by decide⟩
  | numeral hs _ =>
    obtain ⟨p, hp, hscan⟩ := exists_numeral_of_starts hs
    exact ⟨p, hp, by simp [hscan]⟩

/-! ### Where a raw string opens among the characters -/

theorem identifier_rawOpener {e : Text} (he : e = [] ∨ e ∈ encodings) (t : Text) :
    Text.identifier (e ++ 'R' :: '"' :: t) = e ++ ['R'] := by
  simp only [encodings, List.mem_cons, List.not_mem_nil, or_false] at he
  rcases he with rfl | rfl | rfl | rfl | rfl <;> rfl

/-- In front of a raw string the plain rules find the word that ends before its quote. -/
theorem scan_rawOpener {e : Text} (he : e = [] ∨ e ∈ encodings) (t : Text) {p : PlainRule}
    (hp : p ∈ plainRules) : p.scan (e ++ 'R' :: '"' :: t) = .noMatch ∨
      p.scan (e ++ 'R' :: '"' :: t) = .matched (Text.size (e ++ ['R'])) := by
  obtain ⟨c, r, hcons, hslash, hnumeral, hoperator⟩ : ∃ c r, e ++ 'R' :: '"' :: t = c :: r ∧
      (c == '/') = false ∧ Numeral.isStart c = false ∧ operatorStarts.contains c = false := by
    simp only [encodings, List.mem_cons, List.not_mem_nil, or_false] at he
    rcases he with rfl | rfl | rfl | rfl | rfl <;>
      exact ⟨_, _, rfl, by decide, by decide, by decide⟩
  have hnone : p.starts c = false → p.scan (e ++ 'R' :: '"' :: t) = .noMatch := by
    intro hs
    rw [hcons]
    exact (plain_of_mem hp).cons c r hs
  simp only [plainRules, List.mem_cons, List.not_mem_nil, or_false] at hp
  rcases hp with rfl | rfl | rfl | rfl | rfl | rfl | rfl | rfl | rfl
  · exact .inl (hnone hslash)
  · exact .inl (hnone hslash)
  · refine .inl ?_
    simp only [scanKeyword, identifier_rawOpener he]
    simp only [encodings, List.mem_cons, List.not_mem_nil, or_false] at he
    rcases he with rfl | rfl | rfl | rfl | rfl <;> decide
  · refine .inr ?_
    simp only [scanIdentifier, identifier_rawOpener he, Scan.ofText, Scan.ofSize]
    exact if_neg (Nat.ne_of_gt (Text.size_pos (by simp)))
  · exact .inl (hnone hnumeral)
  · exact .inl (hnone hnumeral)
  · exact .inl (scanQuoted_rawOpener (by decide) he _)
  · exact .inl (scanQuoted_rawOpener (by decide) he _)
  · exact .inl (hnone hoperator)

/-- The same for the first characters of a raw string, before it is seen to be one. -/
theorem scan_rawOpener_prefix : ∀ e ∈ [] :: encodings, ∀ k ∈ (e ++ ['R', '"']).inits, k ≠ [] →
    scanIdentifier k ≠ .noMatch ∧ ∀ p ∈ plainRules, p.scan k = .noMatch ∨
      ∃ n ∈ List.range (e.length + 2), p.scan k = .matched n := by
  decide +kernel

/-- **Where a raw string opens among the characters** a window that ends inside it holds a word at
most, and nothing that is not closed. -/
theorem plain_of_opensRaw {k r : Text} (h : opensRaw (k ++ r) = true) (hk : k ≠ []) :
    scanIdentifier k ≠ .noMatch ∧ ∀ p ∈ plainRules, p.scan k ≠ .needMore ∧
      ∀ n, p.scan k = .matched n → n ≤ encodingSize (k ++ r) + 1 := by
  obtain ⟨e, d, he, -, content, ht⟩ := opensRaw_iff.1 h
  have hsize : encodingSize (k ++ r) = e.length := by
    rw [← ht]
    simpa [rawOpener] using encodingSize_rawOpener he ('"' :: (d ++ '(' :: content))
  have hopener : e ++ ['R', '"'] <+: k ++ r := ⟨d ++ '(' :: content, by rw [← ht]; simp [rawOpener]⟩
  rw [hsize]
  rcases List.prefix_or_prefix_of_prefix hopener (List.prefix_append k r) with ⟨t, rfl⟩ | hfront
  · have ht : e ++ ['R', '"'] ++ t = e ++ 'R' :: '"' :: t := by simp
    have hword : Text.size (e ++ ['R']) = e.length + 1 := by
      rw [Text.size_append, size_of_encoding he]
      rfl
    rw [ht]
    refine ⟨?_, fun p hp ↦ ?_⟩
    · simp only [scanIdentifier, identifier_rawOpener he, Scan.ofText, Scan.ofSize, hword]
      simp
    · rcases scan_rawOpener he t hp with hs | hs <;> rw [hs]
      · simp
      · refine ⟨by simp, fun n hn ↦ ?_⟩
        rw [← Scan.matched.inj hn, hword]
  · obtain ⟨hword, hall⟩ := scan_rawOpener_prefix e (List.mem_cons.2 he) k
      ((List.mem_inits _ _).2 hfront) hk
    refine ⟨hword, fun p hp ↦ ?_⟩
    rcases hall p hp with hs | ⟨m, hm, hs⟩ <;> rw [hs]
    · simp
    · refine ⟨by simp, fun n hn ↦ ?_⟩
      rw [← Scan.matched.inj hn]
      have := List.mem_range.1 hm
      omega

/-! ### Unrecognized stretches -/

theorem scanWhitespace_of_splice {c b : Char} {t : Text} (hc : c = '\\') (hb : t.head? = some b)
    (hbreak : Text.isLineBreak b = true) : scanWhitespace (c :: t) ≠ .noMatch := by
  obtain ⟨t, rfl⟩ := List.head?_eq_some_iff.1 hb
  have hsize : blankSize (c :: b :: t) ≠ 0 := by
    rw [hc]
    rcases Text.isLineBreak_iff.1 hbreak with rfl | rfl
    · simp [blankSize]
    · by_cases ht : ∃ r, t = '\n' :: r
      · obtain ⟨r, rfl⟩ := ht
        simp [blankSize]
      · rw [blankSize]
        · omega
        · exact fun r hr ↦ ht ⟨r, hr⟩
  rw [scanWhitespace, Scan.ofSize, if_neg hsize]
  simp

/-- What no rule accounts for is no blank and no line break, and it is no splice, for the first rule
would find that. -/
theorem head_of_noMatch {c : Char} {t : Text}
    (h : Lexicon.longestMatch lexicon.rules (c :: t) = .noMatch) :
    isGap c = false ∧ (c = '\\' → ∀ b, t.head? = some b → Text.isLineBreak b = false) := by
  refine ⟨?_, fun hc b hb ↦ ?_⟩
  · by_contra hgap
    exact longestMatch_of_isGap (by simpa using hgap) t h
  · by_contra hbreak
    exact scanWhitespace_of_splice hc hb (by simpa using hbreak)
      (scan_eq_noMatch h ⟨.whitespace, scanWhitespace, id⟩ (by simp [lexicon]))

/-- **A character that no rule accounts for in a window** is one of the characters, and no rule
accounts for it there. -/
theorem unrecognized_of_window {c : Char} {w v : Text}
    (hfree : IsSpliceFree (unsplice (c :: w ++ v))) (hwindow : Lexicon.IsWindow (c :: w) v)
    (hraw : ¬ HasRawOpener (c :: w))
    (hm : Lexicon.longestMatch lexicon.rules (c :: w) = .noMatch) :
    unsplice (c :: w ++ v) = c :: unsplice (w ++ v) ∧
      Lexicon.longestMatch lexicon.rules (c :: unsplice (w ++ v)) = .noMatch := by
  have hraw : opensRaw (c :: w) = false := opensRaw_of_not_hasRawOpener hraw
  obtain ⟨-, -, hplain⟩ :=
    (forall_scan_rules (P := (· = .noMatch)) hraw).1 (scan_eq_noMatch hm)
  obtain ⟨hgap, hkept⟩ := head_of_noMatch hm
  have hpieces : pieces (c :: w) = .kept c :: pieces w := pieces_cons_of_kept hkept
  have hchars : unsplice (c :: w) = c :: unsplice w := by rw [unsplice, hpieces]; rfl
  have hjoint : Joint w v := (joint_of_isWindow hwindow).suffix (r := [c])
  have happend : unsplice (c :: w ++ v) = c :: unsplice (w ++ v) := by
    rw [unsplice_append (joint_of_isWindow hwindow), hchars, unsplice_append hjoint,
      List.cons_append]
  have hnone : ∀ p ∈ plainRules, p.scan (unsplice (c :: w)) = .noMatch :=
    fun p hp ↦ scanPieces_eq_noMatch_iff.1 (hplain p hp)
  have hsettled : Settled (unsplice (c :: w)) := by
    refine ⟨by rw [hchars]; simp, fun p hp ↦ ?_, fun p hp _ ↦ ?_⟩ <;> simp [hnone p hp]
  have hover : ¬ Overruns (unsplice (c :: w)) (unsplice v) := by
    intro h
    obtain ⟨p, hp, hne⟩ := h.exists_match
    exact hne (hnone p hp)
  have hscan : ∀ p ∈ plainRules, p.scan (c :: unsplice (w ++ v)) = .noMatch := by
    intro p hp
    rw [← happend, unsplice_append (joint_of_isWindow hwindow), hsettled.scan_append hover p hp,
      hnone p hp]
  refine ⟨happend, ?_⟩
  have hopen : opensRaw (c :: unsplice (w ++ v)) = false := by
    by_contra h
    have h : opensRaw (unsplice (c :: w) ++ unsplice v) = true := by
      rw [← unsplice_append (joint_of_isWindow hwindow), happend]
      simpa using h
    exact (plain_of_opensRaw h hsettled.ne_nil).1
      (hnone _ identifier_mem_plainRules)
  have hneed : ∀ p ∈ plainRules, p.scan (c :: unsplice (w ++ v)) ≠ .needMore := fun p hp ↦ by
    simp [hscan p hp]
  rw [longestMatch_chars (happend ▸ hfree) hgap hopen hneed, (plainMatch_eq_none_iff hneed).2 hscan]
  rfl

/-- **A stretch that no rule accounts for in a window** is one of the characters as well. -/
theorem munch_unrecognized_of_window {front back v : Text} (hne : front ≠ [])
    (hfree : IsSpliceFree (unsplice (front ++ back ++ v)))
    (hwindow : Lexicon.IsWindow (front ++ back) v) (hraw : ¬ HasRawOpener (front ++ back))
    (hinside : ∀ p q, front = p ++ q → q ≠ [] →
      Lexicon.longestMatch lexicon.rules (q ++ back) = .noMatch) :
    unsplice (back ++ v) <:+ unsplice (front ++ back ++ v) ∧
      munch (unsplice (front ++ back ++ v)) = (munch (unsplice (back ++ v))).flagged := by
  induction front with
  | nil => exact absurd rfl hne
  | cons c front ih =>
    rw [List.cons_append] at hfree hwindow hraw ⊢
    obtain ⟨hchars, hm⟩ := unrecognized_of_window hfree hwindow hraw
      (hinside [] (c :: front) rfl (by simp))
    have hsuffix : unsplice (front ++ back ++ v) <:+ unsplice (c :: (front ++ back) ++ v) := by
      rw [hchars]
      exact List.suffix_cons c _
    have hstep : munch (unsplice (c :: (front ++ back) ++ v)) =
        (munch (unsplice (front ++ back ++ v))).flagged := by
      rw [hchars, munch_unrecognized hm]
    by_cases hf : front = []
    · rw [hf, List.nil_append] at hsuffix hstep
      rw [hf, List.nil_append]
      exact ⟨hsuffix, hstep⟩
    · obtain ⟨hsuffix', hrest⟩ := ih hf (hfree.of_infix hsuffix.isInfix)
        (hwindow.suffix (s := [c]) (by simp [hf]))
        (fun h ↦ hraw (h.of_infix (List.suffix_cons c _).isInfix))
        (fun p q hpq hq ↦ hinside (c :: p) q (by rw [hpq]; rfl) hq)
      refine ⟨hsuffix'.trans hsuffix, ?_⟩
      rw [hstep, hrest]
      rfl

/-- What a rule answers where no raw string opens, the first two or a plain one does. -/
theorem exists_rule_of_plain {t : Text} (hfree : IsSpliceFree t) (hraw : opensRaw t = false)
    {p : PlainRule} (hp : p ∈ plainRules) : ∃ r ∈ lexicon.rules, r.scan t = p.scan t := by
  by_contra h
  have hall : ∀ r ∈ lexicon.rules, r.scan t ≠ p.scan t := fun r hr hs ↦ h ⟨r, hr, hs⟩
  have hplain := ((forall_scan_rules (P := (· ≠ p.scan t)) hraw).1 hall).2.2 p hp
  exact hplain (hfree.scanPieces_eq hp)

/-- **What does not end in the rest of a text** does not end among its characters. -/
theorem munch_unterminated_of_window {w : Text} (hfree : IsSpliceFree (unsplice w))
    (hopen : isOpenEnded (pieces w) = false) (hraw : ¬ HasRawOpener w) {k : Nat}
    (hm : Lexicon.longestMatch lexicon.rules w = .needMore k) :
    munch (unsplice w) = (munch []).flagged := by
  have hraw : opensRaw w = false := opensRaw_of_not_hasRawOpener hraw
  obtain ⟨p, hp, hscan⟩ : ∃ p ∈ plainRules, p.scan (unsplice w) = .needMore := by
    by_contra h
    have hplain : ∀ p ∈ plainRules, scanPieces p.extendable p.scan (pieces w) ≠ .needMore := by
      exact fun p hp hs ↦ h ⟨p, hp, scan_of_needMore hopen hs⟩
    have hall := (forall_scan_rules (P := (· ≠ .needMore)) hraw).2
      ⟨Scan.ofSize_ne_needMore _, Scan.ofSize_ne_needMore _, hplain⟩
    obtain ⟨r, hr, hs⟩ := Lexicon.exists_needMore_of_longestMatch hm
    exact hall r (List.mem_of_getElem? hr) hs
  have hne : unsplice w ≠ [] := by
    intro hnil
    rw [hnil, (plain_of_mem hp).nil] at hscan
    cases hscan
  have hopens : opensRaw (unsplice w) = false := by
    by_contra h
    have h : opensRaw (unsplice w ++ []) = true := by simpa using h
    exact ((plain_of_opensRaw h hne).2 p hp).1 hscan
  obtain ⟨r, hr, hs⟩ := exists_rule_of_plain hfree hopens hp
  obtain ⟨i, hi⟩ := Lexicon.longestMatch_of_needMore hr (hs.trans hscan)
  rw [munch_unterminated hne hi, hopens, munch_nil]
  rfl

/-! ### Tokens -/

theorem plainMatch_append {k v : Text} (h : ∀ p ∈ plainRules, p.scan (k ++ v) = p.scan k) :
    plainMatch (k ++ v) = plainMatch k := by
  have hscans : plainRules.map (·.scan (k ++ v)) = plainRules.map (·.scan k) :=
    List.map_congr_left h
  rw [plainMatch, hscans]
  refine Lexicon.longest_congr fun s hs ↦ ?_
  obtain ⟨p, hp, rfl⟩ := List.mem_map.1 hs
  cases hscan : p.scan k with
  | noMatch => rfl
  | needMore => rfl
  | matched n =>
    have hfits := (plain_of_mem hp).fits k
    have hfits' := (plain_of_mem hp).fits (k ++ v)
    rw [h p hp] at hfits'
    rw [hscan] at hfits hfits'
    rw [Lexicon.usable?_of_fits hfits, Lexicon.usable?_of_fits hfits']

/-- Only comments are trivia, and they begin with a slash. -/
theorem isTrivia_of_starts {p : PlainRule} (hp : p ∈ plainRules) {c : Char} (hslash : c ≠ '/')
    (hs : p.starts c ≠ false) : Terminal.isTrivia p.kind = false := by
  have hc : (c == '/') = false := beq_eq_false_iff_ne.2 hslash
  simp only [plainRules, List.mem_cons, List.not_mem_nil, or_false] at hp
  rcases hp with rfl | rfl | rfl | rfl | rfl | rfl | rfl | rfl | rfl
  · exact absurd hc hs
  · exact absurd hc hs
  all_goals rfl

/-- What is cut short begins with a point, a percent sign or a digit. -/
theorem head_of_isCutShort {c : Char} {t r : Text} (h : isCutShort (c :: t) r = true) :
    c ≠ '/' := by
  rcases isCutShort_iff.1 h with ⟨hx, -⟩ | ⟨hx, -⟩ | ⟨hs, -⟩
  · rw [(List.cons.inj hx).1]
    decide
  · rw [(List.cons.inj hx).1]
    decide
  · obtain ⟨d, r', hd, hdigit⟩ := Numeral.starts_spec hs
    have hstart : Numeral.isStart d = true := by
      rcases hdigit with hdigit | ⟨rfl, -⟩
      · rw [Numeral.isStart, hdigit]
        rfl
      · rfl
    rw [(List.cons.inj hd).1]
    exact (starts_of_isStart hstart).1

/-- How a lexeme of a text shows in its characters `chars`, of which `rest` come after it. -/
inductive Mirrors (chars rest : Text) : Lexeme Kind → Prop where
  | invalid {i : InvalidToken} : munch chars = (munch rest).flagged →
      Mirrors chars rest (.invalid i)
  | valid {x : Token Kind} : munch chars = (munch rest).token x.terminal (unsplice x.text) →
      (x.isTrivia = false → isCutShort (unsplice x.text) rest = false) →
      Mirrors chars rest (.valid x)
  /-- It does not, because it is not all of a token, or because a raw string opens there. -/
  | astray {x : Token Kind} : x.isTrivia = false →
      isCutShort (unsplice x.text) rest = true ∨ (munch chars).raw = true →
      (∀ ts, (munch chars).tokens ≠ (x.terminal, unsplice x.text) :: ts) →
      Mirrors chars rest (.valid x)

/-- A token in the text, and the characters that it was found in. -/
theorem unsplice_of_writtenSize {w text back front rest : Text} (ht : w = text ++ back)
    (hk : unsplice w = front ++ rest) (hne : front ≠ [])
    (hn : Text.size text = writtenSize (Text.size front) (pieces w)) :
    unsplice text = front ∧ unsplice back = rest := by
  obtain ⟨qs, c, rs, hps, hfront, hrest, hsize⟩ := writtenSize_spec hk hne
  have hcut : pieces w = (qs ++ [.kept c]) ++ rs := by rw [hps]; simp
  obtain ⟨hw, hpfront, hpback⟩ := pieces_split hcut
  obtain ⟨rfl, rfl⟩ := Text.append_inj_of_size (ht.symm.trans hw) (hn.trans hsize)
  rw [unsplice, unsplice, hpfront, hpback]
  exact ⟨hfront, hrest⟩

theorem token_of_plainMatch {w text back : Text} {i m : Nat} (ht : w = text ++ back)
    (hm : plainMatch (unsplice w) = some (i, m)) (hn : Text.size text = writtenSize m (pieces w)) :
    unsplice w = unsplice text ++ unsplice back ∧ m = Text.size (unsplice text) := by
  obtain ⟨-, -, u, r, -, -, -, hk, rfl, hu⟩ := plainMatch_spec hm
  obtain ⟨rfl, rfl⟩ := unsplice_of_writtenSize ht hk hu hn
  exact ⟨hk, rfl⟩

/-- A token that a plain rule found at the front of some characters. -/
structure IsFound (chars rest : Text) (x : Token Kind) (p : PlainRule) : Prop where
  mem : p ∈ plainRules
  kind : x.terminal = p.kind
  append : unsplice x.text ++ rest = chars
  ne_nil : unsplice x.text ≠ []
  starts : ∀ c t, chars = c :: t → p.starts c ≠ false

theorem IsFound.exists_head {chars rest : Text} {x : Token Kind} {p : PlainRule}
    (h : IsFound chars rest x p) :
    ∃ c t u, chars = c :: t ∧ unsplice x.text = c :: u ∧ isGap c = false := by
  obtain ⟨c, u, hu⟩ := List.exists_cons_of_ne_nil h.ne_nil
  have hchars : chars = c :: (u ++ rest) := by rw [← h.append, hu, List.cons_append]
  refine ⟨c, u ++ rest, u, hchars, hu, ?_⟩
  by_contra hc
  exact h.starts c _ hchars (starts_of_isGap h.mem (by simpa using hc))

theorem IsFound.isTrivia {chars rest : Text} {x : Token Kind} {p : PlainRule}
    (h : IsFound chars rest x p) {c : Char} {t : Text} (hchars : chars = c :: t)
    (hslash : c ≠ '/') : x.isTrivia = false := by
  rw [Token.isTrivia, h.kind]
  exact isTrivia_of_starts h.mem hslash (h.starts c t hchars)

/-- Where a raw string opens, what a window shows of it is not all of the token. -/
theorem IsFound.mirrors_of_opensRaw {chars rest : Text} {x : Token Kind} {p : PlainRule}
    (h : IsFound chars rest x p) (hfree : IsSpliceFree chars) (hopens : opensRaw chars = true)
    (hle : Text.size (unsplice x.text) ≤ encodingSize chars + 1) :
    Mirrors chars rest (.valid x) := by
  obtain ⟨c, t, -, hchars, -, hgap⟩ := h.exists_head
  have hslash : c ≠ '/' := by
    obtain ⟨c', t', hchars', -, hslash⟩ := head_of_opensRaw hopens
    rwa [(List.cons.inj (hchars.symm.trans hchars')).1]
  have hraw : (munch chars).raw = true := munch_raw_of_opensRaw hopens
  obtain ⟨hnoMatch, hlonger⟩ := longestMatch_of_opensRaw hopens
  refine .astray (h.isTrivia hchars hslash) (.inr hraw) fun ts ↦ ?_
  rw [hchars] at hfree hnoMatch hlonger hle ⊢
  refine munch_longer hfree hgap hslash hnoMatch (fun i n hi ↦ ?_) hle ts
  obtain ⟨text, rest, htext, rfl⟩ := exists_front_of_longestMatch hi
  exact (hlonger i text rest hi htext).1

/-- A token that has been cut short is not the first one of the characters. -/
theorem IsFound.mirrors_of_isCutShort {chars rest : Text} {x : Token Kind} {p : PlainRule}
    (h : IsFound chars rest x p) (hfree : IsSpliceFree chars) (hopens : opensRaw chars = false)
    (hcut : isCutShort (unsplice x.text) rest = true) : Mirrors chars rest (.valid x) := by
  obtain ⟨c, t, u, hchars, hu, hgap⟩ := h.exists_head
  have hslash : c ≠ '/' := head_of_isCutShort (hu ▸ hcut)
  obtain ⟨p', hp', n, hn, hlt⟩ := exists_longer_of_isCutShort hcut
  rw [h.append] at hn
  obtain ⟨r, hr, hscan⟩ := exists_rule_of_plain hfree hopens hp'
  have hfound : r.scan chars = .matched n := hscan.trans hn
  have hfits := fits_of_mem hr chars
  refine .astray (h.isTrivia hchars hslash) (.inl hcut) fun ts ↦ ?_
  rw [hchars] at hfree hfound hfits ⊢
  refine munch_longer hfree hgap hslash ?_ (fun i n hi ↦ ?_) (Nat.le_refl _) ts
  · exact Lexicon.longestMatch_ne_noMatch hr hfits (by simp [hfound])
  · exact Nat.lt_of_lt_of_le hlt (Lexicon.le_of_longestMatch hi hr hfound hfits)

/-- A token that the plain rules find among the characters is the first one of them. -/
theorem IsFound.mirrors_of_plainMatch_eq {chars rest : Text} {x : Token Kind} {p : PlainRule}
    (h : IsFound chars rest x p) (hfree : IsSpliceFree chars) (hopens : opensRaw chars = false)
    (hcut : isCutShort (unsplice x.text) rest = false) {i : Nat} (hkind : kindAt i = x.terminal)
    (hmatch : plainMatch chars = some (i, Text.size (unsplice x.text)))
    (hneed : ∀ p ∈ plainRules, p.scan chars ≠ .needMore) : Mirrors chars rest (.valid x) := by
  obtain ⟨c, t, -, hchars, -, hgap⟩ := h.exists_head
  have happend := h.append.symm
  refine .valid ?_ fun _ ↦ hcut
  rw [hchars] at hfree hopens hmatch hneed happend ⊢
  have hfound := longestMatch_chars hfree hgap hopens hneed
  rw [hmatch] at hfound
  rw [munch_token hgap hfound happend, hkind, hopens, Bool.false_or]

/-- **A token that a plain rule found in a window** is the first one of the characters, unless it
has been cut short or a raw string opens there. -/
theorem mirrors_of_plainMatch {w v : Text} {x : Token Kind} {back : Text} {i : Nat} {r : Rule Kind}
    (hwindow : Lexicon.IsWindow w v) (hback : w = x.text ++ back)
    (hfree : IsSpliceFree (unsplice (w ++ v))) (hraw : ¬ HasRawOpener w)
    (hm : Lexicon.longestMatch lexicon.rules w = .matched i (Text.size x.text)) (hi : 2 ≤ i)
    (hr : lexicon.rules[i]? = some r) (hterminal : x.terminal = r.terminal)
    (hjoint : Joint back v) : unsplice (back ++ v) <:+ unsplice (w ++ v) ∧
      Mirrors (unsplice (w ++ v)) (unsplice (back ++ v)) (.valid x) := by
  have hraw : opensRaw w = false := opensRaw_of_not_hasRawOpener hraw
  obtain ⟨m, hplain, hsize⟩ := plainMatch_of_longestMatch hraw hi hm
  obtain ⟨hk, rfl⟩ := token_of_plainMatch hback hplain hsize
  obtain ⟨j, p, -, -, rfl, hp, hscan, -, -, -⟩ := plainMatch_spec hplain
  have hkind : x.terminal = p.kind := by
    obtain ⟨p', hp', hkind, -⟩ := rule_of_getElem? hraw hr
    rw [hterminal, hkind, Option.some.inj (hp.symm.trans hp')]
  have hp := List.mem_of_getElem? hp
  have hkindAt : kindAt (j + 2) = x.terminal := by
    rw [kindAt, hr, hterminal]
    rfl
  have hneed : ∀ p ∈ plainRules, scanPieces p.extendable p.scan (pieces w) ≠ .needMore :=
    ((forall_scan_rules (P := (· ≠ .needMore)) hraw).1
      (Lexicon.ne_needMore_of_longestMatch (by simp [hm]))).2.2
  -- All characters, and what is left of them behind the token.
  have hchars : unsplice (w ++ v) = unsplice w ++ unsplice v :=
    unsplice_append (joint_of_isWindow hwindow)
  have hrest : unsplice (w ++ v) = unsplice x.text ++ unsplice (back ++ v) := by
    rw [hchars, hk, unsplice_append hjoint, List.append_assoc]
  have hne : unsplice x.text ≠ [] := by
    intro hnil
    have hpos := ((plain_of_mem hp).fits (unsplice w)).pos hscan
    rw [hnil] at hpos
    exact Nat.lt_irrefl 0 hpos
  have hkne : unsplice w ≠ [] := by
    rw [hk]
    simp [hne]
  have hfound : IsFound (unsplice (w ++ v)) (unsplice (back ++ v)) x p := by
    refine ⟨hp, hkind, hrest.symm, hne, fun c t hc hs ↦ ?_⟩
    obtain ⟨d, u, hu⟩ := List.exists_cons_of_ne_nil hkne
    rw [hchars, hu, List.cons_append] at hc
    rw [hu, (List.cons.inj hc).1, (plain_of_mem hp).cons c u hs] at hscan
    cases hscan
  refine ⟨⟨unsplice x.text, hrest.symm⟩, ?_⟩
  cases hopens : opensRaw (unsplice (w ++ v)) with
  | true =>
    refine hfound.mirrors_of_opensRaw hfree hopens ?_
    have hle := ((plain_of_opensRaw (hchars ▸ hopens) hkne).2 p hp).2 _ hscan
    rwa [← hchars] at hle
  | false =>
    cases hcut : isCutShort (unsplice x.text) (unsplice (back ++ v)) with
    | true => exact hfound.mirrors_of_isCutShort hfree hopens hcut
    | false =>
      have hscans : ∀ p ∈ plainRules, p.scan (unsplice (w ++ v)) = p.scan (unsplice w) := by
        rw [hchars]
        by_cases hv : v = []
        · intro p _
          rw [hv, unsplice_nil, List.append_nil]
        · refine (settled_of_isWindow hwindow hv hkne hneed).scan_append fun hover ↦ ?_
          have hshort := isCutShort_of_overruns hover hk hplain
          rw [← unsplice_append hjoint, hcut] at hshort
          cases hshort
      have hmatch : plainMatch (unsplice (w ++ v)) =
          some (j + 2, Text.size (unsplice x.text)) := by
        rw [hchars] at hscans ⊢
        rw [plainMatch_append hscans, hplain]
      refine hfound.mirrors_of_plainMatch_eq hfree hopens hcut hkindAt hmatch fun p hp hs ↦ ?_
      rw [hscans p hp] at hs
      exact hneed p hp (needMore_of_scan hs)

/-- **A lexeme of a text shows in its characters.** -/
theorem mirrors_of_reads {w v rest : Text} {x : Lexeme Kind} (hw : w ≠ [])
    (hwindow : Lexicon.IsWindow w v) (hreads : Reads lexicon.rules w v x)
    (hrest : w ++ v = x.text ++ rest) (hfree : IsSpliceFree (unsplice (w ++ v)))
    (hopen : isOpenEnded (pieces (w ++ v)) = false) (hraw : ¬ HasRawOpener (w ++ v)) :
    unsplice rest <:+ unsplice (w ++ v) ∧ Mirrors (unsplice (w ++ v)) (unsplice rest) x := by
  have hraww : ¬ HasRawOpener w := fun h ↦ hraw (h.of_infix (List.prefix_append w v).isInfix)
  have hjoint : ∀ s back : Text, w = s ++ back → Joint back v := by
    rintro s back rfl
    exact (joint_of_isWindow hwindow).suffix
  cases hreads with
  | @gap i back hm htext hn =>
    obtain rfl : rest = back ++ v := by
      rw [htext, List.append_assoc] at hrest
      exact (List.append_cancel_left hrest).symm
    obtain ⟨front, back', hfront, hsize, hf, hinside, -⟩ :=
      Lexicon.unrecognizedSize_spec lexicon.rules hm hw
    obtain ⟨rfl, rfl⟩ := Text.append_inj_of_size (htext.symm.trans hfront) (hn.symm.trans hsize)
    rw [htext] at hfree hwindow hraww ⊢
    obtain ⟨hsuffix, hmunch⟩ := munch_unrecognized_of_window hf hfree hwindow hraww hinside
    exact ⟨hsuffix, .invalid hmunch⟩
  | @unterminated i k hm hv hi =>
    subst hv
    rw [List.append_nil] at hfree hopen hrest ⊢
    obtain rfl : rest = [] := by
      rw [Lexeme.text, hi] at hrest
      exact List.append_cancel_left (hrest.symm.trans (List.append_nil w).symm)
    exact ⟨List.nil_suffix, .invalid (munch_unterminated_of_window hfree hopen hraww hm)⟩
  | @token x i r back hm htext hr hterminal =>
    obtain rfl : rest = back ++ v := by
      rw [htext, List.append_assoc] at hrest
      exact (List.append_cancel_left hrest).symm
    by_cases hi : 2 ≤ i
    · exact mirrors_of_plainMatch hwindow htext hfree hraww hm hi hr hterminal (hjoint _ _ htext)
    · obtain ⟨⟨r', hr', hscan⟩, -, -⟩ := Lexicon.scan_of_longestMatch_eq_matched hm
      obtain rfl : r = r' := Option.some.inj (hr.symm.trans hr')
      rw [htext] at hscan
      obtain ⟨happend, hgap, htrivia⟩ := gap_of_rule (Nat.not_le.1 hi) hr hscan
      have hchars : unsplice (w ++ v) = unsplice x.text ++ unsplice (back ++ v) := by
        rw [unsplice_append (joint_of_isWindow hwindow), htext, happend,
          unsplice_append (hjoint _ _ htext), List.append_assoc]
      have htriviax : x.isTrivia = true := by rw [Token.isTrivia, hterminal, htrivia]
      refine ⟨⟨unsplice x.text, hchars.symm⟩,
        .valid ?_ fun h ↦ absurd (htriviax.symm.trans h) (by decide)⟩
      rw [hchars, munch_append_of_isGap hgap, Summary.token, hterminal, if_pos htrivia]

end LexFront.Cpp
