import LexFront.Proofs.Cpp.Answering
import LexFront.Proofs.Cpp.OpenConstructs
import LexFront.Proofs.Lexer.Windows

/-!
# Splices between tokens

A splice between two tokens is whitespace only as long as the window ends with it. The plain rules
are run on the characters of the window, and measure what they find in the text, from the start of
the window on. So they pass over a splice at the start too, and what they find there is longer than
the splice. Whether a window goes on behind a splice at its start depends on the lexeme before: one
that touches a splice has asked for the next line.

Key facts:

* `reads_whitespace_iff`: a window that begins with a splice gives whitespace unless a plain rule
  answers for its characters.
* `isSpliceToken_iff`: so does a lexer, unless it sees past the splice to a token.
* `string_of_opensRaw`: where a raw string opens, it is found as a string.
-/

set_option autoImplicit false

namespace LexFront.Cpp

open Lexer (Reads texts)

/-! ### Windows that begin with a splice -/

/-- The first rule takes a splice at the start. -/
theorem beginsWithSplice_of_scanWhitespace {text rest : Text}
    (hsplice : beginsWithSplice (text ++ rest) = true)
    (h : scanWhitespace (text ++ rest) = .matched (Text.size text)) :
    beginsWithSplice text = true := by
  obtain ⟨ps, qs, hps, hsize, -⟩ := blankSize_pieces (text ++ rest)
  obtain ⟨ht, hfront, -⟩ := pieces_split hps
  rw [scanWhitespace, hsize] at h
  rw [beginsWithSplice, hps] at hsplice
  obtain ⟨rfl, rfl⟩ := Text.append_inj_of_size ht (Scan.eq_of_ofSize h)
  rw [beginsWithSplice, hfront]
  cases ps with
  | nil => cases h
  | cons p ps => exact hsplice

/-- **What a plain rule finds** goes on behind the blanks and splices at the start. -/
theorem blankSize_lt_of_scan {w : Text} {p : PlainRule} (hp : p ∈ plainRules) {n : Nat}
    (h : scanPieces p.extendable p.scan (pieces w) = .matched n) : blankSize w < n := by
  obtain ⟨m, hm, rfl, -⟩ := scanPieces_eq_matched_iff.1 h
  obtain ⟨front, back, hk, rfl, hne, -⟩ := (plain_of_mem hp).fits _ m hm
  obtain ⟨qs, c, rs, hqs, -, -, hsize⟩ := writtenSize_spec hk hne
  obtain ⟨ps, ps', hps, hblank, hall⟩ := blankSize_pieces w
  -- A token begins with no blank, so that only splices stand in front of it.
  have hkept : keptText ps = [] := by
    cases hd : keptText ps with
    | nil => rfl
    | cons d u =>
      have hgap : isGap d = true := isGap_iff.2 (.inl (hall d (by simp [hd])))
      have hchars : keptText (pieces w) = d :: (u ++ keptText ps') := by
        rw [hps, unsplice_append_pieces, hd, List.cons_append]
      rw [hchars, (plain_of_mem hp).cons d _ (starts_of_isGap hp hgap)] at hm
      cases hm
  have hprefix : ps <+: qs := by
    rcases List.append_eq_append_iff.1 (hps.symm.trans hqs) with ⟨as, hq, -⟩ | ⟨as, hq, has⟩
    · exact ⟨as, hq.symm⟩
    · cases as with
      | nil => exact ⟨[], by simp [hq]⟩
      | cons a as =>
        obtain ⟨rfl, -⟩ := List.cons.inj has
        rw [hq, unsplice_append_pieces, keptText_cons_kept] at hkept
        simp at hkept
  obtain ⟨as, rfl⟩ := hprefix
  have hpos := c.utf8Size_pos
  rw [hblank, hsize]
  simp only [writtenText_append, Text.size_append, writtenText_cons, Piece.text, Text.size_cons]
  omega

theorem eq_zero_of_whitespace {i : Nat} {r : Rule Kind} (hr : lexicon.rules[i]? = some r)
    (h : r.terminal = .whitespace) : i = 0 := by
  have hkind := congrArg (·[i]?) kinds_of_rules
  simp only [List.getElem?_map, hr, Option.map_some, h] at hkind
  have hplain : ∀ k ∈ plainRules.map (·.kind), k ≠ .whitespace := by decide
  match i, hkind with
  | 0, _ => rfl
  | j + 2, hkind =>
    exact absurd rfl (hplain _ (List.mem_of_getElem? (by simpa using hkind.symm)))

/-- Whitespace is found only where no plain rule answers for the characters. -/
theorem not_answers_of_longestMatch {w : Text} (hsplice : beginsWithSplice w = true) {n : Nat}
    (hm : Lexicon.longestMatch lexicon.rules w = .matched 0 n) : ¬ Answers (unsplice w) := by
  rintro ⟨p, hp, hanswer⟩
  have hraw := opensRaw_of_beginsWithSplice hsplice
  have hneed := ((forall_scan_rules (P := (· ≠ .needMore)) hraw).1
    (Lexicon.ne_needMore_of_longestMatch (by simp [hm]))).2.2 p hp
  cases hscan : scanPieces p.extendable p.scan (pieces w) with
  | noMatch => exact hanswer (scanPieces_eq_noMatch_iff.1 hscan)
  | needMore => exact hneed hscan
  | matched k =>
    have hle : k ≤ n := ((forall_scan_rules (P := fun s ↦ s = .matched k → k ≤ n) hraw).1
      fun r hr hs ↦ Lexicon.le_of_longestMatch hm hr hs (fits_of_mem hr w)).2.2 p hp hscan
    obtain ⟨⟨r, hr, hblank⟩, -, -⟩ := Lexicon.scan_of_longestMatch_eq_matched hm
    obtain rfl := Option.some.inj hr
    have hlt := blankSize_lt_of_scan hp hscan
    have hn : n = blankSize w := Scan.eq_of_ofSize hblank
    omega

/-- At a splice it is whitespace that is found then. -/
theorem longestMatch_of_beginsWithSplice {w : Text} (hsplice : beginsWithSplice w = true)
    (h : ¬ Answers (unsplice w)) :
    ∃ n, Lexicon.longestMatch lexicon.rules w = .matched 0 n := by
  obtain ⟨b, t, rfl, hb⟩ := beginsWithSplice_iff.1 hsplice
  rcases longestMatch_of_not_answers h with hm | ⟨i, n, hi, hm⟩
  · rw [(head_of_noMatch hm).2 rfl b rfl] at hb
    cases hb
  · match i, hi with
    | 0, _ => exact ⟨n, hm⟩
    | 1, _ =>
      obtain ⟨⟨r, hr, hscan⟩, -, -⟩ := Lexicon.scan_of_longestMatch_eq_matched hm
      obtain rfl := Option.some.inj hr
      cases (scanNewline_of_not_isGap (t := b :: t) (c := '\\') rfl).symm.trans hscan

/-- A token of whitespace that begins with a splice. -/
def IsSpliceToken (x : Lexeme Kind) : Prop :=
  ∃ y, x = .valid y ∧ y.terminal = .whitespace ∧ beginsWithSplice y.text = true

/-- **A window that begins with a splice** gives whitespace unless a plain rule answers for its
characters. -/
theorem reads_whitespace_iff {w v : Text} {x : Lexeme Kind} (h : Reads lexicon.rules w v x)
    (hsplice : beginsWithSplice w = true) : IsSpliceToken x ↔ ¬ Answers (unsplice w) := by
  constructor
  · rintro ⟨y, rfl, hy, -⟩
    cases h with
    | token hm _ hr hterminal =>
      obtain rfl := eq_zero_of_whitespace hr (hterminal.symm.trans hy)
      exact not_answers_of_longestMatch hsplice hm
  · intro hnone
    obtain ⟨n, hm⟩ := longestMatch_of_beginsWithSplice hsplice hnone
    cases h with
    | gap hm' _ _ => cases hm.symm.trans hm'
    | unterminated hm' _ _ => cases hm.symm.trans hm'
    | @token y i r back hm' ht hr hterminal =>
      obtain ⟨rfl, rfl⟩ := Match.matched.inj (hm'.symm.trans hm)
      obtain ⟨⟨r', hr', hscan⟩, -, -⟩ := Lexicon.scan_of_longestMatch_eq_matched hm
      obtain rfl := Option.some.inj hr
      obtain rfl := Option.some.inj hr'
      rw [ht] at hscan hsplice
      exact ⟨y, rfl, hterminal, beginsWithSplice_of_scanWhitespace hsplice hscan⟩

/-! ### Lexers that see past a splice -/

/-- What a lexer has in sight begins with a splice and goes on behind it, and a token begins
there. -/
def SeesPastSplice (l : Lexer Kind) : Prop :=
  beginsWithSplice l.window = true ∧ unsplice l.window ≠ [] ∧ Answers (unsplice l.pending)

instance (l : Lexer Kind) : Decidable (SeesPastSplice l) :=
  inferInstanceAs (Decidable (_ ∧ _ ∧ _))

/-- A line that begins with a splice is nothing else. -/
theorem unsplice_raw_of_beginsWithSplice {unit : String} {n : Nat} {line : Line}
    {rest : List Line} (h : Line.Consecutive unit n (line :: rest))
    (hsplice : beginsWithSplice ((line :: rest).flatMap Line.raw) = true) :
    unsplice line.raw = [] := by
  obtain ⟨b, r, ht, hb⟩ := beginsWithSplice_iff.1 hsplice
  -- The line break of the splice is not in the line, so that the line is a backslash.
  have hunbroken : ∀ s : Text, ¬ Text.IsUnbroken ('\\' :: b :: s) := by
    intro s hs
    rw [hs b (by simp)] at hb
    cases hb
  rw [List.flatMap_cons] at ht
  cases h with
  | @last _ text hu _ =>
    simp only [Line.raw, Terminator.text, List.append_nil, List.flatMap_nil] at ht
    exact absurd (ht ▸ hu) (hunbroken r)
  | @cons _ text t _ hu hterminator _ _ =>
    rw [Line.raw, List.append_assoc] at ht
    cases text with
    | nil => cases t <;> first | exact absurd rfl hterminator | cases ht
    | cons c text =>
      obtain ⟨rfl, ht⟩ := List.cons.inj ht
      cases text with
      | nil => cases t <;> first | exact absurd rfl hterminator | rfl
      | cons d s =>
        obtain ⟨rfl, -⟩ := List.cons.inj ht
        exact absurd hu (hunbroken s)

theorem unsplice_window_of_pull {l l' : Lexer Kind} (hl : l.IsFed) (hw : l.window = [])
    (hp : l.pull = some l') (hsplice : beginsWithSplice l.pending = true) :
    unsplice l'.window = [] := by
  obtain ⟨line, lines, ht, rfl⟩ := Lexer.pull_eq_some hp
  obtain ⟨n, hn⟩ := hl
  rw [Lexer.pending, hw, LineStream.pending, ht.lines] at hsplice
  rw [ht.lines] at hn
  simp only [hw, List.nil_append]
  exact unsplice_raw_of_beginsWithSplice hn hsplice

/-- What answers in a window that a lexeme is found in answers in all of the text. -/
theorem Answers.of_window {w v : Text} {x : Lexeme Kind} (h : Answers (unsplice w))
    (hreads : Reads lexicon.rules w v x) (hwindow : Lexicon.IsWindow w v) :
    Answers (unsplice (w ++ v)) := by
  rw [unsplice_append (joint_of_isWindow hwindow)]
  rcases h.append (unsplice v) with hall | ⟨quote, r, hq, hk, hopen⟩
  · exact hall
  · -- At an open quote more is asked for until nothing is left.
    obtain ⟨k, hm⟩ := asksForMore_iff.2 (.inl (.quoted hq (.inl rfl) hk hopen))
    cases hreads with
    | gap hm' _ _ => cases hm.symm.trans hm'
    | token hm' _ _ _ => cases hm.symm.trans hm'
    | unterminated _ hv _ => simpa [hv] using h

variable {l : Lexer Kind} {x : Lexeme Kind} {xs : List (Lexeme Kind)}

/-- **At a splice a lexer hands out whitespace** unless it sees past it. -/
theorem isSpliceToken_iff (hl : l.lexicon = lexicon) (h : l.IsUndisturbed)
    (hxs : l.lexemes = x :: xs) (hsplice : beginsWithSplice l.pending = true) :
    IsSpliceToken x ↔ ¬ SeesPastSplice l := by
  obtain ⟨l₀, m, hfills, hfinds, hnext, -, -⟩ := h.next hxs
  obtain ⟨-, hpending, -, hlexicon₀, -⟩ := hfinds.frame hfills
  obtain ⟨-, hw₀, hshow₀⟩ := hfills.spec h.fed h.shows
  have hwindow := hfinds.shows hfinds.window_ne_nil
  have hreads := hfinds.reads
  rw [hnext, hlexicon₀, hl] at hreads
  have hsplice₀ : beginsWithSplice l₀.window = true := by
    rw [← hfills.pulls.frame.1] at hsplice
    exact beginsWithSplice_of_append (hshow₀ hw₀) hw₀ hsplice
  rw [reads_whitespace_iff hreads (beginsWithSplice_of_append hwindow hfinds.window_ne_nil
    (hpending ▸ hsplice)), not_iff_not]
  constructor
  · intro hanswers
    -- A window that holds splices only gives whitespace, and no more lines are taken.
    have hmore : unsplice l₀.window ≠ [] := by
      intro hnil
      obtain ⟨n, hm⟩ := longestMatch_of_beginsWithSplice hsplice₀ (hnil ▸ not_answers_nil)
      obtain rfl := hfinds.stays fun k ↦ by simp [hlexicon₀, hl, hm]
      exact not_answers_nil (hnil ▸ hanswers)
    cases hfills with
    | line hw hp => exact absurd (unsplice_window_of_pull h.fed hw hp hsplice) hmore
    | window _ =>
      exact ⟨hsplice₀, hmore, hpending ▸ hanswers.of_window hreads hwindow⟩
  · rintro ⟨-, hne, hanswers⟩
    have hw : l.window ≠ [] := by
      intro hnil
      rw [hnil] at hne
      exact hne rfl
    obtain rfl := hfills.eq_of_window hw
    obtain ⟨u, hu, hrest⟩ := hfinds.pulls.exists_taken
    have hjoint : Joint l₀.window u := (joint_of_isWindow (hrest ▸ h.shows hw)).prefix_right
    rw [← hpending, unsplice_append (joint_of_isWindow hwindow)] at hanswers
    by_contra hnone
    refine not_answers_append ?_ hnone _ hanswers
    rw [hu, unsplice_append hjoint]
    simp [hne]

/-! ### Raw strings -/

theorem isUnbroken_rawOpener {e d : Text} (he : e = [] ∨ e ∈ encodings) (hd : IsDelimiter d) :
    (e ++ rawOpener d).IsUnbroken := by
  intro c hc
  simp only [rawOpener, List.mem_append, List.mem_cons, List.not_mem_nil, or_false] at hc
  rcases hc with hc | rfl | rfl | hc | rfl
  · exact isUnbroken_of_encoding he c hc
  · rfl
  · rfl
  · have hdelimiter := hd.1 c hc
    by_contra hbreak
    rcases Text.isLineBreak_iff.1 (by simpa using hbreak) with rfl | rfl <;> cases hdelimiter
  · rfl

/-- The opener of a raw string shows in every window. -/
theorem rawOpener_prefix_of_append {e d : Text} (he : e = [] ∨ e ∈ encodings) (hd : IsDelimiter d)
    {w v : Text} (hwindow : Lexicon.IsWindow w v) (hp : e ++ rawOpener d <+: w ++ v) :
    e ++ rawOpener d <+: w :=
  hwindow.prefix_of_isUnbroken (isUnbroken_rawOpener he hd) hp

theorem opensRaw_of_append {w v : Text} (hwindow : Lexicon.IsWindow w v)
    (h : opensRaw (w ++ v) = true) : opensRaw w = true := by
  obtain ⟨e, d, he, hd, hp⟩ := opensRaw_iff.1 h
  exact opensRaw_iff.2 ⟨e, d, he, hd, rawOpener_prefix_of_append he hd hwindow hp⟩

/-- A plain rule finds no more of a raw string than the word in front of its quote. -/
theorem not_mem_of_opensRaw {w text back : Text} (hraw : opensRaw w = true) (ht : w = text ++ back)
    {p : PlainRule} (hp : p ∈ plainRules)
    (hscan : scanPieces p.extendable p.scan (pieces w) = .matched (Text.size text)) :
    '"' ∉ unsplice text := by
  obtain ⟨m, hm, hsize, -⟩ := scanPieces_eq_matched_iff.1 hscan
  obtain ⟨e, r, he, hchars⟩ := unsplice_of_opensRaw hraw
  have hfront : unsplice w = (e ++ ['R']) ++ '"' :: r := by rw [hchars]; simp
  rw [← unsplice, hchars] at hm
  rcases scan_rawOpener he r hp with hnone | hword
  · cases hnone.symm.trans hm
  · obtain rfl := Scan.matched.inj (hword.symm.trans hm)
    have hall : ∀ e ∈ [] :: encodings, '"' ∉ e ++ ['R'] := by decide
    rw [(unsplice_of_writtenSize ht hfront (by simp) hsize).1]
    exact hall e (List.mem_cons.2 he)

/-- **A raw string is found as a string**, with all of its opener. -/
theorem terminal_of_opensRaw {w text back : Text} {i : Nat} {r : Rule Kind}
    (hraw : opensRaw w = true) (ht : w = text ++ back)
    (hm : Lexicon.longestMatch lexicon.rules w = .matched i (Text.size text))
    (hr : lexicon.rules[i]? = some r) : r.terminal = .stringLiteral ∧ opensRaw text = true := by
  have hopens := ((longestMatch_of_opensRaw hraw).2 i text back hm ht).2
  refine ⟨?_, hopens⟩
  by_contra hkind
  obtain ⟨⟨r', hr', hscan⟩, -, -⟩ := Lexicon.scan_of_longestMatch_eq_matched hm
  obtain rfl := Option.some.inj (hr.symm.trans hr')
  obtain ⟨c, t, rfl, hgap, -⟩ := head_of_opensRaw hraw
  have hsplice : beginsWithSplice (c :: t) = false := by
    by_contra hsplice
    rw [opensRaw_of_beginsWithSplice (by simpa using hsplice)] at hraw
    cases hraw
  obtain ⟨j, rfl⟩ := Nat.exists_eq_add_of_le' (two_le_of_longestMatch hgap hsplice hm)
  obtain ⟨p, hp, hterminal, hscan'⟩ := rule_of_getElem?_all (c :: t) hr
  rw [if_neg (hterminal ▸ hkind), hscan] at hscan'
  obtain ⟨e, u, -, htext⟩ := unsplice_of_opensRaw hopens
  exact not_mem_of_opensRaw hraw ht (List.mem_of_getElem? hp) hscan'.symm (by simp [htext])

/-- **Where a raw string opens** a lexer hands it out, or finds that it is not closed. -/
theorem string_of_opensRaw (hl : l.lexicon = lexicon) (h : l.IsUndisturbed)
    (hxs : l.lexemes = x :: xs) (hraw : opensRaw l.pending = true) :
    (∃ y, x = .valid y ∧ y.terminal = .stringLiteral ∧ opensRaw y.text = true) ∨
      ∃ construct, x.error? = some (.unterminated construct) := by
  obtain ⟨w, v, hpending, -, hwindow, hreads, hunrecognized⟩ := h.exists_reads hxs
  have hraw := opensRaw_of_append hwindow (hpending ▸ hraw)
  have hinput := h.ofInput x (by simp [hxs])
  rw [hl] at hreads hunrecognized
  cases hreads with
  | gap hm _ _ => exact absurd hm (longestMatch_of_opensRaw hraw).1
  | @token y i r back hm ht hr hterminal =>
    obtain ⟨hkind, hopens⟩ := terminal_of_opensRaw hraw ht hm hr
    exact .inl ⟨y, rfl, hterminal.trans hkind, hopens⟩
  | @unterminated i k hm _ _ =>
    cases hi : i.error with
    | unterminated construct => exact .inr ⟨construct, congrArg some hi⟩
    | unrecognizedInput => cases (hunrecognized.1 (congrArg some hi)).symm.trans hm
    | _ => simp [Lexeme.isOfInput, Lexeme.error?, hi, LexicalError.isOfInput] at hinput

end LexFront.Cpp
