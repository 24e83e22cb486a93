import LexFront.Proofs.Cpp.RawStrings
import LexFront.Proofs.Cpp.Splices
import LexFront.Proofs.Lexer.LineStarts

/-!
# Tokens behind splices

What comes right behind a splice is to be found as if a line started there. At the start of a line
the window is the shortest one; elsewhere it may hold lines that were taken for an earlier token,
and show more. That makes no difference to the rules unless the shorter window cuts the token short.
Then the token behind the splice is longer than the one at the start of a line.

Key facts:

* `tokenIn_append`: more lines in sight make no difference to a token that is not cut short.
* `token?_behind_whitespace`: when a token behind whitespace is the one at the start of a line.
* `splicesAreBlank_iff`: when splices between tokens are whitespace, and tokens right behind them
  are found as at the start of a line.
-/

set_option autoImplicit false

namespace LexFront.Cpp

open Lexer (Reads cut firstLexeme atLineStart texts)

/-! ### The token of a window -/

/-- The token that a lexeme is, wherever it stands: its kind, its text and its value. -/
def token? : Lexeme Kind → Option (Kind × Text × Text)
  | .valid x => some (x.terminal, x.text, x.value)
  | _ => none

/-- The token that a window begins with. -/
def tokenIn (w : Text) : Option (Kind × Text × Text) :=
  match Lexicon.longestMatch lexicon.rules w with
  | .matched i n =>
    (lexicon.rules[i]?).map fun r ↦ (r.terminal, (cut n w).1, r.decode (cut n w).1)
  | _ => none

theorem tokenIn_of_matched {w : Text} {i n : Nat} {r : Rule Kind}
    (hm : Lexicon.longestMatch lexicon.rules w = .matched i n) (hr : lexicon.rules[i]? = some r) :
    tokenIn w = some (r.terminal, (cut n w).1, r.decode (cut n w).1) := by
  rw [tokenIn, hm]
  simp only [hr, Option.map_some]

/-- A token is a front of the window. -/
theorem exists_of_tokenIn {w text value : Text} {kind : Kind}
    (h : tokenIn w = some (kind, text, value)) :
    ∃ i r back, Lexicon.longestMatch lexicon.rules w = .matched i (Text.size text) ∧
      w = text ++ back ∧ lexicon.rules[i]? = some r ∧ r.terminal = kind := by
  cases hm : Lexicon.longestMatch lexicon.rules w with
  | noMatch => simp [tokenIn, hm] at h
  | needMore k => simp [tokenIn, hm] at h
  | matched i n =>
    obtain ⟨front, back, rfl, rfl⟩ := exists_front_of_longestMatch hm
    obtain ⟨⟨r, hr, -⟩, -, -⟩ := Lexicon.scan_of_longestMatch_eq_matched hm
    rw [tokenIn_of_matched hm hr, Lexer.cut_size_append] at h
    simp only [Option.some.injEq, Prod.mk.injEq] at h
    obtain ⟨rfl, rfl, -⟩ := h
    exact ⟨i, r, back, rfl, rfl, hr, rfl⟩

/-- The token that a lexeme is depends only on the window that it was found in. -/
theorem token?_of_reads {w v : Text} {x : Lexeme Kind} (h : Reads lexicon.rules w v x)
    (hvalue : ∀ y, x = .valid y →
      ∃ r ∈ lexicon.rules, y.terminal = r.terminal ∧ y.value = r.decode y.text) :
    token? x = tokenIn w := by
  cases h with
  | gap hm _ _ => rw [tokenIn, hm]; rfl
  | unterminated hm _ _ => rw [tokenIn, hm]; rfl
  | @token y i r back hm ht hr hterminal =>
    obtain ⟨r', hr', hterminal', hdecode⟩ := hvalue y rfl
    obtain rfl : r = r' :=
      rule_unique (List.mem_of_getElem? hr) hr' (hterminal.symm.trans hterminal')
    rw [tokenIn_of_matched hm hr, ht, Lexer.cut_size_append, token?, hterminal, hdecode]

/-! ### Tokens that are cut short -/

/-- Whether a token at the start of a text, unless it is blank, has been cut short there. -/
def isCutShortIn (t : Text) : Option (Kind × Text × Text) → Bool
  | none => false
  | some (kind, text, _) => Terminal.category kind != .whitespace &&
      isCutShort (unsplice text) (unsplice (t.drop text.length))

/-- Only the first two rules find blanks and line breaks. -/
theorem category_eq_whitespace_iff {i : Nat} {r : Rule Kind} (hr : lexicon.rules[i]? = some r) :
    Terminal.category r.terminal = .whitespace ↔ i < 2 := by
  have hplain : ∀ p ∈ plainRules, Terminal.category p.kind ≠ .whitespace := by decide
  match i, hr with
  | 0, hr => exact Option.some.inj hr ▸ iff_of_true rfl Nat.two_pos
  | 1, hr => exact Option.some.inj hr ▸ iff_of_true rfl Nat.one_lt_two
  | j + 2, hr =>
    obtain ⟨p, hp, hkind, -⟩ := rule_of_getElem?_all [] hr
    exact iff_of_false (hkind ▸ hplain p (List.mem_of_getElem? hp)) (by omega)

/-- **A token that is found in a window** has not been cut short in it. -/
theorem isCutShortIn_tokenIn (w : Text) : isCutShortIn w (tokenIn w) = false := by
  rcases htoken : tokenIn w with _ | ⟨kind, text, value⟩
  · rfl
  obtain ⟨i, r, back, hm, rfl, hr, rfl⟩ := exists_of_tokenIn htoken
  by_contra hcut
  rw [isCutShortIn, List.drop_left, Bool.not_eq_false, Bool.and_eq_true, bne_iff_ne,
    Ne, category_eq_whitespace_iff hr, Nat.not_lt] at hcut
  obtain ⟨hi, hcut⟩ := hcut
  cases hraw : opensRaw (text ++ back) with
  | true =>
    -- A raw string begins with a word.
    obtain ⟨e, u, he, htext⟩ := unsplice_of_opensRaw (terminal_of_opensRaw hraw rfl hm hr).2
    rw [htext] at hcut
    simp only [encodings, List.mem_cons, List.not_mem_nil, or_false] at he
    rcases he with rfl | rfl | rfl | rfl | rfl <;> cases hcut
  | false =>
    obtain ⟨m, hplain, hsize⟩ := plainMatch_of_longestMatch hraw hi hm
    obtain ⟨hchars, rfl⟩ := token_of_plainMatch rfl hplain hsize
    obtain ⟨p, hp, n, hscan, hlt⟩ := exists_longer_of_isCutShort hcut
    rw [← hchars] at hscan
    exact absurd (le_of_plainMatch hplain hp hscan) (Nat.not_le.2 hlt)

/-! ### More lines in sight -/

theorem tokenIn_append_of_longestMatch {w u : Text}
    (h : Lexicon.longestMatch lexicon.rules (w ++ u) = Lexicon.longestMatch lexicon.rules w) :
    tokenIn (w ++ u) = tokenIn w := by
  cases hm : Lexicon.longestMatch lexicon.rules w with
  | noMatch => rw [tokenIn, tokenIn, h, hm]
  | needMore k => rw [tokenIn, tokenIn, h, hm]
  | matched i n =>
    obtain ⟨⟨r, hr, -⟩, -, hboundary⟩ := Lexicon.scan_of_longestMatch_eq_matched hm
    rw [tokenIn_of_matched hm hr, tokenIn_of_matched (h.trans hm) hr,
      Lexer.cut_append_of_isBoundary hboundary]

/-- Where there is neither a blank nor a splice. -/
theorem blankSize_eq_zero_iff {c : Char} {t : Text} :
    blankSize (c :: t) = 0 ↔ isBlank c = false ∧ beginsWithSplice (c :: t) = false := by
  constructor
  · intro h
    have hnone : scanWhitespace (c :: t) = .noMatch := by
      rw [scanWhitespace, h]
      rfl
    constructor
    · by_contra hc
      rw [blankSize_of_isBlank (by simpa using hc)] at h
      exact absurd h (Nat.ne_of_gt (Nat.add_pos_left c.utf8Size_pos _))
    · by_contra hsplice
      obtain ⟨b, r, ht, hb⟩ := beginsWithSplice_iff.1 (by simpa using hsplice)
      obtain ⟨hc, rfl⟩ := List.cons.inj ht
      exact scanWhitespace_of_splice hc rfl hb hnone
  · rintro ⟨hc, hsplice⟩
    have hnone := scanWhitespace_of_not_beginsWithSplice hc hsplice
    rw [scanWhitespace, Scan.ofSize] at hnone
    by_contra hne
    rw [if_neg hne] at hnone
    cases hnone

/-- No splice begins at the end of a window. -/
theorem blankSize_append_eq_zero {w v : Text} (hwindow : Lexicon.IsWindow w v) (hw : w ≠ [])
    (h : blankSize w = 0) : blankSize (w ++ v) = 0 := by
  obtain ⟨c, t, rfl⟩ := List.exists_cons_of_ne_nil hw
  obtain ⟨hc, hsplice⟩ := blankSize_eq_zero_iff.1 h
  refine blankSize_eq_zero_iff.2 ⟨hc, ?_⟩
  by_contra hall
  rw [beginsWithSplice_of_append hwindow hw (by simpa using hall)] at hsplice
  cases hsplice

theorem blankSize_eq_zero_of_append {s t : Text} (hs : s ≠ []) (h : blankSize (s ++ t) = 0) :
    blankSize s = 0 := by
  obtain ⟨c, s, rfl⟩ := List.exists_cons_of_ne_nil hs
  obtain ⟨hc, hsplice⟩ := blankSize_eq_zero_iff.1 h
  exact blankSize_eq_zero_iff.2 ⟨hc, beginsWithSplice_eq_false_of_append (t := t) hsplice⟩

/-- A line break is found in each window that shows it. -/
theorem longestMatch_append_of_isLineBreak {c : Char} {t u : Text}
    (hc : Text.isLineBreak c = true) (hseam : Text.Seam (c :: t) u) :
    Lexicon.longestMatch lexicon.rules (c :: t ++ u) =
      Lexicon.longestMatch lexicon.rules (c :: t) := by
  have hgap : isGap c = true := isGap_iff.2 (.inr hc)
  have hblank : ∀ r : Text, blankSize (c :: r) = 0 := by
    intro r
    rcases Text.isLineBreak_iff.1 hc with rfl | rfl <;> rfl
  refine Lexicon.longestMatch_extends (fun r hr ↦ fits_of_mem hr) (fun r hr ↦ ?_)
    (longestMatch_ne_needMore_of_isGap hgap t)
  obtain ⟨i, hi⟩ := List.getElem?_of_mem hr
  match i, hi with
  | 0, hi =>
    obtain rfl := Option.some.inj hi
    refine Scan.extends_of_eq (Scan.ofSize_ne_needMore _) ?_
    show Scan.ofSize (blankSize _) = Scan.ofSize (blankSize _)
    rw [List.cons_append, hblank, hblank]
  | 1, hi =>
    obtain rfl := Option.some.inj hi
    refine Scan.extends_of_eq (Scan.ofSize_ne_needMore _) ?_
    show Scan.ofSize (Text.lineBreakSize _) = Scan.ofSize (Text.lineBreakSize _)
    rw [Text.lineBreakSize_append (by simp) hseam]
  | j + 2, hi =>
    have hnone := scan_of_isGap hgap t hi
    exact Scan.extends_of_eq (by simp [hnone]) ((scan_of_isGap hgap (t ++ u) hi).trans hnone.symm)

/-- Where a raw string opens and is closed, more lines make no difference. -/
theorem tokenIn_append_of_opensRaw {w : Text} (hraw : opensRaw w = true)
    (hneed : ∀ k, Lexicon.longestMatch lexicon.rules w ≠ .needMore k) (u : Text) :
    tokenIn (w ++ u) = tokenIn w := by
  obtain ⟨i, n, hm, hscan, hr⟩ := (found_of_opensRaw hraw).resolve_right
    fun ⟨k, hk, _⟩ ↦ hneed k hk
  have hscan' := scanString_append_of_opensRaw hraw hscan u
  obtain ⟨-, -, hboundary⟩ := Lexicon.scan_of_longestMatch_eq_matched hm
  rcases found_of_opensRaw (opensRaw_append hraw u) with ⟨j, n', hm', hs, hr'⟩ | ⟨k, -, hs⟩
  · obtain rfl := Scan.matched.inj (hscan'.symm.trans hs)
    rw [tokenIn_of_matched hm hr, tokenIn_of_matched hm' hr',
      Lexer.cut_append_of_isBoundary hboundary]
  · cases hscan'.symm.trans hs

/-- **Where no gap, no splice and no raw string is**, more lines make no difference to a window that
has all that its rules look at, unless a longer match appears. -/
theorem longestMatch_append_of_plain {c : Char} {t u : Text} (hgap : isGap c = false)
    (hsplice : beginsWithSplice (c :: t ++ u) = false) (hraw : opensRaw (c :: t ++ u) = false)
    (hneed : ∀ p ∈ plainRules, scanPieces p.extendable p.scan (pieces (c :: t)) ≠ .needMore)
    (hjoint : Joint (c :: t) u) (hsettled : Settled (unsplice (c :: t)))
    (hno : ¬ Overruns (unsplice (c :: t)) (unsplice u)) :
    Lexicon.longestMatch lexicon.rules (c :: t ++ u) =
      Lexicon.longestMatch lexicon.rules (c :: t) := by
  have hchars : unsplice (c :: t ++ u) = unsplice (c :: t) ++ unsplice u := unsplice_append hjoint
  have hscan := hsettled.scan_append hno
  have hneed' : ∀ p ∈ plainRules,
      scanPieces p.extendable p.scan (pieces (c :: t ++ u)) ≠ .needMore := by
    intro p hp hmore
    rw [scanPieces_eq_needMore_iff, ← unsplice, hchars, hscan p hp] at hmore
    rcases hmore with hmore | ⟨he, -, hall⟩
    · exact hsettled.closed p hp hmore
    · -- A match up to the end of all characters goes up to the end of those in the window.
      obtain ⟨front, back, hfront, hsize, -, -⟩ := (plain_of_mem hp).fits _ _ hall
      have hle := congrArg Text.size hfront
      rw [Text.size_append] at hsize hle
      exact hsettled.inside p hp he (by rw [hall, Text.size_append]; congr 1; omega)
  rw [longestMatch_of_plain hgap (beginsWithSplice_eq_false_of_append hsplice)
    (opensRaw_eq_false_of_append hraw) hneed]
  rw [List.cons_append] at hsplice hraw hneed' hchars ⊢
  rw [longestMatch_of_plain hgap hsplice hraw hneed', hchars, plainMatch_append hscan]
  cases hm : plainMatch (unsplice (c :: t)) with
  | none => rfl
  | some r =>
    obtain ⟨-, -, front, back, -, -, -, hfront, hsize, -⟩ := plainMatch_spec hm
    have hboundary : Text.isBoundary r.2 (keptText (pieces (c :: t))) = true :=
      Text.isBoundary_iff.2 ⟨front, back, hfront, hsize⟩
    rw [← List.cons_append, pieces_append hjoint, Option.elim_some, Option.elim_some,
      writtenSize_append hboundary]

/-- **Where a longer match appears** a token is there before, and it has been cut short. -/
theorem isCutShortIn_of_overruns {c : Char} {t u : Text} (hgap : isGap c = false)
    (hsplice : beginsWithSplice (c :: t) = false) (hraw : opensRaw (c :: t) = false)
    (hneed : ∀ p ∈ plainRules, scanPieces p.extendable p.scan (pieces (c :: t)) ≠ .needMore)
    (hjoint : Joint (c :: t) u) (hover : Overruns (unsplice (c :: t)) (unsplice u)) :
    isCutShortIn (c :: t ++ u) (tokenIn (c :: t)) = true := by
  have hclosed : ∀ p ∈ plainRules, p.scan (unsplice (c :: t)) ≠ .needMore :=
    fun p hp hs ↦ hneed p hp (needMore_of_scan hs)
  have hfound := longestMatch_of_plain hgap hsplice hraw hneed
  cases hplain : plainMatch (unsplice (c :: t)) with
  | none =>
    obtain ⟨p, hp, hne⟩ := hover.exists_match
    exact absurd ((plainMatch_eq_none_iff hclosed).1 hplain p hp) hne
  | some r =>
    obtain ⟨i, m⟩ := r
    rw [hplain, Option.elim_some] at hfound
    obtain ⟨text, back, ht, hsize⟩ := exists_front_of_longestMatch hfound
    obtain ⟨⟨rule, hrule, -⟩, -, -⟩ := Lexicon.scan_of_longestMatch_eq_matched hfound
    obtain ⟨j, -, -, -, rfl, -⟩ := plainMatch_spec hplain
    obtain ⟨hchars, rfl⟩ := token_of_plainMatch ht hplain hsize.symm
    have htoken := tokenIn_of_matched hfound hrule
    rw [hsize, ht, Lexer.cut_size_append, ← ht] at htoken
    rw [htoken, isCutShortIn, ht, List.append_assoc, List.drop_left,
      unsplice_append (ht ▸ hjoint).suffix, isCutShort_of_overruns hover hchars hplain,
      Bool.and_true, bne_iff_ne, Ne, category_eq_whitespace_iff hrule]
    omega

/-- **More lines in sight make no difference** to the token that a window begins with, unless it is
blank or has been cut short. -/
theorem tokenIn_append {w u : Text} (hw : w ≠ []) (hwindow : Lexicon.IsWindow w u)
    (hblank : blankSize (w ++ u) = 0)
    (hneed : u ≠ [] → ∀ k, Lexicon.longestMatch lexicon.rules w ≠ .needMore k)
    (hcut : isCutShortIn (w ++ u) (tokenIn w) = false) : tokenIn (w ++ u) = tokenIn w := by
  by_cases hu : u = []
  · rw [hu, List.append_nil]
  obtain ⟨c, t, rfl⟩ := List.exists_cons_of_ne_nil hw
  obtain ⟨hc, hsplice⟩ := blankSize_eq_zero_iff.1 hblank
  cases hbreak : Text.isLineBreak c with
  | true =>
    exact tokenIn_append_of_longestMatch (longestMatch_append_of_isLineBreak hbreak hwindow.seam)
  | false =>
    have hgap : isGap c = false := by rw [isGap, hc, hbreak]; rfl
    cases hraw : opensRaw (c :: t ++ u) with
    | true => exact tokenIn_append_of_opensRaw (opensRaw_of_append hwindow hraw) (hneed hu) u
    | false =>
      have hsplice₀ := beginsWithSplice_eq_false_of_append (s := c :: t) hsplice
      have hraw₀ := opensRaw_eq_false_of_append hraw
      have hscans := ((forall_scan_rules (P := (· ≠ .needMore)) hraw₀).1
        (Lexicon.ne_needMore_of_longestMatch (hneed hu))).2.2
      have hjoint := joint_of_isWindow hwindow
      have hne : unsplice (c :: t) ≠ [] := by
        rw [unsplice, pieces_of_not_beginsWithSplice hsplice₀, keptText_cons_kept]
        simp
      have hsettled := settled_of_isWindow hwindow hu hne hscans
      refine tokenIn_append_of_longestMatch (longestMatch_append_of_plain hgap hsplice hraw hscans
        hjoint hsettled fun hover ↦ ?_)
      rw [isCutShortIn_of_overruns hgap hsplice₀ hraw₀ hscans hjoint hover] at hcut
      cases hcut

/-! ### Tokens as they are at the start of a line -/

variable {l : Lexer Kind} {x : Lexeme Kind} {xs : List (Lexeme Kind)}

/-- What token a lexeme is depends only on what its lexer has in sight. -/
theorem token?_eq_tokenIn (hl : l.lexicon = lexicon) (h : l.IsUndisturbed)
    (hxs : l.lexemes = x :: xs) : token? x = tokenIn l.seen := by
  obtain ⟨-, -, -, hreads⟩ := h.reads_seen hxs
  rw [hl] at hreads
  refine token?_of_reads hreads fun y hy ↦ ?_
  subst hy
  exact hl ▸ h.value_eq hxs

/-- A lexer has more in sight than a line that starts where it is, and sees that the token there is
cut short. -/
def SeesCutShort (l : Lexer Kind) : Bool :=
  isCutShortIn l.seen (token? (firstLexeme lexicon l.pending))

/-- The window at the start of a line is a front of what is in sight. -/
theorem exists_seen_eq (hl : l.lexicon = lexicon) (h : l.IsUndisturbed)
    (hxs : l.lexemes = x :: xs) :
    ∃ w u, l.seen = w ++ u ∧ token? (firstLexeme lexicon l.pending) = tokenIn w ∧ w ≠ [] ∧
      Lexicon.IsWindow w u ∧ (u ≠ [] → ∀ k, Lexicon.longestMatch lexicon.rules w ≠ .needMore k) ∧
      (l.window = [] → u = []) := by
  obtain ⟨hseen, hne, -, -⟩ := h.reads_seen hxs
  have h' := Lexer.isUndisturbed_atLineStart lexicon l.pending
  have hpending := Lexer.pending_atLineStart lexicon l.pending
  obtain ⟨ys, hys⟩ :=
    Lexer.exists_lexemes_atLineStart lexicon (t := l.pending) (by simp [hseen, hne])
  have htoken := token?_eq_tokenIn rfl h' hys
  have hrules : (atLineStart lexicon l.pending).lexicon.rules = l.lexicon.rules := by rw [hl]; rfl
  obtain ⟨u, hu⟩ := h.seen_prefix h' hrules hpending hxs hys rfl
  have hsame : l.window = [] → u = [] := by
    intro hw
    rw [h.seen_eq h' hrules hpending hxs hys hw rfl] at hu
    exact List.append_right_eq_self.1 hu
  obtain ⟨hseen', hne', hwindow, -⟩ := h'.reads_seen hys
  have hneed := h'.ne_needMore hys
  have hrest : (atLineStart lexicon l.pending).next.2.lines.pending =
      u ++ l.next.2.lines.pending := by
    have hall := hseen'.symm.trans (hpending.trans hseen)
    rw [← hu, List.append_assoc] at hall
    exact List.append_cancel_left hall
  rw [hrest] at hwindow hneed
  exact ⟨_, u, hu.symm, htoken, hne', hwindow.prefix_right,
    fun hne ↦ hneed (by simp [hne]), hsame⟩

/-- **A token is found as at the start of a line** exactly if its lexer does not see that it would
be cut short there. That is said of a lexer that is at the start of a line, or behind all blanks and
splices. -/
theorem token?_eq_iff (hl : l.lexicon = lexicon) (h : l.IsUndisturbed) (hxs : l.lexemes = x :: xs)
    (hblank : l.window = [] ∨ blankSize l.pending = 0) :
    token? x = token? (firstLexeme lexicon l.pending) ↔ SeesCutShort l = false := by
  obtain ⟨hseen, -, -, -⟩ := h.reads_seen hxs
  obtain ⟨w, u, hu, hfirst, hw, hwindow, hneed, hsame⟩ := exists_seen_eq hl h hxs
  have hx := token?_eq_tokenIn hl h hxs
  constructor
  · intro heq
    rw [SeesCutShort, ← heq, hx]
    exact isCutShortIn_tokenIn l.seen
  · intro hcut
    rw [SeesCutShort, hfirst, hu] at hcut
    rw [hx, hfirst, hu]
    rcases hblank with hnil | hblank
    · rw [hsame hnil, List.append_nil]
    · rw [hseen, hu] at hblank
      exact tokenIn_append hw hwindow (blankSize_eq_zero_of_append (by simp [hw]) hblank) hneed hcut

/-! ### Runs -/

/-- Behind whitespace its window goes on with no blank and no splice. -/
theorem blankSize_window (hl : l.lexicon = lexicon) (h : l.IsUndisturbed)
    (hxs : l.lexemes = x :: xs) (hx : x.terminal? = some .whitespace) :
    blankSize l.next.2.window = 0 := by
  obtain ⟨-, -, -, hreads⟩ := h.reads_seen hxs
  obtain ⟨-, hnext, -, -⟩ := Lexer.next_of_lexemes_cons hxs
  rw [hl] at hreads
  cases hreads with
  | gap _ _ _ => cases hx
  | unterminated _ _ _ => cases hx
  | @token y i r back hm ht hr hterminal =>
    obtain rfl := eq_zero_of_whitespace hr (hterminal.symm.trans (Option.some.inj hx))
    obtain ⟨⟨r', hr', hscan⟩, -, -⟩ := Lexicon.scan_of_longestMatch_eq_matched hm
    obtain rfl := Option.some.inj hr'
    obtain ⟨front, back', hfront, hsize, -, hback⟩ := blankSize_spec l.seen
    rw [Lexer.seen, hnext] at hfront
    obtain ⟨-, rfl⟩ := Text.append_inj_of_size hfront ((Scan.eq_of_ofSize hscan).trans hsize)
    exact hback

/-- **Right behind whitespace** a token is found as at the start of a line, unless its lexer sees
that it would be cut short there. -/
theorem token?_behind_whitespace {w : Lexeme Kind} (hl : l.lexicon = lexicon)
    (h : l.IsUndisturbed) (hxs : l.lexemes = w :: x :: xs)
    (hw : w.terminal? = some .whitespace) :
    token? x = token? (firstLexeme lexicon (texts (x :: xs))) ↔ SeesCutShort l.next.2 = false := by
  obtain ⟨-, -, -, -, -, h', hxs'⟩ := h.next hxs
  have hpending : texts (x :: xs) = l.next.2.pending := by rw [← hxs', h'.isRead.1.texts_eq]
  rw [hpending]
  refine token?_eq_iff ((Lexer.lexicon_next h.fed).trans hl) h' hxs' ?_
  by_cases hwindow : l.next.2.window = []
  · exact .inl hwindow
  · exact .inr (blankSize_append_eq_zero (h'.shows hwindow) hwindow (blankSize_window hl h hxs hw))

/-- A lexer hands out whitespace that ends in a splice, and sees that the token which a line that
starts there begins with would be cut short. -/
def OutrunsSplice (l : Lexer Kind) : Prop :=
  l.next.1.terminal? = some .whitespace ∧ EndsInSplice l.next.1.text ∧
    SeesCutShort l.next.2 = true

instance (l : Lexer Kind) : Decidable (OutrunsSplice l) :=
  inferInstanceAs (Decidable (_ ∧ _ ∧ _))

/-- Splices between the lexemes of a lexer are whitespace, and a token right behind a splice is the
one that a line which starts there begins with. -/
structure SplicesAreBlank (l : Lexer Kind) : Prop where
  /-- A splice where a lexeme begins is taken by a token of whitespace. -/
  whitespace : ∀ front x back, l.lexemes = front ++ x :: back →
    beginsWithSplice (texts (x :: back)) = true → IsSpliceToken x
  /-- Any other token starts where its own first character is. -/
  spans : ∀ front y back, l.lexemes = front ++ .valid y :: back → y.terminal ≠ .whitespace →
    beginsWithSplice y.text = false ∧ y.span.start = (Location.start l.unit).advance (texts front)
  /-- A token right behind a splice is found as if a line started there. -/
  afresh : ∀ front w x back, l.lexemes = front ++ w :: x :: back →
    w.terminal? = some .whitespace → EndsInSplice w.text →
    token? x = token? (firstLexeme lexicon (texts (x :: back)))

/-- Something comes behind a splice that is outrun. -/
theorem exists_cons_of_outrunsSplice (h : l.IsUndisturbed) (hxs : l.lexemes = x :: xs)
    (houtruns : OutrunsSplice l) : ∃ y ys, xs = y :: ys := by
  obtain ⟨-, -, -, -, -, h', hxs'⟩ := h.next hxs
  refine List.exists_cons_of_ne_nil fun hnil ↦ ?_
  have hpending : l.next.2.pending = [] := by
    rw [← h'.isRead.1.texts_eq, hxs', hnil]
    rfl
  have hnone : token? (firstLexeme lexicon []) = none := by decide +kernel
  have hshort := houtruns.2.2
  rw [SeesCutShort, hpending, hnone] at hshort
  cases hshort

/-- If splices are taken by whitespace and never outrun, the tokens behind them are as they are to
be. -/
theorem splicesAreBlank_of_whitespace (hl : l.lexicon = lexicon) (h : l.IsUndisturbed)
    (htiled : l.IsTiled) (hwhitespace : ∀ front x back, l.lexemes = front ++ x :: back →
      beginsWithSplice (texts (x :: back)) = true → IsSpliceToken x)
    (hnot : ∀ n < l.lexemes.length, ¬ OutrunsSplice (l.after n)) : SplicesAreBlank l where
  whitespace := hwhitespace
  spans front y back hrun hy := by
    refine ⟨?_, congrArg Span.start (Option.some.inj (htiled.span front (.valid y) back hrun))⟩
    by_contra hsplice
    have hsplice := beginsWithSplice_append (by simpa using hsplice) (texts back)
    obtain ⟨y', heq, hy', -⟩ := hwhitespace front (.valid y) back hrun hsplice
    obtain rfl := Lexeme.valid.inj heq
    exact hy hy'
  afresh front w x back hrun hw hend := by
    obtain ⟨hafter, hback⟩ := h.after hrun
    obtain ⟨-, hnext, -, -⟩ := Lexer.next_of_lexemes_cons hback
    refine (token?_behind_whitespace ((Lexer.lexicon_after h.fed _).trans hl) hafter hback hw).2 ?_
    by_contra hcut
    exact hnot front.length (by simp [hrun])
      ⟨hnext ▸ hw, hnext ▸ hend, by simpa using hcut⟩

/-- A quote that nothing closes in its line has taken the lines behind a splice. The punctuator
there shows all of its points, of which a line that starts there shows the first one. -/
example :
    let t : Text := ['\'', ' ', '\\', '\n', '.', '.', '\\', '\n', '.', '\n']
    let l := Lexer.ofDecoder lexicon {} "u" { feed := .ofBytes (Text.encode t) }
    l.lexemes.map Lexeme.text = [['\''], [' ', '\\', '\n'], ['.', '.', '\\', '\n', '.'], ['\n']] ∧
      (∀ n < l.lexemes.length, ¬ SeesPastSplice (l.after n)) ∧ OutrunsSplice (l.after 1) ∧
      (firstLexeme lexicon (l.after 2).pending).text = ['.'] := by
  decide +kernel

end LexFront.Cpp
