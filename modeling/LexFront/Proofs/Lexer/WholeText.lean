import LexFront.Proofs.Lexer.Tiling

/-!
# Lexemes of a whole text

The lexer never sees more of its unit than it must. A lexer that has all of what is left in sight at
every lexeme is easier to say: `Lexicon.lex` takes the longest match of the rest, a stretch that no
rule accounts for, or the rest as a whole if a rule finds no end in it. The two hand out the same
lexemes if the rules of the lexicon are stable and nothing of the unit passes a limit.

One call is compared with one lexeme, by the cases of `Classifies`: what is found in a window is
found in the text, and a rule that asks for more is right to do so, for what it is after goes beyond
the window. The window may then grow by a line.

Key facts:

* `append_lexeme`: the first lexeme and what follows it are the text.
* `Classifies.eq_lexeme`: a window becomes the lexeme that the text begins with.
* `lexemes_eq_lex`: a run hands out the lexemes of the whole text.
-/

set_option autoImplicit false

namespace LexFront

/-! ### The lexemes of a text -/

namespace Lexicon

variable {T : Type} [Terminal T]

/-- What a text that is not empty begins with, and what follows that. -/
def lexeme (lexicon : Lexicon T) (start : Location) (t : Text) : Lexeme T × Text :=
  match longestMatch lexicon.rules t with
  | .noMatch =>
    let (text, rest) := Lexer.cut (unrecognizedSize lexicon.rules t) t
    (.invalid ⟨text, .covering start text, .unrecognizedInput⟩, rest)
  | .matched i n =>
    match lexicon.rules[i]? with
    | some r =>
      let (text, rest) := Lexer.cut n t
      (.valid (.covering r.terminal text (r.decode text) start), rest)
    | none => (.invalid ⟨t, .covering start t, .unrecognizedInput⟩, [])
  | .needMore i =>
    let construct := (lexicon.rules[i]?).elim "" fun r ↦ Terminal.name r.terminal
    (.invalid ⟨t, .covering start t, .unterminated construct⟩, [])

/-- The first lexeme and what follows it are the text. -/
theorem append_lexeme (lexicon : Lexicon T) (start : Location) (t : Text) :
    (lexicon.lexeme start t).1.text ++ (lexicon.lexeme start t).2 = t := by
  fun_cases lexeme lexicon start t with
  | case1 _ text rest hcut =>
    have happend := Lexer.append_of_cut (unrecognizedSize lexicon.rules t) t
    rwa [hcut] at happend
  | case2 i n _ r _ text rest hcut =>
    have happend := Lexer.append_of_cut n t
    rwa [hcut] at happend
  | case3 => exact List.append_nil t
  | case4 => exact List.append_nil t

theorem lexeme_text_ne_nil (lexicon : Lexicon T) (start : Location) {t : Text} (ht : t ≠ []) :
    (lexicon.lexeme start t).1.text ≠ [] := by
  fun_cases lexeme lexicon start t with
  | case1 _ text rest hcut =>
    have hne := Lexer.cut_ne_nil (unrecognizedSize_pos lexicon.rules ht) ht
    rwa [hcut] at hne
  | case2 i n hm r _ text rest hcut =>
    have hne := Lexer.cut_ne_nil (scan_of_longestMatch_eq_matched hm).2.1 ht
    rwa [hcut] at hne
  | case3 => exact ht
  | case4 => exact ht

theorem length_lexeme_lt (lexicon : Lexicon T) (start : Location) {t : Text} (ht : t ≠ []) :
    (lexicon.lexeme start t).2.length < t.length := by
  have happend := congrArg List.length (lexicon.append_lexeme start t)
  have hpos := List.length_pos_iff.2 (lexicon.lexeme_text_ne_nil start ht)
  rw [List.length_append] at happend
  omega

/-- **The lexemes of a text**, with all of what is left of it in sight at each of them. -/
def lex (lexicon : Lexicon T) (start : Location) (t : Text) : List (Lexeme T) :=
  if _h : t = [] then []
  else
    (lexicon.lexeme start t).1 ::
      lex lexicon (start.advance (lexicon.lexeme start t).1.text) (lexicon.lexeme start t).2
termination_by t.length
decreasing_by exact lexicon.length_lexeme_lt start ‹_›

@[simp] theorem lex_nil (lexicon : Lexicon T) (start : Location) : lexicon.lex start [] = [] := by
  rw [lex, dif_pos rfl]

theorem lex_of_ne_nil (lexicon : Lexicon T) (start : Location) {t : Text} (ht : t ≠ []) :
    lexicon.lex start t = (lexicon.lexeme start t).1 ::
      lexicon.lex (start.advance (lexicon.lexeme start t).1.text) (lexicon.lexeme start t).2 := by
  rw [lex, dif_neg ht]

/-- Where the first lexeme is, and what it is not. -/
theorem lexeme_spec (lexicon : Lexicon T) (start : Location) (t : Text) :
    (lexicon.lexeme start t).1.span? = some (.covering start (lexicon.lexeme start t).1.text) ∧
      ∀ n, (lexicon.lexeme start t).1.error? ≠ some (.tooManyTokens n) := by
  fun_cases lexeme lexicon start t <;>
    simp [Lexeme.span?, Lexeme.text, Lexeme.error?, Token.covering]

/-- No lexeme is longer than the text. -/
theorem size_le_of_mem_lex {lexicon : Lexicon T} {start : Location} {t : Text} {x : Lexeme T}
    (hx : x ∈ lexicon.lex start t) : Text.size x.text ≤ Text.size t := by
  fun_induction lex lexicon start t with
  | case1 => cases hx
  | case2 start t _ ih =>
    have happend := congrArg Text.size (lexicon.append_lexeme start t)
    rw [Text.size_append] at happend
    rcases List.mem_cons.1 hx with rfl | hx
    · omega
    · have := ih hx
      omega

/-- There are no more lexemes than characters. -/
theorem length_lex_le (lexicon : Lexicon T) (start : Location) (t : Text) :
    (lexicon.lex start t).length ≤ t.length := by
  fun_induction lex lexicon start t with
  | case1 => exact Nat.le_refl 0
  | case2 start t ht ih =>
    have := lexicon.length_lexeme_lt start ht
    rw [List.length_cons]
    omega

end Lexicon

namespace Lexer

variable {T : Type}

/-! ### Windows of a lexer -/

/-- What the lexer has in sight is a window of what is pending. -/
def Shows (l : Lexer T) : Prop := l.window ≠ [] → Lexicon.IsWindow l.window l.lines.pending

/-- A line that is taken completes the window. -/
theorem IsFed.shows_pull {l l' : Lexer T} (hl : l.IsFed) (hp : l.pull = some l') : l'.Shows := by
  obtain ⟨line, lines, ht, rfl⟩ := pull_eq_some hp
  obtain ⟨n, hn⟩ := hl
  rw [ht.lines] at hn
  have hline := hn.heads
  intro _
  refine ⟨fun hv ↦ ?_, ?_⟩
  · have hne : lines.lines ≠ [] := fun h ↦ hv (by rw [LineStream.pending, h]; rfl)
    obtain ⟨b, hb, hbreak⟩ := hline.ends hne
    exact ⟨b, (Text.getLast?_append_of_ne_nil _ hline.raw_ne_nil).trans hb, hbreak⟩
  · exact (Text.seam_append_left _ hline.raw_ne_nil _).2 hline.seam

theorem Pulls.shows {l l' : Lexer T} (h : Pulls l l') (hl : l.IsFed) (hshow : l.Shows) :
    l'.Shows :=
  (h.preserves (P := fun m ↦ m.IsFed ∧ m.Shows)
    (fun _ _ hm hp ↦ ⟨(hm.1.pull hp).1, hm.1.shows_pull hp⟩) ⟨hl, hshow⟩).2

/-- What is left of a window is one. -/
theorem Cuts.shows {l : Lexer T} {p : Lexeme T × Lexer T} (h : l.Cuts p) (hshow : l.Shows) :
    p.2.Shows := by
  intro hw
  have hwindow := hshow (by rw [← h.append]; simp [hw])
  rw [← h.append] at hwindow
  rw [h.lines]
  exact hwindow.suffix hw

/-- A front of what a window and the lines behind it hold, if it lies in the window. -/
theorem cut_append_of_isBoundary {n : Nat} {w : Text} (hn : Text.isBoundary n w = true) (v : Text) :
    cut n (w ++ v) = ((cut n w).1, (cut n w).2 ++ v) := by
  obtain ⟨front, back, rfl, rfl⟩ := Text.isBoundary_iff.1 hn
  rw [List.append_assoc, cut_size_append, cut_size_append]

variable [Terminal T]

/-! ### One lexeme -/

/-- A lexeme passes no limit on its length. A stretch that is not recognized is not measured. -/
def FitsLength (maxLength : Nat) (x : Lexeme T) : Prop :=
  x.error? ≠ some .unrecognizedInput → Text.size x.text ≤ maxLength

/-- A window that a rule asks to be longer is shorter than the lexeme that it belongs to. -/
theorem Shows.size_window_le {l : Lexer T} (hshow : l.Shows) {P : Text → Prop}
    (hs : Lexicon.IsStable l.lexicon.rules P) (hw : l.window ≠ []) (hP : P l.pending) {i : Nat}
    (hm : Lexicon.longestMatch l.lexicon.rules l.window = .needMore i)
    (hlength : FitsLength l.maxLength (l.lexicon.lexeme l.location l.pending).1) :
    Text.size l.window ≤ l.maxLength := by
  have hsize : Text.size l.window ≤ Text.size l.pending := by
    rw [pending, Text.size_append]
    exact Nat.le_add_right _ _
  by_cases hv : l.lines.pending = []
  · rw [pending, hv, List.append_nil, Lexicon.lexeme, hm] at hlength
    exact hlength (by simp [Lexeme.error?])
  · obtain ⟨hne, hlt⟩ := hs.longestMatch_grows hP (hshow hw) hv hm
    rw [← pending] at hne hlt
    rw [Lexicon.lexeme] at hlength
    cases hm' : Lexicon.longestMatch l.lexicon.rules l.pending with
    | noMatch => exact absurd hm' hne
    | needMore j =>
      rw [hm'] at hlength
      exact Nat.le_trans hsize (hlength (by simp [Lexeme.error?]))
    | matched j n =>
      obtain ⟨⟨r, hr, -⟩, -, hb⟩ := Lexicon.scan_of_longestMatch_eq_matched hm'
      obtain ⟨front, back, hfront, rfl⟩ := Text.isBoundary_iff.1 hb
      rw [hm'] at hlength
      simp only [hr, hfront, cut_size_append] at hlength
      exact Nat.le_of_lt (Nat.lt_of_lt_of_le (hlt j _ hm') (hlength (by simp [Lexeme.error?])))

/-- **A window becomes the lexeme that the text begins with.** -/
theorem Classifies.eq_lexeme {l : Lexer T} {p : Lexeme T × Lexer T} (h : Classifies l p)
    {P : Text → Prop} (hs : Lexicon.IsStable l.lexicon.rules P) (hl : l.IsFed) (hw : l.window ≠ [])
    (hshow : l.Shows) (hP : P l.pending) (hcount : l.tally.total < l.maxCount)
    (hlength : FitsLength l.maxLength (l.lexicon.lexeme l.location l.pending).1) :
    p.1 = (l.lexicon.lexeme l.location l.pending).1 := by
  induction h with
  | full hc => omega
  | @unrecognized l _ hm =>
    have hwindow := hshow hw
    have hm' : Lexicon.longestMatch l.lexicon.rules l.pending = .noMatch := by
      rw [← hm]
      exact hs.longestMatch_append hP hwindow (by simp [hm])
    have hsize : Lexicon.unrecognizedSize l.lexicon.rules l.pending =
        Lexicon.unrecognizedSize l.lexicon.rules l.window :=
      hs.unrecognizedSize_append hP hwindow hm hw
    obtain ⟨front, back, hfront, hn, -⟩ := Lexicon.unrecognizedSize_spec l.lexicon.rules hm hw
    have hb : Text.isBoundary (Lexicon.unrecognizedSize l.lexicon.rules l.window) l.window = true :=
      Text.isBoundary_iff.2 ⟨front, back, hfront, hn⟩
    rw [Lexicon.lexeme, hm', hsize]
    simp only
    rw [pending, cut_append_of_isBoundary hb]
    rfl
  | @matched l i n r _ hm hr =>
    have hm' : Lexicon.longestMatch l.lexicon.rules l.pending = .matched i n := by
      rw [← hm]
      exact hs.longestMatch_append hP (hshow hw) (by simp [hm])
    obtain ⟨-, -, hb⟩ := Lexicon.scan_of_longestMatch_eq_matched hm
    rw [Lexicon.lexeme, hm'] at hlength ⊢
    simp only [hr] at hlength ⊢
    rw [pending, cut_append_of_isBoundary hb] at hlength ⊢
    have hn : n ≤ l.maxLength := by
      obtain ⟨front, back, hfront, rfl⟩ := Text.isBoundary_iff.1 hb
      rw [hfront, cut_size_append] at hlength
      exact hlength (by simp [Lexeme.error?])
    rw [accept, if_neg (Nat.not_lt.2 hn)]
  | @overlong l i _ hm hlong =>
    exact absurd (hshow.size_window_le hs hw hP hm hlength) (Nat.not_le.2 hlong)
  | @unterminated l i _ hm _ hlines =>
    have hpending : l.pending = l.window := by
      rw [pending, LineStream.pending, hlines, List.flatMap_nil, List.append_nil]
    have hcut := cut_size_append l.window []
    rw [List.append_nil] at hcut
    rw [hpending, Lexicon.lexeme, hm, rejectAll, reject, hcut]
    rfl
  | @more l l' i p _ hm hsize hp _ ih =>
    have hpulls : Pulls l l' := .step hp .refl
    have hpending := pending_of_pull hp
    obtain ⟨hl', hw'⟩ := hl.pull hp
    have hshow' := hl.shows_pull hp
    obtain ⟨line, lines, ht, rfl⟩ := pull_eq_some hp
    rw [← hpending] at hP hlength ⊢
    have hlocation : (if l.window.isEmpty then line.location else l.location) = l.location := by
      rw [if_neg (by simpa using hw)]
    rw [← hlocation] at hlength ⊢
    exact ih hs hl' hw' hshow' hP hcount hlength

/-- **A token is the longest match of the text** that is still to come, and not only of what was in
sight of it. That needs no limits: a lexeme that passes one is no token. -/
theorem Classifies.matched_of_valid {l : Lexer T} {p : Lexeme T × Lexer T} (h : Classifies l p)
    {P : Text → Prop} (hs : Lexicon.IsStable l.lexicon.rules P) (hl : l.IsFed) (hw : l.window ≠ [])
    (hshow : l.Shows) (hP : P l.pending) {t : Token T} (ht : p.1 = .valid t) :
    ∃ i r, Lexicon.longestMatch l.lexicon.rules l.pending = .matched i (Text.size t.text) ∧
      l.lexicon.rules[i]? = some r ∧ r.terminal = t.terminal ∧ t.text <+: l.pending := by
  induction h with
  | full _ => cases ht
  | unrecognized _ _ => cases ht
  | @matched l i n r _ hm hr =>
    have hm' : Lexicon.longestMatch l.lexicon.rules l.pending = .matched i n := by
      rw [← hm]
      exact hs.longestMatch_append hP (hshow hw) (by simp [hm])
    obtain ⟨-, -, hb⟩ := Lexicon.scan_of_longestMatch_eq_matched hm'
    obtain ⟨front, back, hfront, rfl⟩ := Text.isBoundary_iff.1 hb
    have hcut : (cut (Text.size front) l.window).1 = front := by
      obtain ⟨-, -, hb⟩ := Lexicon.scan_of_longestMatch_eq_matched hm
      have hpending := cut_append_of_isBoundary hb l.lines.pending
      rw [← pending, hfront, cut_size_append] at hpending
      exact (congrArg Prod.fst hpending).symm
    rw [accept] at ht
    split at ht
    · cases ht
    · obtain rfl := Lexeme.valid.inj ht
      refine ⟨i, r, ?_, hr, rfl, ?_⟩
      · simp only [Token.covering, hcut]
        exact hm'
      · simp only [Token.covering, hcut]
        exact ⟨back, hfront.symm⟩
  | overlong _ _ _ => cases ht
  | unterminated _ _ _ _ => cases ht
  | @more l l' i p _ _ _ hp _ ih =>
    have hpending := pending_of_pull hp
    obtain ⟨hl', hw'⟩ := hl.pull hp
    have hlexicon : l'.lexicon = l.lexicon := (Pulls.step hp .refl).frame.2.2.1
    have hmatched := ih (hlexicon ▸ hs) hl' hw' (hl.shows_pull hp) (hpending ▸ hP) ht
    rwa [hlexicon, hpending] at hmatched

/-! ### A whole run -/

/-- **One call hands out the first lexeme** of what is pending, and leaves what follows it. -/
theorem Located.next_eq_lexeme {l : Lexer T} {read : Text} (h : l.Located read)
    {P : Text → Prop} (hs : Lexicon.IsStable l.lexicon.rules P) (live : l.IsLive) (hshow : l.Shows)
    (hne : l.pending ≠ []) (hP : P l.pending) (hcount : l.tally.total < l.maxCount)
    (hlength : FitsLength l.maxLength (l.lexicon.lexeme l.location l.pending).1) :
    l.next.1 = (l.lexicon.lexeme l.location l.pending).1 ∧
      l.next.2.pending = (l.lexicon.lexeme l.location l.pending).2 ∧
      l.next.2.location = l.location.advance l.next.1.text ∧
      l.next.2.IsLive ∧ l.next.2.Shows ∧ l.next.2.lines.ending = l.lines.ending ∧
      l.next.2.tally.total = l.tally.total + 1 ∧ l.next.2.maxCount = l.maxCount ∧
      l.next.2.maxLength = l.maxLength := by
  have hnext : l.next.1 = (l.lexicon.lexeme l.location l.pending).1 := by
    have hsteps := steps_next h.isFed
    generalize l.next = p at hsteps ⊢
    cases hsteps with
    | finished hf => rw [live.finished] at hf; cases hf
    | halted _ hh => rw [live.halted] at hh; cases hh
    | fault _ hw hlines _ => simp [pending, LineStream.pending, hw, hlines] at hne
    | exhausted _ hw hlines _ => simp [pending, LineStream.pending, hw, hlines] at hne
    | filled _ hw hc => exact hc.eq_lexeme hs h.isFed hw hshow hP hcount hlength
    | @empty l' _ _ hw hpull hc =>
      obtain ⟨-, hlocation, -⟩ := h.pull hpull
      have hpending := pending_of_pull hpull
      have hframe := (Pulls.step hpull .refl).frame
      obtain ⟨-, -, hlexicon, hmaxLength, hmaxCount, -, -, htotal, -⟩ := hframe
      rw [← hlocation, ← hpending, ← hlexicon, ← hmaxLength] at hlength
      obtain ⟨hfed', hw'⟩ := h.isFed.pull hpull
      have heq := hc.eq_lexeme (P := P) (hlexicon ▸ hs) hfed' hw' (h.isFed.shows_pull hpull)
        (hpending ▸ hP) (by omega) hlength
      rw [heq, hlocation, hpending, hlexicon]
  obtain ⟨l', hpulls, hcuts, -, hhalted⟩ := exists_cut_of_next h.isFed live hne
  obtain ⟨hpending, -, -, hmaxLength, hmaxCount, -, hfinished, htotal, hending⟩ := hpulls.frame
  obtain ⟨-, hlocation, -⟩ := h.pulls hpulls
  refine ⟨hnext, ?_, hlocation ▸ hcuts.location, ⟨?_, ?_⟩,
    hcuts.shows (hpulls.shows h.isFed hshow), ?_, ?_, ?_, ?_⟩
  · have hleft := (hcuts.pending.trans hpending).trans
      (l.lexicon.append_lexeme l.location l.pending).symm
    rw [hnext] at hleft
    exact List.append_cancel_left hleft
  · rw [hcuts.finished, hfinished, live.finished]
  · rcases hhalted with hh | hh
    · rw [hh, live.halted]
    · rw [hnext] at hh
      exact absurd hh ((l.lexicon.lexeme_spec l.location l.pending).2 _)
  · rw [hcuts.lines, hending]
  · rw [hcuts.total, htotal]
  · rw [hcuts.maxCount, hmaxCount]
  · rw [hcuts.maxLength, hmaxLength]

/-- The token that a call hands out is the longest match of what is pending. -/
theorem Located.matched_of_valid {l : Lexer T} {read : Text} (h : l.Located read)
    {P : Text → Prop} (hs : Lexicon.IsStable l.lexicon.rules P) (hshow : l.Shows)
    (hP : P l.pending) {t : Token T} (ht : l.next.1 = .valid t) :
    ∃ i r, Lexicon.longestMatch l.lexicon.rules l.pending = .matched i (Text.size t.text) ∧
      l.lexicon.rules[i]? = some r ∧ r.terminal = t.terminal ∧ t.text <+: l.pending := by
  have hsteps := steps_next h.isFed
  generalize l.next = p at hsteps ht
  cases hsteps with
  | finished _ => cases ht
  | halted _ _ => cases ht
  | fault _ _ _ _ => cases ht
  | exhausted _ _ _ _ => cases ht
  | filled _ hw hc => exact hc.matched_of_valid hs h.isFed hw hshow hP ht
  | @empty l' _ _ hw hpull hc =>
    have hpending := pending_of_pull hpull
    have hlexicon : l'.lexicon = l.lexicon := (Pulls.step hpull .refl).frame.2.2.1
    obtain ⟨hl', hw'⟩ := h.isFed.pull hpull
    have hmatched := hc.matched_of_valid (hlexicon ▸ hs) hl' hw' (h.isFed.shows_pull hpull)
      (hpending ▸ hP) ht
    rwa [hlexicon, hpending] at hmatched

/-- The lexemes of a text pass no limit of a lexer. -/
structure Admits (maxLength maxCount : Nat) (xs : List (Lexeme T)) : Prop where
  length : ∀ x ∈ xs, FitsLength maxLength x
  count : xs.length ≤ maxCount

/-- **A run hands out the lexemes of the whole text**, if its rules are stable and no limit is
passed. -/
theorem Located.lexemes_eq_lex {l : Lexer T} {read : Text} (h : l.Located read)
    {P : Text → Prop} (hs : Lexicon.IsStable l.lexicon.rules P) (live : l.IsLive) (hshow : l.Shows)
    (hP : P l.pending) (hending : l.lines.ending = none)
    (hadmits : Admits l.maxLength (l.maxCount - l.tally.total)
      (l.lexicon.lex l.location l.pending)) :
    l.lexemes = l.lexicon.lex l.location l.pending := by
  generalize hn : l.pending.length = n
  induction n using Nat.strong_induction_on generalizing l read with
  | _ n ih =>
    by_cases hne : l.pending = []
    · rw [hne, Lexicon.lex_nil]
      obtain ⟨hw, hlines⟩ := h.isFed.lines_eq_nil hne
      have hsteps := steps_next h.isFed
      refine lexemes_of_next_end ?_
      generalize l.next = p at hsteps
      cases hsteps with
      | finished _ => rfl
      | halted _ _ => rfl
      | fault _ _ _ he => rw [hending] at he; cases he
      | exhausted _ _ _ _ => rfl
      | filled _ hw' _ => exact absurd hw hw'
      | empty _ _ hpull _ => rw [pull_eq_none_iff.2 hlines] at hpull; cases hpull
    · rw [Lexicon.lex_of_ne_nil _ _ hne] at hadmits ⊢
      have hcount := hadmits.count
      rw [List.length_cons] at hcount
      obtain ⟨hfirst, hrest, hlocation, live', hshow', hending', htotal, hmaxCount, hmaxLength⟩ :=
        h.next_eq_lexeme hs live hshow hne hP (by omega) (hadmits.length _ List.mem_cons_self)
      obtain ⟨h', htiles⟩ := h.next hs.toKeepsBreaks
      have happend := l.lexicon.append_lexeme l.location l.pending
      have hlt := l.lexicon.length_lexeme_lt l.location hne
      have hrun := ih l.next.2.pending.length (by rw [hrest, ← hn]; exact hlt) h'
        (htiles.lexicon ▸ hs) live' hshow' (hrest ▸ hs.suffix _ _ (happend.symm ▸ hP))
        (hending'.trans hending)
      rw [hrest, hlocation, htiles.lexicon, htotal, hmaxCount, hmaxLength, hfirst] at hrun
      rw [lexemes_of_next, hfirst, hrun _ rfl]
      · exact ⟨fun x hx ↦ hadmits.length x (List.mem_cons_of_mem _ hx), by omega⟩
      · intro hend
        rw [hfirst] at hend
        have hspan := (l.lexicon.lexeme_spec l.location l.pending).1
        rw [hend] at hspan
        cases hspan

omit [Terminal T] in
/-- A lexer at the start of a unit has the text of the unit before it, if that is within its
limits. -/
theorem located_of_delivers (lexicon : Lexicon T) (preferences : LexicalPreferences) (unit : String)
    {feed : Feed} {t : Text} {unitLimit lineLimit : Nat} (maxLength maxCount : Nat)
    (ht : feed.Delivers t) (hunit : Text.size t ≤ unitLimit) (hlines : t.FitsLines lineLimit) :
    let l := (ofDecoder lexicon preferences unit { feed, limit := unitLimit } lineLimit).withLimits
      maxLength maxCount
    l.Located [] ∧ l.IsLive ∧ l.Shows ∧ l.pending = t ∧ l.location = .start unit ∧
      l.lines.ending = none := by
  intro l
  let decoder : Decoder := { feed, limit := unitLimit }
  let splitter : Splitter := { unit, decoder, limit := lineLimit }
  have hread : decoder.read = (t, none) :=
    Decoder.read_eq_of_delivers ⟨rfl, rfl⟩ ht ((Nat.zero_add _).symm ▸ hunit)
  obtain ⟨hraw, hfault⟩ := Splitter.rest_of_fitsLines (s := splitter) rfl hread hlines
  obtain ⟨hpending, -, live⟩ :=
    ofDecoder_spec lexicon preferences unit decoder lineLimit maxLength maxCount
  exact ⟨located_ofDecoder lexicon preferences unit decoder lineLimit maxLength maxCount, live,
    fun h ↦ absurd rfl h, hpending.trans hraw,
    congrArg Location.start (LineStream.unit_ofSplitter _ splitter),
    (LineStream.ending_ofSplitter _ splitter).trans hfault⟩

/-- **A unit is read as one text**: its bytes in any chunks, its lines one by one. -/
theorem lexemes_of_delivers {lexicon : Lexicon T} {P : Text → Prop}
    (hs : Lexicon.IsStable lexicon.rules P) (preferences : LexicalPreferences) (unit : String)
    {feed : Feed} {t : Text} {unitLimit lineLimit maxLength maxCount : Nat} (ht : feed.Delivers t)
    (hunit : Text.size t ≤ unitLimit) (hlines : t.FitsLines lineLimit) (hP : P t)
    (hadmits : Admits maxLength maxCount (lexicon.lex (.start unit) t)) :
    ((ofDecoder lexicon preferences unit { feed, limit := unitLimit } lineLimit).withLimits
      maxLength maxCount).lexemes = lexicon.lex (.start unit) t := by
  obtain ⟨hlocated, live, hshow, hpending, hlocation, hending⟩ :=
    located_of_delivers lexicon preferences unit maxLength maxCount ht hunit hlines
  have hrun := hlocated.lexemes_eq_lex hs live hshow (hpending ▸ hP) hending
    (by rw [hpending, hlocation]; exact hadmits)
  rw [hpending, hlocation] at hrun
  exact hrun

end Lexer

end LexFront
