import LexFront.Proofs.Languages
import LexFront.Proofs.Lexer.Limits

/-!
# The limit on the length of tokens

Two lengths are compared with the limit: that of a match, and that of the window when a rule asks
for more. The first is the length of the token. The second is not, and to give up on a window that
is too long is right only if the token it belongs to is too long as well. It is, if the rules are
stable: what a rule finds when it has seen more goes beyond the window that it asked in, and so does
what is handed out in the end, whichever rule it is of. So a lexer gives up on a window early, and
never wrongly.

Key facts:

* `size_le_of_mem_lexemes`: no token is longer than the limit.
* `Classifies.size_window_le`: a window that grows is shorter than the lexeme that it becomes.
* `Classifies.withLength`: a limit on lengths that no lexeme passes is not seen.
* `lengths_of_run`: both for the units of CMake.
-/

set_option autoImplicit false

namespace LexFront

namespace Lexicon

variable {T : Type} [Terminal T]

theorem size_lexeme_le (lexicon : Lexicon T) (start : Location) (t : Text) :
    Text.size (lexicon.lexeme start t).1.text ≤ Text.size t := by
  have happend := congrArg Text.size (lexicon.append_lexeme start t)
  rw [Text.size_append] at happend
  omega

end Lexicon

namespace Lexer

variable {T : Type} [Terminal T]

/-! ### Tokens are not too long -/

theorem Classifies.size_le_of_valid {l : Lexer T} {p : Lexeme T × Lexer T} (h : Classifies l p)
    {t : Token T} (ht : p.1 = .valid t) : Text.size t.text ≤ l.maxLength := by
  induction h with
  | full _ => cases ht
  | unrecognized _ _ => cases ht
  | @matched l i n r _ hm _ =>
    obtain ⟨-, -, hb⟩ := Lexicon.scan_of_longestMatch_eq_matched hm
    obtain ⟨front, back, hfront, rfl⟩ := Text.isBoundary_iff.1 hb
    rw [accept] at ht
    split at ht
    · cases ht
    · next hlong =>
      obtain rfl := Lexeme.valid.inj ht
      simp only [Token.covering, hfront, cut_size_append]
      exact Nat.not_lt.1 hlong
  | overlong _ _ _ => cases ht
  | unterminated _ _ _ _ => cases ht
  | more _ _ _ hp _ ih =>
    obtain ⟨-, -, -, hmaxLength, -⟩ := (Pulls.step hp .refl).frame
    exact hmaxLength ▸ ih ht

/-- **No token is longer than the limit**, whatever the rules are. -/
theorem size_le_of_mem_lexemes {l : Lexer T} (hl : l.IsFed) {t : Token T}
    (ht : .valid t ∈ l.lexemes) : Text.size t.text ≤ l.maxLength := by
  obtain ⟨j, l', hmore, hfills, hc, hnext⟩ := exists_call_of_mem hl ht rfl
  obtain ⟨-, -, -, hmaxLength, -⟩ := hfills.pulls.frame
  have hsize := hc.size_le_of_valid hnext
  rwa [hmaxLength, (hmore.progress hl).maxLength] at hsize

/-! ### Windows that grow -/

section

variable {P : Text → Prop} {m n : Nat}

/-- Nothing that is left is too long for a token. -/
def NeverOverlong (l : Lexer T) : Prop := Text.size l.pending ≤ l.maxLength

omit [Terminal T] in
theorem NeverOverlong.size_window_le {l : Lexer T} (room : l.NeverOverlong) :
    Text.size l.window ≤ l.maxLength := by
  rw [NeverOverlong, pending, Text.size_append] at room
  omega

omit [Terminal T] in
theorem NeverOverlong.pulls {l l' : Lexer T} (room : l.NeverOverlong) (h : Pulls l l') :
    l'.NeverOverlong := by
  obtain ⟨hpending, -, -, hmaxLength, -⟩ := h.frame
  rw [NeverOverlong, hpending, hmaxLength]
  exact room

/-- **A window that grows is shorter than the lexeme that it becomes.** -/
theorem Classifies.size_window_le {l : Lexer T} {p : Lexeme T × Lexer T} (h : Classifies l p)
    (hs : Lexicon.IsStable l.lexicon.rules P) (hl : l.IsFed) (hw : l.window ≠ []) (hshow : l.Shows)
    (hP : P l.pending) (room : l.NeverOverlong) (hc : l.tally.total < l.maxCount) {i : Nat}
    (hm : Lexicon.longestMatch l.lexicon.rules l.window = .needMore i) :
    Text.size l.window ≤ Text.size p.1.text := by
  have hlexeme : p.1 = (l.lexicon.lexeme l.location l.pending).1 :=
    h.eq_lexeme hs hl hw hshow hP hc fun _ ↦
      Nat.le_trans (l.lexicon.size_lexeme_le l.location l.pending) room
  -- The lexer with the length of the lexeme for its limit would not give up on the window.
  have hfits : FitsLength (Text.size p.1.text) (l.lexicon.lexeme l.location l.pending).1 :=
    fun _ ↦ Nat.le_of_eq (congrArg (fun x ↦ Text.size (Lexeme.text x)) hlexeme.symm)
  exact Shows.size_window_le (l := l.withLimits (Text.size p.1.text) l.maxCount) hshow hs hw hP hm
    hfits

/-- **A limit on lengths that no lexeme passes is not seen.** -/
theorem Classifies.withLength {l : Lexer T} {p : Lexeme T × Lexer T} (h : Classifies l p)
    (hs : Lexicon.IsStable l.lexicon.rules P) (hl : l.IsFed) (hw : l.window ≠ []) (hshow : l.Shows)
    (hP : P l.pending) (room : l.NeverOverlong) (hm : Text.size p.1.text ≤ m)
    (hn : l.maxCount = n) : Classifies (l.withLimits m n) (p.1, p.2.withLimits m n) := by
  subst hn
  induction h with
  | full hfull => exact .full hfull
  | unrecognized hc hlongest => exact .unrecognized hc hlongest
  | @matched l i k r hc hlongest hr =>
    obtain ⟨-, -, hb⟩ := Lexicon.scan_of_longestMatch_eq_matched hlongest
    obtain ⟨front, back, hfront, rfl⟩ := Text.isBoundary_iff.1 hb
    have hwindow := room.size_window_le
    rw [(cut_accept l r _).1, hfront, cut_size_append] at hm
    rw [hfront, Text.size_append] at hwindow
    rw [← accept_withLimits (.inr ⟨Nat.le_trans (Nat.le_add_right _ _) hwindow, hm⟩)]
    exact .matched hc hlongest hr
  | overlong _ _ hlong => exact absurd room.size_window_le (Nat.not_le.2 hlong)
  | @unterminated l i hc hlongest hsize hlines =>
    rw [rejectAll_fst] at hm
    exact .unterminated hc hlongest hm hlines
  | @more l l' i p hc hlongest hsize hp hrest ih =>
    have hgrows := (Classifies.more hc hlongest hsize hp hrest).size_window_le hs hl hw hshow hP
      room hc hlongest
    obtain ⟨hl', hw'⟩ := hl.pull hp
    obtain ⟨hpending, -, hlexicon, -, hmaxCount, -⟩ := (Pulls.step hp .refl).frame
    have room' := room.pulls (.step hp .refl)
    have hrest' := ih (hlexicon ▸ hs) hl' hw' (hl.shows_pull hp) (hpending ▸ hP) room' hm
    rw [hmaxCount] at hrest'
    exact .more hc hlongest (Nat.le_trans hgrows hm) (pull_withLimits hp) hrest'

/-! ### Whole runs -/

theorem NeverOverlong.error_ne_tokenTooLong {l : Lexer T} {p : Lexeme T × Lexer T}
    (room : l.NeverOverlong) (h : Classifies l p) (limit : Nat) :
    p.1.error? ≠ some (.tokenTooLong limit) := by
  induction h with
  | full _ => simp [rejectAll, reject, Lexeme.error?]
  | unrecognized _ _ => simp [reject, Lexeme.error?]
  | @matched l i k r _ hm _ =>
    obtain ⟨-, -, hb⟩ := Lexicon.scan_of_longestMatch_eq_matched hm
    obtain ⟨front, back, hfront, rfl⟩ := Text.isBoundary_iff.1 hb
    have hwindow := room.size_window_le
    rw [hfront, Text.size_append] at hwindow
    rw [accept, if_neg (by omega)]
    simp [Lexeme.error?]
  | overlong _ _ hlong => exact absurd room.size_window_le (Nat.not_le.2 hlong)
  | unterminated _ _ _ _ => simp [rejectAll, reject, Lexeme.error?]
  | more _ _ _ hp _ ih => exact ih (room.pulls (.step hp .refl))

/-- What a call finds that hands out characters, whatever was handed out before it. -/
theorem HasMore.shows {l : Lexer T} (hl : l.IsFed) (hshow : l.Shows) {j : Nat}
    (h : (l.after j).HasMore) : (l.after j).Shows := by
  induction j with
  | zero => exact hshow
  | succ j ih =>
    have hmore := hasMore_of_next (hl.after j) h
    obtain ⟨l', hpulls, hcuts, -, -⟩ := exists_cut_of_next (hl.after j) hmore.live hmore.pending
    exact hcuts.shows (hpulls.shows (hl.after j) (ih hmore))

theorem NeverOverlong.after {l : Lexer T} (room : l.NeverOverlong) (hl : l.IsFed) {j : Nat}
    (h : (l.after j).HasMore) : (l.after j).NeverOverlong := by
  have htexts := congrArg Text.size (texts_handedOut_append_pending hl j)
  rw [Text.size_append] at htexts
  rw [NeverOverlong] at room ⊢
  rw [(h.progress hl).maxLength]
  omega

/-- If nothing can be too long, no lexeme says that it is. -/
theorem NeverOverlong.not_tokenTooLong {l : Lexer T} (room : l.NeverOverlong) (hl : l.IsFed) :
    ∀ x ∈ l.lexemes, ∀ limit, x.error? ≠ some (.tokenTooLong limit) := by
  intro x hx limit he
  obtain ⟨j, l', hmore, hfills, hc, rfl⟩ := exists_call_of_mem hl hx
    (by rw [Bool.eq_false_iff, Ne, Lexeme.isFault_iff, he]; nofun)
  exact ((room.after hl hmore).pulls hfills.pulls).error_ne_tokenTooLong hc limit he

/-- **A limit on lengths that no lexeme of a run passes changes nothing**, neither what the run
hands out nor what the lexer is left with. -/
theorem NeverOverlong.run_of_le {l : Lexer T} (room : l.NeverOverlong) (hl : l.IsFed)
    (hshow : l.Shows) (hs : Lexicon.IsStable l.lexicon.rules P) (hP : P l.pending)
    (hm : ∀ x ∈ l.lexemes, Text.size x.text ≤ m) :
    (l.withLimits m l.maxCount).lexemes = l.lexemes ∧
      ∀ k, (l.withLimits m l.maxCount).after k = (l.after k).withLimits m l.maxCount := by
  have hwithstands : ∀ j, (l.after j).Withstands m l.maxCount := fun j ↦ by
    refine next_withLimits (hl.after j) fun hmore l' hfills hc ↦ ?_
    obtain ⟨hl', hw', hshow'⟩ := hfills.spec (hl.after j) (hmore.shows hl hshow)
    obtain ⟨hpending, -, hlexicon, -, hmaxCount, -⟩ := hfills.pulls.frame
    have room' : l'.NeverOverlong := (room.after hl hmore).pulls hfills.pulls
    have hlexemes : l.lexemes = l.handedOut j ++ (l.after j).lexemes := by
      refine lexemes_eq_append fun i hi ↦ ?_
      have hlt := (hasMore_after_iff hl).1 hmore
      exact (((hasMore_after_iff hl).2 (Nat.lt_trans hi hlt)).consumes (hl.after i)).ne_end
    have hmem : (l.after j).next.1 ∈ l.lexemes := by
      rw [hlexemes, lexemes_of_next (hmore.consumes (hl.after j)).ne_end]
      exact List.mem_append_right _ List.mem_cons_self
    have hsuffix := texts_handedOut_append_pending hl j
    have hstable : Lexicon.IsStable l'.lexicon.rules P := by
      rw [hlexicon, lexicon_after hl j]
      exact hs
    exact hc.withLength hstable hl' hw' hshow' (hpending ▸ hs.suffix _ _ (hsuffix ▸ hP)) room'
      (hm _ hmem) (hmaxCount.trans (hmore.progress hl).maxCount)
  exact ⟨lexemes_withLimits hwithstands, fun k ↦ (after_withLimits fun j _ ↦ hwithstands j).2⟩

end

/-- **The limit on lengths is sound, and not too strict.** No token of a CMake unit is longer than
the limit. A limit that no unit can reach is none, for no lexeme of a run under it says that it is
too long. If no lexeme of that run is longer than another limit, the run under that limit is the
same in everything, although the lexer measures windows before it knows what they become. -/
theorem lengths_of_run (preferences : LexicalPreferences) (unit : String) (feed : Feed)
    (unitLimit lineLimit maxLength maxCount : Nat) {unlimited : Nat}
    (hunlimited : unitLimit ≤ unlimited) :
    let start := ofDecoder CMake.lexicon preferences unit { feed, limit := unitLimit } lineLimit
    let full := start.withLimits unlimited maxCount
    let run := start.withLimits maxLength maxCount
    (∀ t, .valid t ∈ run.lexemes → Text.size t.text ≤ maxLength) ∧
      (∀ x ∈ full.lexemes, ∀ limit, x.error? ≠ some (.tokenTooLong limit)) ∧
      ((∀ x ∈ full.lexemes, Text.size x.text ≤ maxLength) → run.lexemes = full.lexemes ∧
        ∀ k, run.after k = (full.after k).withLimits maxLength maxCount) := by
  intro start full run
  obtain ⟨-, hl, -⟩ := ofDecoder_spec CMake.lexicon preferences unit { feed, limit := unitLimit }
    lineLimit unlimited maxCount
  have hsize := size_pending_ofDecoder_le CMake.lexicon preferences unit feed unitLimit lineLimit
  have room : full.NeverOverlong := Nat.le_trans (hsize unlimited maxCount) hunlimited
  exact ⟨fun t ht ↦ size_le_of_mem_lexemes (l := run) hl ht, room.not_tokenTooLong hl,
    room.run_of_le hl (fun h ↦ absurd rfl h) CMake.isStable trivial⟩

/-- A quoted argument of two lines, and the longest limit that it would pass. -/
theorem lengths_of_run_quoted :
    let feed : Feed := .ofBytes (Text.encode ['"', 'x', '\n', 'y', '"', ' ', 'z'])
    let start := ofDecoder CMake.lexicon {} "u" { feed, limit := 7 }
    let full := start.withLimits 7 9
    (start.withLimits 5 9).lexemes = full.lexemes ∧
      (start.withLimits 4 9).lexemes ≠ full.lexemes := by
  intro feed start full
  obtain ⟨-, -, hsame⟩ :=
    lengths_of_run {} "u" feed 7 Limits.lineLength 5 9 (Nat.le_refl 7)
  exact ⟨(hsame (by decide +kernel)).1, by decide +kernel⟩

end Lexer

end LexFront
