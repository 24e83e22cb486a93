import LexFront.Proofs.Lexer.Limits

/-!
# Why lexemes are invalid

Each cause that an invalid lexeme gives is borne out by what the lexer had before it: by what its
rules found in some window, by one of its two limits, or by the failure of its source. `Fails` lists
the causes with what bears them out, for a lexicon and the two limits, which no call changes.

Key facts:

* `Classifies.fails`: a window that becomes an invalid lexeme bears out its cause.
* `fails_of_mem`: so it is for every invalid lexeme of a run.
-/

set_option autoImplicit false

namespace LexFront.Lexer

variable {T : Type} [Terminal T]

/-- What bears out the cause of an invalid lexeme: the rules, a limit, or the failure behind the
lines. -/
inductive Fails (rules : List (Rule T)) (maxLength maxCount : Nat) (fault : Option SplitError)
    (i : InvalidToken) : Prop where
  /-- No rule answered at the start of a window. -/
  | unrecognized {w : Text} : i.error = .unrecognizedInput → w ≠ [] →
      Lexicon.longestMatch rules w = .noMatch → Fails rules maxLength maxCount fault i
  /-- A rule asks for more of what is handed out. -/
  | unterminated {k : Nat} {r : Rule T} : i.error = .unterminated (Terminal.name r.terminal) →
      rules[k]? = some r → Lexicon.longestMatch rules i.text = .needMore k →
      Fails rules maxLength maxCount fault i
  | overlong : i.error = .tokenTooLong maxLength → Fails rules maxLength maxCount fault i
  | full : i.error = .tooManyTokens maxCount → Fails rules maxLength maxCount fault i
  | split {e : SplitError} : i.error = .split e → fault = some e →
      Fails rules maxLength maxCount fault i

omit [Terminal T] in
theorem text_rejectAll (l : Lexer T) (e : LexicalError) : (l.rejectAll e).1.text = l.window := by
  rw [rejectAll_fst]
  rfl

/-- **A window that becomes an invalid lexeme bears out its cause.** -/
theorem Classifies.fails {l : Lexer T} {p : Lexeme T × Lexer T} (h : Classifies l p)
    (hl : l.IsFed) (hw : l.window ≠ []) {i : InvalidToken} (hi : p.1 = .invalid i)
    (fault : Option SplitError) : Fails l.lexicon.rules l.maxLength l.maxCount fault i := by
  induction h with
  | full _ =>
    obtain rfl := Lexeme.invalid.inj hi
    exact .full rfl
  | @unrecognized l _ hm =>
    obtain rfl := Lexeme.invalid.inj hi
    exact .unrecognized rfl hw hm
  | matched _ _ _ =>
    rw [accept] at hi
    split at hi
    · obtain rfl := Lexeme.invalid.inj hi
      exact .overlong rfl
    · cases hi
  | overlong _ _ _ =>
    obtain rfl := Lexeme.invalid.inj hi
    exact .overlong rfl
  | @unterminated l k _ hm _ _ =>
    obtain ⟨r, hr, -⟩ := Lexicon.exists_needMore_of_longestMatch hm
    have htext := text_rejectAll l (.unterminated (l.construct k))
    rw [hi] at htext
    obtain rfl := Lexeme.invalid.inj hi
    refine .unterminated (k := k) (r := r) ?_ hr ?_
    · show LexicalError.unterminated (l.construct k) = _
      rw [construct, hr]
      rfl
    · show Lexicon.longestMatch l.lexicon.rules _ = _
      rw [← hm]
      exact congrArg _ htext
  | more _ _ _ hp _ ih =>
    obtain ⟨-, -, hlexicon, hmaxLength, hmaxCount, -⟩ := (Pulls.step hp .refl).frame
    obtain ⟨hl', hw'⟩ := hl.pull hp
    have hfails := ih hl' hw' hi
    rwa [hlexicon, hmaxLength, hmaxCount] at hfails

/-- The failure of the source is handed out for the one behind the lines. -/
theorem ending_of_split {l : Lexer T} (live : l.IsLive) (hl : l.IsFed) {i : InvalidToken}
    {e : SplitError} (hi : .invalid i ∈ l.lexemes) (he : i.error = .split e) :
    l.lines.ending = some e := by
  have hfault : (Lexeme.invalid i : Lexeme T).isFault = true := by
    rw [Lexeme.isFault, he]
  have hexhaustion : ∀ {xs : List (Lexeme T)}, Exhaustion l.lines.ending xs →
      .invalid i ∈ xs → l.lines.ending = some e := by
    intro xs hxs hmem
    generalize l.lines.ending = fault at hxs ⊢
    cases hxs with
    | read _ => cases hmem
    | failed hsome hsplit =>
      obtain rfl := Lexeme.invalid.inj (List.mem_singleton.1 hmem)
      rw [hsome, ← LexicalError.split.inj (hsplit.symm.trans he)]
  obtain ⟨body, tail, heq, hbody, htail⟩ := exists_ending_lexemes live hl
  rw [heq, List.mem_append] at hi
  rcases hi with hi | hi
  · rw [(hbody _ hi).isFault] at hfault
    cases hfault
  · cases htail with
    | exhausted h => exact hexhaustion h hi
    | unterminated hopen h =>
      rcases List.mem_cons.1 hi with hhead | hi
      · obtain rfl := Lexeme.invalid.inj hhead
        cases hopen.symm.trans he
      · exact hexhaustion h hi
    | full hfull =>
      obtain rfl := Lexeme.invalid.inj (List.mem_singleton.1 hi)
      cases hfull.symm.trans he

/-- **Every invalid lexeme of a run has a cause that is borne out.** -/
theorem fails_of_mem {l : Lexer T} (live : l.IsLive) (hl : l.IsFed) {i : InvalidToken}
    (hi : .invalid i ∈ l.lexemes) :
    Fails l.lexicon.rules l.maxLength l.maxCount l.lines.ending i := by
  cases hfault : (Lexeme.invalid i : Lexeme T).isFault with
  | true =>
    obtain ⟨e, he⟩ := Lexeme.isFault_iff.1 hfault
    have he : i.error = .split e := Option.some.inj he
    exact .split he (ending_of_split live hl hi he)
  | false =>
    obtain ⟨j, l', hmore, hfills, hc, hnext⟩ := exists_call_of_mem hl hi hfault
    obtain ⟨-, -, hlexicon, hmaxLength, hmaxCount, -⟩ := hfills.pulls.frame
    have hprogress := hmore.progress hl
    have hl' : l'.IsFed ∧ l'.window ≠ [] := by
      cases hfills with
      | window hw => exact ⟨hl.after j, hw⟩
      | line _ hp => exact (hl.after j).pull hp
    have hfails := hc.fails hl'.1 hl'.2 hnext l.lines.ending
    rwa [hlexicon, hmaxLength, hmaxCount, lexicon_after hl, hprogress.maxLength,
      hprogress.maxCount] at hfails

end LexFront.Lexer
