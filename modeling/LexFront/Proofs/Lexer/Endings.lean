import LexFront.Proofs.Lexer.Tiling

/-!
# How a run ends

Whatever its rules are, a lexer hands out tokens, and stretches of input that it gave up on, until
something ends the run. There are few ways for that: the input is used up; a construct is still open
when the lines are; the source failed; there are as many lexemes as there may be. `Ending` lists
what stands at the end of a run then, with the failure that the source has or has not.

Which lexemes may follow which is a matter of what the lexer is left with. Behind a passing lexeme
it goes on as before; behind an open construct no line and no character is left, so that only the
failure of the source can follow; behind one lexeme too many it does nothing any more.

Key facts:

* `Classifies.continues`: what the lexer is left with after a lexeme.
* `exists_ending_lexemes`: a run is passing lexemes and an ending.
* `handedOut_lexemes_add`: behind its end a run stays as it is.
* `needMore_of_unterminated`: an unterminated lexeme is all that is left, and asks for more.
* `ending_eq_none_of_valid`: where no lexeme is invalid nothing went wrong.
* `shape_of_run`: all of it for a whole unit.
-/

set_option autoImplicit false

namespace LexFront

namespace Lexeme

variable {T : Type}

/-- A lexeme behind which the lexer goes on as before: a token, or a stretch of input that no rule
accounts for or that is too long for a token. -/
inductive IsPassing : Lexeme T → Prop where
  | valid (t : Token T) : IsPassing (.valid t)
  | unrecognized {i : InvalidToken} : i.error = .unrecognizedInput → IsPassing (.invalid i)
  | overlong {i : InvalidToken} {limit : Nat} : i.error = .tokenTooLong limit →
      IsPassing (.invalid i)

/-- Whether a lexeme is the failure of the source. -/
def isFault : Lexeme T → Bool
  | .invalid i => match i.error with
    | .split _ => true
    | _ => false
  | _ => false

theorem isFault_iff {x : Lexeme T} : x.isFault = true ↔ ∃ e, x.error? = some (.split e) := by
  cases x with
  | invalid i =>
    cases h : i.error <;> simp [isFault, error?, h]
  | _ => simp [isFault, error?]

theorem IsPassing.isFault {x : Lexeme T} (h : x.IsPassing) : x.isFault = false := by
  cases h with
  | valid t => rfl
  | unrecognized h => simp [Lexeme.isFault, h]
  | overlong h => simp [Lexeme.isFault, h]

theorem IsPassing.error?_ne {x : Lexeme T} (h : x.IsPassing) (n : Nat) :
    x.error? ≠ some (.tooManyTokens n) := by
  cases h with
  | valid t => simp [error?]
  | unrecognized h => simp [error?, h]
  | overlong h => simp [error?, h]

end Lexeme

namespace Lexer

variable {T : Type}

/-- What is handed out when nothing is left of the input: the failure of the source, if it has
one. -/
inductive Exhaustion (fault : Option SplitError) : List (Lexeme T) → Prop where
  | read : fault = none → Exhaustion fault []
  | failed {i : InvalidToken} {e : SplitError} : fault = some e → i.error = .split e →
      Exhaustion fault [.invalid i]

/-- What stands at the end of a run. -/
inductive Ending (fault : Option SplitError) : List (Lexeme T) → Prop where
  /-- All of the input was classified. -/
  | exhausted {xs : List (Lexeme T)} : Exhaustion fault xs → Ending fault xs
  /-- A construct was still open behind the last line. -/
  | unterminated {i : InvalidToken} {construct : String} {xs : List (Lexeme T)} :
      i.error = .unterminated construct → Exhaustion fault xs → Ending fault (.invalid i :: xs)
  /-- The lexer stopped, whatever there was left, and whether or not the source failed. -/
  | full {i : InvalidToken} {limit : Nat} : i.error = .tooManyTokens limit →
      Ending fault [.invalid i]

/-! ### What an ending tells -/

section

variable {fault : Option SplitError} {xs : List (Lexeme T)}

theorem Exhaustion.not_halts (h : Exhaustion fault xs) : ¬ Halts xs := by
  rintro ⟨x, hx, n, hn⟩
  cases h with
  | read _ => cases hx
  | failed _ he =>
    obtain rfl := List.mem_singleton.1 hx
    simp [Lexeme.error?, he] at hn

theorem Exhaustion.countP_isFault (h : Exhaustion fault xs) :
    xs.countP Lexeme.isFault = fault.isSome.toNat := by
  cases h with
  | read hf => simp [hf]
  | failed hf he => simp [hf, Lexeme.isFault, he]

/-- **The failure of the source is in the ending**, once, unless the lexer was stopped before. -/
theorem Ending.countP_isFault (h : Ending fault xs) :
    xs.countP Lexeme.isFault ≤ 1 ∧
      (0 < xs.countP Lexeme.isFault ↔ fault.isSome = true ∧ ¬ Halts xs) := by
  cases h with
  | exhausted h =>
    have hn := h.not_halts
    rw [h.countP_isFault]
    cases fault <;> simp [hn]
  | @unterminated i construct xs hi h =>
    have hn : ¬ Halts (.invalid i :: xs) := by
      rintro ⟨x, hx, n, he⟩
      rcases List.mem_cons.1 hx with rfl | hx
      · simp [Lexeme.error?, hi] at he
      · exact h.not_halts ⟨x, hx, n, he⟩
    have hi' : (Lexeme.invalid i : Lexeme T).isFault = false := by simp [Lexeme.isFault, hi]
    rw [List.countP_cons_of_neg (by simp [hi']), h.countP_isFault]
    cases fault <;> simp [hn]
  | @full i limit hi =>
    have hh : Halts [(Lexeme.invalid i : Lexeme T)] :=
      ⟨_, List.mem_singleton_self _, limit, by rw [Lexeme.error?, hi]⟩
    simp [Lexeme.isFault, hi, hh]

theorem halts_append_of_isPassing {body tail : List (Lexeme T)}
    (h : ∀ x ∈ body, x.IsPassing) : Halts (body ++ tail) ↔ Halts tail := by
  constructor
  · rintro ⟨x, hx, n, hn⟩
    rcases List.mem_append.1 hx with hx | hx
    · exact absurd hn ((h x hx).error?_ne n)
    · exact ⟨x, hx, n, hn⟩
  · rintro ⟨x, hx, hn⟩
    exact ⟨x, List.mem_append_right _ hx, hn⟩

theorem countP_isFault_append_of_isPassing {body tail : List (Lexeme T)}
    (h : ∀ x ∈ body, x.IsPassing) :
    (body ++ tail).countP Lexeme.isFault = tail.countP Lexeme.isFault := by
  have hbody : body.countP Lexeme.isFault = 0 :=
    List.countP_eq_zero.2 fun x hx ↦ by simp [(h x hx).isFault]
  rw [List.countP_append, hbody, Nat.zero_add]

end

variable [Terminal T]

/-! ### What the lexer is left with after a lexeme -/

/-- What the lexer does behind a lexeme. -/
inductive Continues (l : Lexer T) (p : Lexeme T × Lexer T) : Prop where
  /-- It goes on. -/
  | passing : p.1.IsPassing → p.2.halted = l.halted → Continues l p
  /-- Nothing is left of its input. -/
  | unterminated {i : InvalidToken} {construct : String} : p.1 = .invalid i →
      i.error = .unterminated construct → p.2.halted = l.halted → p.2.window = [] →
      p.2.lines.lines = [] → Continues l p
  /-- It is stopped. -/
  | full {i : InvalidToken} {limit : Nat} : p.1 = .invalid i → i.error = .tooManyTokens limit →
      p.2.halted = true → Continues l p

/-- **What the lexer is left with** depends on the way in which the window became a lexeme. -/
theorem Classifies.continues {l : Lexer T} {p : Lexeme T × Lexer T} (h : Classifies l p) :
    l.Continues p := by
  induction h with
  | full _ => exact .full rfl rfl rfl
  | unrecognized _ _ => exact .passing (.unrecognized rfl) rfl
  | @matched l i n r _ _ _ =>
    refine .passing ?_ (halted_accept l r n)
    rw [accept]
    split
    · exact .overlong rfl
    · exact .valid _
  | overlong _ _ _ => exact .passing (.overlong rfl) rfl
  | unterminated _ _ _ hlines => exact .unterminated rfl rfl rfl (window_rejectAll _ _) hlines
  | @more l l' i p _ _ _ hp _ ih =>
    have hhalted : l'.halted = l.halted := (Pulls.step hp .refl).frame.2.2.2.2.2.1
    cases ih with
    | passing hx hh => exact .passing hx (hh.trans hhalted)
    | unterminated hi he hh hw hlines => exact .unterminated hi he (hh.trans hhalted) hw hlines
    | full hi he hh => exact .full hi he hh

/-- A call of a lexer that has not come to its end. -/
inductive Calls (l : Lexer T) : Lexeme T × Lexer T → Prop where
  | ended {l' : Lexer T} : l.lines.ending = none → Calls l (.endOfInput, l')
  | failed {i : InvalidToken} {e : SplitError} {l' : Lexer T} : l.lines.ending = some e →
      i.error = .split e → i.text = [] → l'.IsLive → l'.IsFed → l'.pending = [] →
      l'.lines.ending = none → Calls l (.invalid i, l')
  | lexeme {p : Lexeme T × Lexer T} : p.1.text ≠ [] → p.1.isFault = false → l.Continues p →
      p.2.finished = false → p.2.lines.ending = l.lines.ending → Calls l p

theorem IsLive.calls {l : Lexer T} (live : l.IsLive) (hl : l.IsFed) : l.Calls l.next := by
  -- Both ways to a lexeme end in a window that is classified, in the second one behind a line.
  have hlexeme : ∀ {l' : Lexer T} {p : Lexeme T × Lexer T}, Pulls l l' → l'.IsFed →
      l'.window ≠ [] → Classifies l' p → l.Calls p := by
    intro l' p hpulls hl' hw hc
    obtain ⟨-, -, -, -, -, hhalted, hfinished, -, hending⟩ := hpulls.frame
    obtain ⟨l'', hpulls', hcuts, -, -⟩ := hc.exists_cut hl' hw
    obtain ⟨-, -, -, -, -, -, hfinished', -, hending'⟩ := hpulls'.frame
    refine .lexeme hcuts.text_ne_nil ?_ ?_ ?_ ?_
    · rw [Bool.eq_false_iff, Ne, Lexeme.isFault_iff]
      rintro ⟨e, he⟩
      exact hc.error_ne_split e he
    · cases hc.continues with
      | passing hx hh => exact .passing hx (hh.trans hhalted)
      | unterminated hi he hh hw hlines => exact .unterminated hi he (hh.trans hhalted) hw hlines
      | full hi he hh => exact .full hi he hh
    · rw [hcuts.finished, hfinished', hfinished, live.finished]
    · rw [hcuts.lines, hending', hending]
  have hsteps := steps_next hl
  generalize l.next = p at hsteps ⊢
  cases hsteps with
  | finished hf => rw [live.finished] at hf; cases hf
  | halted _ hh => rw [live.halted] at hh; cases hh
  | @fault e _ hw hlines he =>
    refine .failed he rfl rfl ⟨live.finished, live.halted⟩ hl ?_ ?_
    · show l.window ++ l.lines.lines.flatMap Line.raw = []
      rw [hw, hlines]
      rfl
    · cases hs : l.lines.lookahead with
      | none => simp [LineStream.ending, hs]
      | some line => simp [LineStream.lines, hs] at hlines
  | exhausted _ _ _ he => exact .ended he
  | filled _ hw hc => exact hlexeme .refl hl hw hc
  | empty _ _ hpull hc =>
    obtain ⟨hl', hw'⟩ := hl.pull hpull
    exact hlexeme (.step hpull .refl) hl' hw' hc

/-! ### A whole run -/

theorem lexemes_of_not_isLive {l : Lexer T} (h : ¬ l.IsLive) : l.lexemes = [] := by
  apply lexemes_of_next_end
  cases hf : l.finished with
  | true => simp [next, hf]
  | false =>
    cases hh : l.halted with
    | true => simp [next, hf, hh]
    | false => exact absurd ⟨hf, hh⟩ h

theorem text_next_of_pending_nil {l : Lexer T} (hl : l.IsFed) (hp : l.pending = []) :
    l.next.1.text = [] := by
  have happend := (text_next_append_pending hl).1
  rw [hp] at happend
  exact (List.append_eq_nil_iff.1 happend).1

/-- Nothing is handed out any more when nothing is left and nothing failed. -/
theorem lexemes_of_pending_nil {l : Lexer T} (live : l.IsLive) (hl : l.IsFed)
    (hp : l.pending = []) (hending : l.lines.ending = none) : l.lexemes = [] := by
  have hcalls := live.calls hl
  have hnil := text_next_of_pending_nil hl hp
  rw [lexemes_eq]
  generalize l.next = p at hcalls hnil ⊢
  cases hcalls with
  | ended _ => rfl
  | failed he => rw [hending] at he; cases he
  | lexeme hne => exact absurd hnil hne

/-- Behind the last character there is at most the failure of the source. -/
theorem exhaustion_lexemes {l : Lexer T} (live : l.IsLive) (hl : l.IsFed)
    (hp : l.pending = []) : Exhaustion l.lines.ending l.lexemes := by
  have hcalls := live.calls hl
  have hnil := text_next_of_pending_nil hl hp
  rw [lexemes_eq]
  generalize l.next = p at hcalls hnil ⊢
  cases hcalls with
  | ended he => exact .read he
  | @failed i e l' he hi _ live' hl' hp' hending =>
    show Exhaustion l.lines.ending (.invalid i :: l'.lexemes)
    rw [lexemes_of_pending_nil live' hl' hp' hending]
    exact .failed he hi
  | lexeme hne => exact absurd hnil hne

/-- **A run is passing lexemes and an ending.** -/
theorem exists_ending_lexemes {l : Lexer T} (live : l.IsLive) (hl : l.IsFed) :
    ∃ body tail, l.lexemes = body ++ tail ∧ (∀ x ∈ body, x.IsPassing) ∧
      Ending l.lines.ending tail := by
  fun_induction lexemes l with
  | case1 l hend =>
    have hcalls := live.calls hl
    generalize l.next = p at hcalls hend
    cases hcalls with
    | ended he => exact ⟨[], [], rfl, by simp, .exhausted (.read he)⟩
    | failed => cases hend
    | lexeme hne =>
      cases hx : p.1 with
      | endOfInput => rw [hx] at hne; exact absurd rfl hne
      | _ => rw [hx] at hend; cases hend
  | case2 l hend ih =>
    have hcalls := live.calls hl
    have hl' := (text_next_append_pending hl).2
    generalize l.next = p at hcalls hend hl' ih ⊢
    cases hcalls with
    | ended _ => exact absurd rfl hend
    | @failed i e l' he hi _ live' hl' hp' hending =>
      refine ⟨[], _, rfl, by simp, ?_⟩
      rw [lexemes_of_pending_nil live' hl' hp' hending]
      exact .exhausted (.failed he hi)
    | lexeme hne _ hcontinues hfinished hending =>
      rw [← hending]
      cases hcontinues with
      | passing hx hh =>
        obtain ⟨body, tail, heq, hbody, htail⟩ := ih ⟨hfinished, hh.trans live.halted⟩ hl'
        refine ⟨p.1 :: body, tail, by rw [heq]; rfl, ?_, htail⟩
        exact List.forall_mem_cons.2 ⟨hx, hbody⟩
      | unterminated hi he hh hw hlines =>
        have hp : p.2.pending = [] := by
          rw [pending, LineStream.pending, hw, hlines]
          rfl
        refine ⟨[], _, rfl, by simp, ?_⟩
        rw [hi]
        exact .unterminated he (exhaustion_lexemes ⟨hfinished, hh.trans live.halted⟩ hl' hp)
      | full hi he hh =>
        refine ⟨[], _, rfl, by simp, ?_⟩
        rw [hi, lexemes_of_not_isLive fun live' ↦ by rw [live'.halted] at hh; cases hh]
        exact .full he

/-- **Only the failure of the source has no text.** -/
theorem text_eq_nil_iff_isFault {l : Lexer T} (hl : l.IsFed) :
    ∀ x ∈ l.lexemes, x.text = [] ↔ x.isFault = true := by
  fun_induction lexemes l with
  | case1 l _ => simp
  | case2 l hend ih =>
    have hl' := (text_next_append_pending hl).2
    refine List.forall_mem_cons.2 ⟨?_, ih hl'⟩
    by_cases live : l.IsLive
    · have hcalls := live.calls hl
      generalize l.next = p at hcalls hend ⊢
      cases hcalls with
      | ended _ => exact absurd rfl hend
      | failed _ hi htext => simp [Lexeme.text, Lexeme.isFault, hi, htext]
      | lexeme hne hfault => simp [hne, hfault]
    · have hnil := lexemes_of_not_isLive live
      rw [lexemes_eq, if_neg hend] at hnil
      cases hnil

omit [Terminal T] in
/-- Lexemes with a text are at most as many as the characters of their texts. -/
theorem length_le_length_texts {xs : List (Lexeme T)}
    (h : ∀ x ∈ xs, x.text = [] ↔ x.isFault = true) :
    xs.length ≤ (texts xs).length + xs.countP Lexeme.isFault := by
  induction xs with
  | nil => simp
  | cons x xs ih =>
    obtain ⟨hx, hxs⟩ := List.forall_mem_cons.1 h
    have hrest := ih hxs
    rw [texts_cons, List.length_cons, List.length_append, List.countP_cons]
    cases hf : x.isFault with
    | true =>
      simp only [if_true]
      omega
    | false =>
      have hpos : 0 < x.text.length := List.length_pos_iff.2 fun hnil ↦ by simp [hx.1 hnil] at hf
      simp only [Bool.false_eq_true, if_false]
      omega

/-! ### Behind the end of a run -/

theorem next_of_finished {l : Lexer T} (h : l.finished = true) : l.next = (.endOfInput, l) := by
  rw [next, if_pos h]

/-- The end of the input moves nothing and counts nothing. -/
theorem next_of_end {l : Lexer T} (hl : l.IsFed) (h : l.next.1 = .endOfInput) :
    l.next.2.finished = true ∧ l.next.2.location = l.location ∧ l.next.2.tally = l.tally := by
  have hlexeme : ∀ {l' : Lexer T} {p : Lexeme T × Lexer T}, l'.IsFed → l'.window ≠ [] →
      Classifies l' p → p.1 ≠ .endOfInput := by
    intro l' p hl' hw hc
    obtain ⟨l'', -, hcuts, -⟩ := hc.exists_cut hl' hw
    exact ne_endOfInput_of_text hcuts.text_ne_nil
  have hsteps := steps_next hl
  generalize l.next = p at hsteps h ⊢
  cases hsteps with
  | finished hf => exact ⟨hf, rfl, rfl⟩
  | halted _ _ => exact ⟨rfl, rfl, rfl⟩
  | fault _ _ _ _ => cases h
  | exhausted _ _ _ _ => exact ⟨rfl, rfl, rfl⟩
  | filled _ hw hc => exact absurd h (hlexeme hl hw hc)
  | empty _ _ hpull hc =>
    obtain ⟨hl', hw'⟩ := hl.pull hpull
    exact absurd h (hlexeme hl' hw' hc)

theorem after_of_finished {l : Lexer T} (h : l.finished = true) (n : Nat) :
    l.handedOut n = List.replicate n .endOfInput ∧ l.after n = l := by
  induction n with
  | zero => exact ⟨rfl, rfl⟩
  | succ n ih =>
    rw [handedOut, after, ih.1, ih.2, next_of_finished h]
    exact ⟨List.replicate_succ'.symm, rfl⟩

/-- Calls may also be counted from the front. -/
theorem after_succ (l : Lexer T) (n : Nat) :
    l.handedOut (n + 1) = l.next.1 :: l.next.2.handedOut n ∧
      l.after (n + 1) = l.next.2.after n := by
  induction n with
  | zero => exact ⟨rfl, rfl⟩
  | succ n ih =>
    obtain ⟨hout, hafter⟩ := ih
    constructor
    · show l.handedOut (n + 1) ++ [(l.after (n + 1)).next.1] = _
      rw [hout, hafter]
      rfl
    · show (l.after (n + 1)).next.2 = _
      rw [hafter]
      rfl

/-- **Behind its end a run stays as it is**: the input ends again and again, and neither the
location nor the counts change. -/
theorem handedOut_lexemes_add {l : Lexer T} (hl : l.IsFed) (n : Nat) :
    l.handedOut (l.lexemes.length + n) = l.lexemes ++ List.replicate n .endOfInput ∧
      (l.after (l.lexemes.length + n)).location = (l.after l.lexemes.length).location ∧
      (l.after (l.lexemes.length + n)).tally = (l.after l.lexemes.length).tally := by
  fun_induction lexemes l with
  | case1 l hend =>
    have hend : l.next.1 = .endOfInput := by
      cases hx : l.next.1 <;> simp_all [Lexeme.isEnd]
    rw [List.length_nil, Nat.zero_add, List.nil_append]
    cases n with
    | zero => exact ⟨rfl, rfl, rfl⟩
    | succ n =>
      obtain ⟨hfinished, hlocation, htally⟩ := next_of_end hl hend
      obtain ⟨hout, hafter⟩ := after_of_finished hfinished n
      rw [(after_succ l n).1, (after_succ l n).2, hout, hafter, hend]
      exact ⟨rfl, hlocation, htally⟩
  | case2 l hend ih =>
    obtain ⟨hout, hlocation, htally⟩ := ih (text_next_append_pending hl).2
    rw [List.length_cons, Nat.succ_add, (after_succ l _).1, (after_succ l _).2,
      (after_succ l _).2, hout]
    exact ⟨rfl, hlocation, htally⟩

/-! ### A lexeme and the call that handed it out -/

theorem IsFed.after {l : Lexer T} (hl : l.IsFed) (n : Nat) : (l.after n).IsFed := by
  induction n with
  | zero => exact hl
  | succ n ih => exact (text_next_append_pending ih).2

/-- **What is left of a run** is the run of the lexer after as many calls. -/
theorem lexemes_after {l : Lexer T} {front back : List (Lexeme T)}
    (h : l.lexemes = front ++ back) : (l.after front.length).lexemes = back := by
  induction front generalizing l with
  | nil => exact h
  | cons x front ih =>
    by_cases hend : l.next.1 = .endOfInput
    · rw [lexemes_of_next_end hend] at h
      cases h
    · rw [lexemes_of_next hend, List.cons_append, List.cons.injEq] at h
      rw [List.length_cons, (after_succ l _).2]
      exact ih h.2

/-- A lexeme is handed out by a lexer that has not come to its end. -/
theorem next_of_lexemes_cons {l : Lexer T} {x : Lexeme T} {xs : List (Lexeme T)}
    (h : l.lexemes = x :: xs) :
    l.IsLive ∧ l.next.1 = x ∧ x ≠ .endOfInput ∧ l.next.2.lexemes = xs := by
  by_cases hend : l.next.1 = .endOfInput
  · rw [lexemes_of_next_end hend] at h
    cases h
  · refine ⟨?_, ?_⟩
    · by_contra live
      rw [lexemes_of_not_isLive live] at h
      cases h
    · rw [lexemes_of_next hend, List.cons.injEq] at h
      exact ⟨h.1, h.1 ▸ hend, h.2⟩

theorem lexicon_next {l : Lexer T} (hl : l.IsFed) : l.next.2.lexicon = l.lexicon := by
  have hcut : ∀ {l l' : Lexer T} {p : Lexeme T × Lexer T}, Pulls l l' → l'.IsFed →
      l'.window ≠ [] → Classifies l' p → p.2.lexicon = l.lexicon := by
    intro l l' p hpulls hl' hw hc
    obtain ⟨l'', hpulls', hcuts, -, -⟩ := hc.exists_cut hl' hw
    exact hcuts.lexicon.trans (hpulls'.frame.2.2.1.trans hpulls.frame.2.2.1)
  have hsteps := steps_next hl
  generalize l.next = p at hsteps ⊢
  cases hsteps with
  | finished _ => rfl
  | halted _ _ => rfl
  | fault _ _ _ _ => rfl
  | exhausted _ _ _ _ => rfl
  | filled _ hw hc => exact hcut .refl hl hw hc
  | empty _ _ hpull hc => exact hcut (.step hpull .refl) (hl.pull hpull).1 (hl.pull hpull).2 hc

theorem lexicon_after {l : Lexer T} (hl : l.IsFed) (n : Nat) :
    (l.after n).lexicon = l.lexicon := by
  induction n with
  | zero => rfl
  | succ n ih => exact (lexicon_next (hl.after n)).trans ih

/-! ### Constructs that are still open -/

/-- Only a window for which a rule asks for more is called unterminated. -/
theorem Classifies.needMore_of_unterminated {l : Lexer T} {p : Lexeme T × Lexer T}
    (h : Classifies l p) {construct : String} (hp : p.1.error? = some (.unterminated construct)) :
    ∃ k, Lexicon.longestMatch l.lexicon.rules p.1.text = .needMore k := by
  induction h with
  | full _ => cases hp
  | unrecognized _ _ => cases hp
  | matched _ _ _ =>
    rw [accept] at hp
    split at hp <;> cases hp
  | overlong _ _ _ => cases hp
  | @unterminated l i _ hm _ _ =>
    have hcut := cut_size_append l.window []
    rw [List.append_nil] at hcut
    have htext : (l.rejectAll (.unterminated (l.construct i))).1.text = l.window :=
      congrArg Prod.fst hcut
    exact ⟨i, htext ▸ hm⟩
  | more _ _ _ hpull _ ih =>
    obtain ⟨k, hk⟩ := ih hp
    exact ⟨k, (Pulls.step hpull .refl).frame.2.2.1 ▸ hk⟩

/-- **An unterminated lexeme** is all that is left of the input, and a rule asks for more of it. -/
theorem needMore_of_unterminated {l : Lexer T} (hl : l.IsFed) {front back : List (Lexeme T)}
    {i : InvalidToken} {construct : String} (h : l.lexemes = front ++ .invalid i :: back)
    (hi : i.error = .unterminated construct) :
    (∃ k, Lexicon.longestMatch l.lexicon.rules i.text = .needMore k) ∧ texts back = [] := by
  have hl' := hl.after front.length
  rw [← lexicon_after hl front.length]
  obtain ⟨live, hnext, -, hback⟩ := next_of_lexemes_cons (lexemes_after h)
  generalize l.after front.length = m at hl' live hnext hback ⊢
  have herror : m.next.1.error? = some (.unterminated construct) := by
    rw [hnext, Lexeme.error?, hi]
  constructor
  · have hsteps := steps_next hl'
    have htext : i.text = m.next.1.text := by rw [hnext]; rfl
    rw [htext]
    generalize m.next = p at hsteps herror ⊢
    cases hsteps with
    | finished _ => cases herror
    | halted _ _ => cases herror
    | fault _ _ _ _ => cases herror
    | exhausted _ _ _ _ => cases herror
    | filled _ _ hc => exact hc.needMore_of_unterminated herror
    | empty _ _ hpull hc =>
      rw [← (Pulls.step hpull .refl).frame.2.2.1]
      exact hc.needMore_of_unterminated herror
  · have hcalls := live.calls hl'
    have hprefix := texts_prefix_pending (text_next_append_pending hl').2
    rw [hback] at hprefix
    generalize m.next = p at hcalls herror hprefix
    obtain ⟨x, m'⟩ := p
    cases hcalls with
    | ended _ => cases herror
    | failed _ he _ => simp [Lexeme.error?, he] at herror
    | lexeme _ _ hcontinues =>
      cases hcontinues with
      | passing hx _ =>
        cases hx with
        | valid _ => cases herror
        | unrecognized he => simp [Lexeme.error?, he] at herror
        | overlong he => simp [Lexeme.error?, he] at herror
      | unterminated _ _ _ hw hlines =>
        have hnil : m'.pending = [] := by
          rw [pending, LineStream.pending, hw, hlines]
          rfl
        rw [hnil] at hprefix
        exact List.prefix_nil.1 hprefix
      | full hx he _ =>
        subst hx
        simp [Lexeme.error?, he] at herror

/-! ### A run without invalid lexemes -/

omit [Terminal T] in
/-- Every lexeme of an ending is invalid. -/
theorem Ending.isInvalid {fault : Option SplitError} {xs : List (Lexeme T)}
    (h : Ending fault xs) : ∀ x ∈ xs, x.isInvalid = true := by
  have hexhaustion : ∀ {ys : List (Lexeme T)}, Exhaustion fault ys →
      ∀ y ∈ ys, y.isInvalid = true := by
    intro ys hys
    cases hys with
    | read _ => simp
    | failed _ _ => simp [Lexeme.isInvalid]
  cases h with
  | exhausted h => exact hexhaustion h
  | unterminated _ h => exact List.forall_mem_cons.2 ⟨rfl, hexhaustion h⟩
  | full _ => simp [Lexeme.isInvalid]

/-- **Where no lexeme is invalid nothing went wrong**: the source did not fail, and the lexer was
not stopped. -/
theorem ending_eq_none_of_valid {l : Lexer T} (live : l.IsLive) (hl : l.IsFed)
    (hvalid : ∀ x ∈ l.lexemes, x.isInvalid = false) :
    l.lines.ending = none ∧ ¬ Halts l.lexemes := by
  refine ⟨?_, ?_⟩
  · obtain ⟨body, tail, heq, -, htail⟩ := exists_ending_lexemes live hl
    have hnil : tail = [] := by
      refine List.eq_nil_iff_forall_not_mem.2 fun x hx ↦ ?_
      have hx' := hvalid x (by rw [heq]; exact List.mem_append_right _ hx)
      rw [htail.isInvalid x hx] at hx'
      cases hx'
    subst hnil
    generalize l.lines.ending = fault at htail
    cases htail with
    | exhausted h =>
      cases h with
      | read hf => exact hf
  · rintro ⟨x, hx, n, hn⟩
    have hx' := hvalid x hx
    cases x with
    | invalid i => cases hx'
    | _ => cases hn

/-- **Then all of the unit was read.** -/
theorem encode_texts_of_valid (lexicon : Lexicon T) (preferences : LexicalPreferences)
    (unit : String) (feed : Feed) (unitLimit lineLimit maxLength maxCount : Nat) :
    let l := (ofDecoder lexicon preferences unit { feed, limit := unitLimit } lineLimit).withLimits
      maxLength maxCount
    (∀ x ∈ l.lexemes, x.isInvalid = false) → Text.encode (texts l.lexemes) = feed.bytes := by
  intro l hvalid
  let decoder : Decoder := { feed, limit := unitLimit }
  let splitter : Splitter := { unit, decoder, limit := lineLimit }
  obtain ⟨hpending, hl, live⟩ := ofDecoder_spec lexicon preferences unit decoder lineLimit
    maxLength maxCount
  obtain ⟨hending, hhalts⟩ := ending_eq_none_of_valid live hl hvalid
  have hfault : splitter.rest.2.fault = none :=
    (LineStream.ending_ofSplitter _ splitter).symm.trans hending
  have hstops : splitter.Stops splitter.rest.1 splitter.rest.2.fault := splitter.stops_rest rfl
  obtain ⟨unread, hbytes, hunread⟩ := Decoder.bytes_eq_encode_text (d := decoder) ⟨rfl, rfl⟩
  rw [texts_eq_pending hl live hhalts, hpending]
  cases hstops with
  | read htext hnone =>
    have hdecoder : decoder.ending = none := Option.map_eq_none_iff.1 (hnone.symm.trans hfault)
    have hall : feed.bytes = Text.encode decoder.text ++ unread := hbytes
    rw [hall, hunread hdecoder, List.append_nil]
    exact congrArg Text.encode htext
  | overlong n h => rw [hfault] at h; cases h

/-- **The shape of a run.** The lexemes of a unit are passing lexemes and an ending, whatever the
lexicon, the source and the limits are. Only the failure of the source has no text; it is among the
lexemes, once, exactly if the splitter had a failure and the lexer was not stopped before. There are
at most as many other lexemes as characters that the splitter took. Behind the last lexeme the input
has ended, however often the lexer is called, and nothing changes any more. -/
theorem shape_of_run (lexicon : Lexicon T) (preferences : LexicalPreferences) (unit : String)
    (feed : Feed) (unitLimit lineLimit maxLength maxCount : Nat) :
    let splitter : Splitter :=
      { unit, decoder := { feed, limit := unitLimit }, limit := lineLimit }
    let taken := splitter.rest.1.flatMap Line.raw
    let fault := splitter.rest.2.fault
    let l := (ofDecoder lexicon preferences unit { feed, limit := unitLimit } lineLimit).withLimits
      maxLength maxCount
    let faults := l.lexemes.countP Lexeme.isFault
    (∃ body tail, l.lexemes = body ++ tail ∧ (∀ x ∈ body, x.IsPassing) ∧ Ending fault tail) ∧
      (∀ x ∈ l.lexemes, x.text = [] ↔ x.isFault = true) ∧
      faults ≤ 1 ∧ (0 < faults ↔ fault.isSome = true ∧ ¬ Halts l.lexemes) ∧
      l.lexemes.length ≤ taken.length + faults ∧
      ∀ n, l.handedOut (l.lexemes.length + n) =
          l.lexemes ++ List.replicate n .endOfInput ∧
        (l.after (l.lexemes.length + n)).location = (l.after l.lexemes.length).location ∧
        (l.after (l.lexemes.length + n)).tally = (l.after l.lexemes.length).tally := by
  intro splitter taken fault l faults
  obtain ⟨hpending, hl, live⟩ := ofDecoder_spec lexicon preferences unit
    { feed, limit := unitLimit } lineLimit maxLength maxCount
  have hfault : l.lines.ending = fault := LineStream.ending_ofSplitter _ splitter
  obtain ⟨body, tail, heq, hbody, htail⟩ := exists_ending_lexemes live hl
  have hfaults : faults = tail.countP Lexeme.isFault :=
    (congrArg (List.countP Lexeme.isFault) heq).trans (countP_isFault_append_of_isPassing hbody)
  have hhalts : Halts l.lexemes ↔ Halts tail :=
    (iff_of_eq (congrArg Halts heq)).trans (halts_append_of_isPassing hbody)
  have htext := text_eq_nil_iff_isFault hl
  have hlength := length_le_length_texts htext
  have hprefix := (texts_prefix_pending hl).length_le
  rw [hfault] at htail
  refine ⟨⟨body, tail, heq, hbody, htail⟩, htext, ?_, ?_, ?_, handedOut_lexemes_add hl⟩
  · rw [hfaults]
    exact htail.countP_isFault.1
  · rw [hfaults, hhalts]
    exact htail.countP_isFault.2
  · rw [hpending] at hprefix
    exact Nat.le_trans hlength (Nat.add_le_add_right hprefix _)

end Lexer

end LexFront
