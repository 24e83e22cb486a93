import LexFront.CMake.Lexicon
import LexFront.Proofs.Lexer.Windows
import LexFront.Proofs.Source.Answers

/-!
# Runs under other limits

A lexer looks at its limits in few places, and a call in which no limit is reached does the same
under all limits. So two runs over one unit are compared call by call: the lexer of the one is that
of the other but for the limits (`Lexer.Withstands`), until one of them reaches a limit.

The limit on lexemes is looked at before a window is classified, and again whenever the window has
grown by a line; both times it is compared with the same count, for only lexemes are counted. What
is counted are the calls that hand out characters (`HasMore`). The failure of the source is no such
call, and behind it no window is looked at any more.

Key facts:

* `next_withLimits`: a call that classifies alike does all alike.
* `Classifies.withCount`: a limit on lexemes that is not reached is not seen.
* `hasMore_iff`: a call hands out characters exactly if such a lexeme is still to come.
* `next_of_full`: the call that reaches the limit hands out what is in sight.
* `truncates_of_run`: the limit on lexemes truncates the run, and does nothing else.
* `truncates_of_run_torn`: what is handed out then need not start where the last lexeme ended.
-/

set_option autoImplicit false

namespace LexFront

namespace Lexer

variable {T : Type} [Terminal T]

/-! ### One call -/

/-- How a window becomes a lexeme is determined. -/
theorem Classifies.eq_classify {l : Lexer T} {p : Lexeme T × Lexer T} (h : Classifies l p) :
    l.classify = p := by
  induction h with
  | full hc => rw [classify, if_pos hc]
  | unrecognized hc hm =>
    rw [classify, if_neg (Nat.not_le.2 hc)]
    simp only [hm]
  | matched hc hm hr =>
    rw [classify, if_neg (Nat.not_le.2 hc)]
    simp only [hm, hr]
  | overlong hc hm hs =>
    rw [classify, if_neg (Nat.not_le.2 hc)]
    simp only [hm, if_pos hs]
  | unterminated hc hm hs hlines =>
    rw [classify, if_neg (Nat.not_le.2 hc)]
    simp only [hm, if_neg (Nat.not_lt.2 hs)]
    split
    · next hp => rw [pull_eq_none_iff.2 hlines] at hp; cases hp
    · rfl
  | more hc hm hs hp _ ih =>
    rw [classify, if_neg (Nat.not_le.2 hc)]
    simp only [hm, if_neg (Nat.not_lt.2 hs)]
    split
    · next hp' => rw [Option.some.inj (hp'.symm.trans hp), ih]
    · next hp' => rw [hp'] at hp; cases hp

/-- A call that has a window in sight classifies it. -/
theorem Fills.next_eq {l l' : Lexer T} (h : Fills l l') (hl : l.IsFed) (live : l.IsLive) :
    l.next = l'.classify := by
  rw [next, if_neg (by simp [live.finished]), if_neg (by simp [live.halted]), fill_of_isFed hl]
  cases h with
  | window hw => rw [if_neg (by simpa using hw)]
  | line hw hp => rw [if_pos (by simpa using hw), hp]

/-- A call that has nothing left in sight ends the input. -/
theorem next_eq_exhaust {l : Lexer T} (hl : l.IsFed) (live : l.IsLive) (hw : l.window = [])
    (hlines : l.lines.lines = []) : l.next = l.exhaust := by
  rw [next, if_neg (by simp [live.finished]), if_neg (by simp [live.halted]), fill_of_isFed hl,
    if_pos (by simp [hw]), pull_eq_none_iff.2 hlines]

/-- A lexer that has characters to hand out, and is going to do so. -/
structure HasMore (l : Lexer T) : Prop where
  live : l.IsLive
  pending : l.pending ≠ []

/-- A call that does the same under other limits. -/
def Withstands (l : Lexer T) (maxLength maxCount : Nat) : Prop :=
  (l.withLimits maxLength maxCount).next =
    (l.next.1, l.next.2.withLimits maxLength maxCount)

section

variable {m n : Nat}

omit [Terminal T] in
theorem pull_withLimits {l l' : Lexer T} (h : l.pull = some l') :
    (l.withLimits m n).pull = some (l'.withLimits m n) := by
  obtain ⟨p, hn, rfl⟩ := Option.map_eq_some_iff.1 h
  exact Option.map_eq_some_iff.2 ⟨p, hn, rfl⟩

omit [Terminal T] in
theorem Fills.withLimits {l l' : Lexer T} (h : Fills l l') :
    Fills (l.withLimits m n) (l'.withLimits m n) := by
  cases h with
  | window hw => exact .window hw
  | line hw hp => exact .line hw (pull_withLimits hp)

/-- A match is handed out alike if it passes the limit on its length in the same way. -/
theorem accept_withLimits {l : Lexer T} {r : Rule T} {k : Nat}
    (h : l.maxLength = m ∨ k ≤ l.maxLength ∧ k ≤ m) :
    (l.withLimits m n).accept r k = ((l.accept r k).1, (l.accept r k).2.withLimits m n) := by
  by_cases hk : l.maxLength < k
  · have hm : l.maxLength = m := by omega
    have hk' : (l.withLimits m n).maxLength < k := hm ▸ hk
    rw [accept, accept, if_pos hk, if_pos hk', hm]
    rfl
  · have hk' : ¬ (l.withLimits m n).maxLength < k := by
      show ¬ m < k
      omega
    rw [accept, accept, if_neg hk, if_neg hk']
    rfl

/-- **A call that classifies alike does all alike**: nothing but the classification of a window
looks at a limit. -/
theorem next_withLimits {l : Lexer T} (hl : l.IsFed)
    (h : l.HasMore → ∀ l', Fills l l' → Classifies l' l.next →
      Classifies (l'.withLimits m n) (l.next.1, l.next.2.withLimits m n)) :
    l.Withstands m n := by
  have hsteps := steps_next hl
  rw [Withstands]
  generalize l.next = p at hsteps h ⊢
  have hexhaust : l.IsLive → l.window = [] → l.lines.lines = [] →
      (l.withLimits m n).next = (l.withLimits m n).exhaust :=
    fun live ↦ next_eq_exhaust (l := l.withLimits m n) hl ⟨live.finished, live.halted⟩
  have hclassify : ∀ {l'}, l.HasMore → Fills l l' → Classifies l' p →
      (l.withLimits m n).next = (p.1, p.2.withLimits m n) := by
    intro l' hmore hf hc
    have live : (l.withLimits m n).IsLive := ⟨hmore.live.finished, hmore.live.halted⟩
    exact (hf.withLimits.next_eq (l := l.withLimits m n) hl live).trans
      (h hmore l' hf hc).eq_classify
  cases hsteps with
  | finished hf => exact next_of_finished (l := l.withLimits m n) hf
  | halted hf hh => simp [next, Lexer.withLimits, hf, hh]
  | fault live hw hlines he =>
    rw [hexhaust live hw hlines, exhaust]
    simp only [Lexer.withLimits, LineStream.takeFault_of_lines_nil hlines, he]
  | exhausted live hw hlines he =>
    rw [hexhaust live hw hlines, exhaust]
    simp only [Lexer.withLimits, LineStream.takeFault_of_lines_nil hlines, he]
  | filled live hw hc => exact hclassify ⟨live, by simp [pending, hw]⟩ (.window hw) hc
  | @empty l' _ live hw hp hc =>
    refine hclassify ⟨live, ?_⟩ (.line hw hp) hc
    rw [← pending_of_pull hp]
    simp [pending, (hl.pull hp).2]

/-! ### Many calls -/

/-- Calls that are the same under other limits hand out the same lexemes, and leave the same
lexer. -/
theorem after_withLimits {l : Lexer T} {k : Nat} (h : ∀ j < k, (l.after j).Withstands m n) :
    (l.withLimits m n).handedOut k = l.handedOut k ∧
      (l.withLimits m n).after k = (l.after k).withLimits m n := by
  induction k with
  | zero => exact ⟨rfl, rfl⟩
  | succ k ih =>
    obtain ⟨hout, hafter⟩ := ih fun j hj ↦ h j (Nat.lt_succ_of_lt hj)
    have hnext := h k (Nat.lt_succ_self k)
    rw [Withstands] at hnext
    exact ⟨by rw [handedOut, handedOut, hout, hafter, hnext], by rw [after, after, hafter, hnext]⟩

/-- **A run is the same under other limits** if every call is. -/
theorem lexemes_withLimits {l : Lexer T} (h : ∀ j, (l.after j).Withstands m n) :
    (l.withLimits m n).lexemes = l.lexemes := by
  fun_induction lexemes l with
  | case1 l hend =>
    have hnext : l.Withstands m n := h 0
    rw [lexemes_eq, hnext, if_pos hend]
  | case2 l hend ih =>
    have hnext : l.Withstands m n := h 0
    rw [lexemes_eq, hnext, if_neg hend, ih fun j ↦ (after_succ l j).2 ▸ h (j + 1)]

end

/-! ### Calls that hand out characters -/

/-- What a call does that hands out characters. -/
structure Consumes (l : Lexer T) (p : Lexeme T × Lexer T) : Prop where
  ne_end : p.1 ≠ .endOfInput
  isFault : p.1.isFault = false
  total : p.2.tally.total = l.tally.total + 1
  length : p.2.pending.length < l.pending.length
  maxLength : p.2.maxLength = l.maxLength
  maxCount : p.2.maxCount = l.maxCount

theorem HasMore.consumes {l : Lexer T} (h : l.HasMore) (hl : l.IsFed) : l.Consumes l.next := by
  obtain ⟨l', hpulls, hcuts, -, -⟩ := exists_cut_of_next hl h.live h.pending
  obtain ⟨hpending, -, -, hmaxLength, hmaxCount, -, -, htotal, -⟩ := hpulls.frame
  have hleft := congrArg List.length (hcuts.pending.trans hpending)
  have hpos := List.length_pos_iff.2 hcuts.text_ne_nil
  rw [List.length_append] at hleft
  exact {
    ne_end := ne_endOfInput_of_text hcuts.text_ne_nil
    isFault := by
      rw [Bool.eq_false_iff, Ne, Lexeme.isFault_iff]
      rintro ⟨e, he⟩
      exact hcuts.text_ne_nil (text_eq_nil_of_split hl he)
    total := by rw [hcuts.total, htotal]
    length := by omega
    maxLength := hcuts.maxLength.trans hmaxLength
    maxCount := hcuts.maxCount.trans hmaxCount }

/-- No call brings characters back, and none lets a lexer go on that has come to its end. -/
theorem hasMore_of_next {l : Lexer T} (hl : l.IsFed) (h : l.next.2.HasMore) : l.HasMore := by
  refine ⟨⟨?_, ?_⟩, fun hnil ↦ h.pending ?_⟩
  · by_contra hf
    have hf : l.finished = true := by simpa using hf
    have hfinished := h.live.finished
    rw [next_of_finished hf, hf] at hfinished
    cases hfinished
  · by_contra hh
    have hh : l.halted = true := by simpa using hh
    have hhalted := h.live.halted
    rw [next] at hhalted
    split at hhalted <;> simp [hh] at hhalted
  · have happend := (text_next_append_pending hl).1
    rw [hnil] at happend
    exact (List.append_eq_nil_iff.1 happend).2

/-- The number of lexemes that are not the failure of the source. -/
def countLexemes (xs : List (Lexeme T)) : Nat := xs.countP fun x ↦ !x.isFault

theorem HasMore.countLexemes_eq {l : Lexer T} (h : l.HasMore) (hl : l.IsFed) :
    countLexemes l.lexemes = countLexemes l.next.2.lexemes + 1 := by
  have hconsumes := h.consumes hl
  rw [lexemes_of_next hconsumes.ne_end, countLexemes, List.countP_cons_of_pos]
  · rfl
  · simp [hconsumes.isFault]

/-- **A call hands out characters exactly if such a lexeme is still to come.** -/
theorem hasMore_iff {l : Lexer T} (hl : l.IsFed) : l.HasMore ↔ 0 < countLexemes l.lexemes := by
  constructor
  · intro h
    rw [h.countLexemes_eq hl]
    exact Nat.succ_pos _
  · intro h
    have live : l.IsLive := by
      by_contra live
      rw [lexemes_of_not_isLive live] at h
      cases h
    refine ⟨live, fun hnil ↦ ?_⟩
    have hexhaustion := exhaustion_lexemes live hl hnil
    generalize l.lexemes = xs, l.lines.ending = fault at hexhaustion h
    cases hexhaustion with
    | read _ => cases h
    | failed _ he => simp [countLexemes, Lexeme.isFault, he] at h

/-- What a lexer comes to after `j` calls that have handed out one lexeme each. -/
structure Progress (l : Lexer T) (j : Nat) : Prop where
  total : (l.after j).tally.total = l.tally.total + j
  count : countLexemes l.lexemes = countLexemes (l.after j).lexemes + j
  length : (l.after j).pending.length + j ≤ l.pending.length
  maxLength : (l.after j).maxLength = l.maxLength
  maxCount : (l.after j).maxCount = l.maxCount

/-- **How far a run is** at a call that hands out characters: all calls before it did so too. -/
theorem HasMore.progress {l : Lexer T} (hl : l.IsFed) {j : Nat} (h : (l.after j).HasMore) :
    l.Progress j := by
  induction j with
  | zero => exact ⟨rfl, rfl, Nat.le_refl _, rfl, rfl⟩
  | succ j ih =>
    have hmore := hasMore_of_next (hl.after j) h
    obtain ⟨htotal, hcount, hlength, hmaxLength, hmaxCount⟩ := ih hmore
    have hconsumes := hmore.consumes (hl.after j)
    have hnext := hmore.countLexemes_eq (hl.after j)
    have htotal' := hconsumes.total
    have hlength' := hconsumes.length
    constructor <;> rw [after]
    · omega
    · omega
    · omega
    · exact hconsumes.maxLength.trans hmaxLength
    · exact hconsumes.maxCount.trans hmaxCount

theorem hasMore_after_iff {l : Lexer T} (hl : l.IsFed) {j : Nat} :
    (l.after j).HasMore ↔ j < countLexemes l.lexemes := by
  refine ⟨fun h ↦ ?_, fun h ↦ ?_⟩
  · have hpos := (hasMore_iff (hl.after j)).1 h
    have hcount := (h.progress hl).count
    omega
  · induction j with
    | zero => exact (hasMore_iff hl).2 h
    | succ j ih =>
      have hmore := ih (Nat.lt_of_succ_lt h)
      have hcount := (hmore.progress hl).count
      rw [hmore.countLexemes_eq (hl.after j)] at hcount
      refine (hasMore_iff (hl.after (j + 1))).2 ?_
      rw [after]
      omega

theorem length_handedOut (l : Lexer T) (k : Nat) : (l.handedOut k).length = k := by
  induction k with
  | zero => rfl
  | succ k ih => rw [handedOut, List.length_append, ih, List.length_singleton]

/-- What is handed out before the input ends begins the run. -/
theorem lexemes_eq_append {l : Lexer T} {k : Nat} (h : ∀ j < k, (l.after j).next.1 ≠ .endOfInput) :
    l.lexemes = l.handedOut k ++ (l.after k).lexemes := by
  induction k with
  | zero => rfl
  | succ k ih =>
    rw [ih fun j hj ↦ h j (Nat.lt_succ_of_lt hj), lexemes_of_next (h k (Nat.lt_succ_self k)),
      handedOut, List.append_assoc]
    rfl

/-- A lexeme that is not the failure of the source was classified by some call. -/
theorem exists_call_of_mem {l : Lexer T} (hl : l.IsFed) {x : Lexeme T} (hx : x ∈ l.lexemes)
    (hfault : x.isFault = false) : ∃ j l', (l.after j).HasMore ∧ Fills (l.after j) l' ∧
      Classifies l' (l.after j).next ∧ (l.after j).next.1 = x := by
  obtain ⟨front, back, hxs⟩ := List.append_of_mem hx
  have hback := lexemes_after hxs
  obtain ⟨-, hnext, -, -⟩ := next_of_lexemes_cons hback
  have hmore : (l.after front.length).HasMore := by
    rw [hasMore_iff (hl.after _), hback, countLexemes, List.countP_cons_of_pos (by simp [hfault])]
    exact Nat.succ_pos _
  obtain ⟨l', hfills, hc⟩ := exists_classifies (hl.after _) hmore.live hmore.pending
  exact ⟨front.length, l', hmore, hfills, hc, hnext⟩

/-- The characters that were handed out, and those that are pending. -/
theorem texts_handedOut_append_pending {l : Lexer T} (hl : l.IsFed) (k : Nat) :
    texts (l.handedOut k) ++ (l.after k).pending = l.pending := by
  induction k with
  | zero => rfl
  | succ k ih =>
    rw [handedOut, after, texts_append, texts_cons, texts_nil, List.append_nil, List.append_assoc,
      (text_next_append_pending (hl.after k)).1, ih]

/-! ### The limit on lexemes -/

/-- **A limit on lexemes that is not reached is not seen**: neither the one that the lexer has, nor
another one. -/
theorem Classifies.withCount {l : Lexer T} {p : Lexeme T × Lexer T} (h : Classifies l p) {n : Nat}
    (hc : l.tally.total < l.maxCount) (hn : l.tally.total < n) {m : Nat} (hm : l.maxLength = m) :
    Classifies (l.withLimits m n) (p.1, p.2.withLimits m n) := by
  induction h with
  | full hfull => omega
  | unrecognized _ hlongest => exact .unrecognized hn hlongest
  | @matched l i k r _ hlongest hr =>
    rw [← accept_withLimits (.inl hm)]
    exact .matched hn hlongest hr
  | overlong _ hlongest hs =>
    subst hm
    exact .overlong hn hlongest hs
  | unterminated _ hlongest hs hlines => exact .unterminated hn hlongest (hm ▸ hs) hlines
  | more _ hlongest hs hp _ ih =>
    obtain ⟨-, -, -, hmaxLength, hmaxCount, -, -, htotal, -⟩ := (Pulls.step hp .refl).frame
    exact .more hn hlongest (hm ▸ hs) (pull_withLimits hp)
      (ih (by omega) (by omega) (hmaxLength.trans hm))

theorem Classifies.error_ne_tooManyTokens {l : Lexer T} {p : Lexeme T × Lexer T}
    (h : Classifies l p) (hc : l.tally.total < l.maxCount) (n : Nat) :
    p.1.error? ≠ some (.tooManyTokens n) := by
  induction h with
  | full hfull => omega
  | unrecognized _ _ => simp [reject, Lexeme.error?]
  | matched _ _ _ =>
    simp only [accept]
    split <;> simp [reject, Lexeme.error?]
  | overlong _ _ _ => simp [rejectAll, reject, Lexeme.error?]
  | unterminated _ _ _ _ => simp [rejectAll, reject, Lexeme.error?]
  | more _ _ _ hp _ ih =>
    obtain ⟨-, -, -, -, hmaxCount, -, -, htotal, -⟩ := (Pulls.step hp .refl).frame
    exact ih (by omega)

/-- A call that reaches neither limit. -/
theorem withstands_of_lt {l : Lexer T} (hl : l.IsFed) {n : Nat}
    (h : l.HasMore → l.tally.total < l.maxCount ∧ l.tally.total < n) {m : Nat}
    (hm : l.HasMore → l.maxLength = m) : l.Withstands m n := by
  refine next_withLimits hl fun hmore l' hfills hc ↦ ?_
  obtain ⟨-, -, -, hmaxLength, hmaxCount, -, -, htotal, -⟩ := hfills.pulls.frame
  obtain ⟨hfull, hn⟩ := h hmore
  exact hc.withCount (by omega) (by omega) (hmaxLength.trans (hm hmore))

omit [Terminal T] in
theorem rejectAll_fst (l : Lexer T) (e : LexicalError) :
    (l.rejectAll e).1 = .invalid ⟨l.window, .covering l.location l.window, e⟩ := by
  have hcut := cut_size_append l.window []
  rw [List.append_nil] at hcut
  rw [rejectAll, reject, hcut]

/-- **The call that reaches the limit** hands out what is in sight. -/
theorem next_of_full {l l' : Lexer T} (hl : l.IsFed) (live : l.IsLive) (hfills : Fills l l')
    (hfull : l.maxCount ≤ l.tally.total) :
    l.next = { l' with halted := true }.rejectAll (.tooManyTokens l.maxCount) := by
  obtain ⟨-, -, -, -, hmaxCount, -, -, htotal, -⟩ := hfills.pulls.frame
  rw [hfills.next_eq hl live, classify, if_pos (by omega), hmaxCount]

/-- So few characters are left that the lexer cannot reach its limit on lexemes. -/
def NeverFull (l : Lexer T) : Prop := l.tally.total + l.pending.length ≤ l.maxCount

theorem NeverFull.lt {l : Lexer T} (room : l.NeverFull) (hl : l.IsFed) {j : Nat}
    (h : (l.after j).HasMore) : (l.after j).tally.total < (l.after j).maxCount := by
  obtain ⟨htotal, -, hlength, -, hmaxCount⟩ := h.progress hl
  have hpos := List.length_pos_iff.2 h.pending
  rw [NeverFull] at room
  omega

/-- A call before the limit on lexemes is reached. -/
theorem NeverFull.withstands {l : Lexer T} (room : l.NeverFull) (hl : l.IsFed) {j n : Nat}
    (h : (l.after j).HasMore → l.tally.total + j < n) :
    (l.after j).Withstands l.maxLength n :=
  withstands_of_lt (hl.after j)
    (fun hmore ↦ ⟨room.lt hl hmore, (hmore.progress hl).total.symm ▸ h hmore⟩)
    fun hmore ↦ (hmore.progress hl).maxLength

/-- Then no lexeme says that there are as many as there may be. -/
theorem NeverFull.not_halts {l : Lexer T} (room : l.NeverFull) (hl : l.IsFed) :
    ¬ Halts l.lexemes := by
  rintro ⟨x, hx, n, hn⟩
  obtain ⟨j, l', hmore, hfills, hc, rfl⟩ := exists_call_of_mem hl hx
    (by rw [Bool.eq_false_iff, Ne, Lexeme.isFault_iff, hn]; nofun)
  obtain ⟨-, -, -, -, hmaxCount, -, -, htotal, -⟩ := hfills.pulls.frame
  have hlt := room.lt hl hmore
  exact hc.error_ne_tooManyTokens (by omega) n hn

/-- **A limit that a run does not reach changes nothing**, neither what it hands out nor what the
lexer is left with. -/
theorem NeverFull.run_of_le {l : Lexer T} (room : l.NeverFull) (hl : l.IsFed) {n : Nat}
    (h : l.tally.total + countLexemes l.lexemes ≤ n) :
    (l.withLimits l.maxLength n).lexemes = l.lexemes ∧
      ∀ k, (l.withLimits l.maxLength n).after k = (l.after k).withLimits l.maxLength n := by
  have hwithstands : ∀ j, (l.after j).Withstands l.maxLength n := fun j ↦
    room.withstands hl fun hmore ↦ by
      have hlt := (hasMore_after_iff hl).1 hmore
      omega
  exact ⟨lexemes_withLimits hwithstands, fun k ↦ (after_withLimits fun j _ ↦ hwithstands j).2⟩

/-- **A limit that a run reaches cuts it off.** The lexemes before it are the same, and then what is
in sight is handed out. -/
theorem NeverFull.run_of_lt {l : Lexer T} (room : l.NeverFull) (hl : l.IsFed) {k n : Nat}
    (hn : l.tally.total + k = n) (hk : k < countLexemes l.lexemes) :
    ∃ seen, Fills (l.after k) seen ∧ l.lexemes.take k = l.handedOut k ∧
      (l.withLimits l.maxLength n).lexemes = l.lexemes.take k ++
        [.invalid ⟨seen.window, .covering seen.location seen.window, .tooManyTokens n⟩] ∧
      ((l.withLimits l.maxLength n).after (k + 1)).tally = seen.tally.addInvalid := by
  have hmore : ∀ j ≤ k, (l.after j).HasMore := fun j hj ↦
    (hasMore_after_iff hl).2 (Nat.lt_of_le_of_lt hj hk)
  obtain ⟨hout, hafter⟩ := after_withLimits (l := l) (k := k) (m := l.maxLength) (n := n)
    fun j hj ↦ room.withstands hl fun _ ↦ by omega
  have hfront : l.lexemes.take k = l.handedOut k := by
    rw [lexemes_eq_append fun j hj ↦ ((hmore j (Nat.le_of_lt hj)).consumes (hl.after j)).ne_end]
    exact List.take_left' (length_handedOut l k)
  obtain ⟨seen, hfills, -⟩ :=
    exists_classifies (hl.after k) (hmore k (Nat.le_refl k)).live (hmore k (Nat.le_refl k)).pending
  have hcall : ((l.withLimits l.maxLength n).after k).next =
      { seen.withLimits l.maxLength n with halted := true }.rejectAll (.tooManyTokens n) := by
    have live := (hmore k (Nat.le_refl k)).live
    have htotal := ((hmore k (Nat.le_refl k)).progress hl).total
    rw [hafter]
    exact next_of_full (l := (l.after k).withLimits l.maxLength n) (hl.after k)
      ⟨live.finished, live.halted⟩ hfills.withLimits (by show n ≤ (l.after k).tally.total; omega)
  have hsame : ∀ j < k, ((l.withLimits l.maxLength n).after j).next.1 ≠ .endOfInput := by
    intro j hj
    have hnext : (l.after j).Withstands l.maxLength n := room.withstands hl fun _ ↦ by omega
    rw [(after_withLimits fun i hi ↦ room.withstands hl fun _ ↦ by omega).2, hnext]
    exact ((hmore j (Nat.le_of_lt hj)).consumes (hl.after j)).ne_end
  refine ⟨seen, hfills, hfront, ?_, by rw [after, hcall]; rfl⟩
  rw [lexemes_eq_append hsame, hout, hfront, lexemes_of_next (by simp [hcall, rejectAll_fst]),
    hcall, lexemes_of_not_isLive, rejectAll_fst]
  · rfl
  · exact fun live ↦ by cases live.halted

/-! ### What is in sight -/

/-- The lines that were taken are the first ones of all lines, as many as were counted. -/
def HasTaken (l : Lexer T) (lines : List Line) : Prop :=
  ∃ taken, lines = taken ++ l.lines.lines ∧ taken.length = l.tally.lines

omit [Terminal T] in
theorem HasTaken.pull {l l' : Lexer T} {lines : List Line} (h : l.HasTaken lines)
    (hp : l.pull = some l') : l'.HasTaken lines := by
  obtain ⟨taken, rfl, hlength⟩ := h
  obtain ⟨line, rest, ht, rfl⟩ := pull_eq_some hp
  exact ⟨taken ++ [line], by simp [ht.lines], by simp [hlength, Tally.addLine]⟩

theorem HasTaken.classifies {l : Lexer T} {p : Lexeme T × Lexer T} {lines : List Line}
    (h : l.HasTaken lines) (hc : Classifies l p) : p.2.HasTaken lines := by
  induction hc with
  | full _ => exact h
  | unrecognized _ _ => exact h
  | matched _ _ _ =>
    rw [accept]
    split <;> exact h
  | overlong _ _ _ => exact h
  | unterminated _ _ _ _ => exact h
  | more _ _ _ hp _ ih => exact ih (h.pull hp)

/-- **No call takes a line without counting it.** -/
theorem HasTaken.next {l : Lexer T} {lines : List Line} (h : l.HasTaken lines) (hl : l.IsFed) :
    l.next.2.HasTaken lines := by
  have hsteps := steps_next hl
  generalize l.next = p at hsteps ⊢
  cases hsteps with
  | finished _ => exact h
  | halted _ _ => exact h
  | fault _ _ _ _ => exact h
  | exhausted _ _ _ _ => exact h
  | filled _ _ hc => exact h.classifies hc
  | empty _ _ hp hc => exact (h.pull hp).classifies hc

theorem HasTaken.after {l : Lexer T} {lines : List Line} (h : l.HasTaken lines) (hl : l.IsFed)
    (k : Nat) : (l.after k).HasTaken lines := by
  induction k with
  | zero => exact h
  | succ k ih => exact ih.next (hl.after k)

omit [Terminal T] in
/-- **What is in sight** is what was taken and not yet handed out. -/
theorem HasTaken.window {l : Lexer T} {lines : List Line} (h : l.HasTaken lines) {read : Text}
    (hread : read ++ l.pending = lines.flatMap Line.raw) :
    read ++ l.window = (lines.take l.tally.lines).flatMap Line.raw := by
  obtain ⟨taken, rfl, hlength⟩ := h
  rw [pending, LineStream.pending, List.flatMap_append, ← List.append_assoc] at hread
  rw [← hlength, List.take_left]
  exact List.append_cancel_right hread

omit [Terminal T] in
/-- If nothing is in sight, the next line starts where reading what was handed out leads to. -/
theorem HasTaken.location_of_pull {l l' : Lexer T} {lines : List Line} (h : l.HasTaken lines)
    {start : Location} (hlines : ∀ front line back, lines = front ++ line :: back →
      line.location = start.advance (front.flatMap Line.raw)) {read : Text}
    (hread : read ++ l.pending = lines.flatMap Line.raw) (hw : l.window = [])
    (hp : l.pull = some l') : l'.location = start.advance read := by
  have hwindow := h.window hread
  obtain ⟨taken, htaken, hlength⟩ := h
  obtain ⟨line, rest, ht, rfl⟩ := pull_eq_some hp
  rw [hw, List.append_nil, htaken, ← hlength, List.take_left] at hwindow
  rw [ht.lines] at htaken
  simp only [hw, List.isEmpty_nil, if_true]
  rw [hlines taken line _ htaken, hwindow]

omit [Terminal T] in
/-- A line is taken exactly if nothing is in sight. -/
theorem Fills.lines {l l' : Lexer T} (h : Fills l l') :
    l'.tally.lines = l.tally.lines + if l.window.isEmpty then 1 else 0 := by
  cases h with
  | window hw => rw [if_neg (by simpa using hw), Nat.add_zero]
  | line hw hp =>
    obtain ⟨line, rest, -, rfl⟩ := pull_eq_some hp
    simp [hw, Tally.addLine]

/-- Where some lexemes end: where the last of them does. -/
def endOf (start : Location) (xs : List (Lexeme T)) : Location :=
  (xs.getLast?.bind Lexeme.span?).elim start Span.stop

/-- A lexer is where the last of its lexemes ends, as long as it hands out characters. -/
theorem location_after {l : Lexer T} (hl : l.IsFed) {k : Nat} (h : ∀ j < k, (l.after j).HasMore) :
    (l.after k).location = endOf l.location (l.handedOut k) := by
  cases k with
  | zero => rfl
  | succ k =>
    obtain ⟨l', -, hcuts, -, -⟩ := exists_cut_of_next (hl.after k) (h k (Nat.lt_succ_self k)).live
      (h k (Nat.lt_succ_self k)).pending
    rw [handedOut, endOf, List.getLast?_concat, Option.bind_some, hcuts.span, after, hcuts.location]
    rfl

/-! ### A whole unit -/

omit [Terminal T] in
/-- No more is read than the limit on the unit allows. -/
theorem size_pending_ofDecoder_le (lexicon : Lexicon T) (preferences : LexicalPreferences)
    (unit : String) (feed : Feed) (unitLimit lineLimit maxLength maxCount : Nat) :
    Text.size ((ofDecoder lexicon preferences unit { feed, limit := unitLimit }
      lineLimit).withLimits maxLength maxCount).pending ≤ unitLimit := by
  let decoder : Decoder := { feed, limit := unitLimit }
  let splitter : Splitter := { unit, decoder, limit := lineLimit }
  have hsize : 0 + Text.size decoder.text ≤ unitLimit :=
    Decoder.offset_add_size_text_le (d := decoder) ⟨rfl, rfl⟩ (Nat.zero_le unitLimit)
  have htext : decoder.text = splitter.rest.1.flatMap Line.raw ++ splitter.rest.2.decoder.text :=
    splitter.text_eq_rest rfl
  rw [htext, Text.size_append, Nat.zero_add] at hsize
  rw [(ofDecoder_spec lexicon preferences unit decoder lineLimit maxLength maxCount).1]
  exact Nat.le_trans (Nat.le_add_right _ _) hsize

/-- **The limit on lexemes truncates a run.** A limit that no unit can reach is none. If the run
under such a limit has no more lexemes than another limit allows, the failure of the source not
counted, then the run under that limit is the same in everything. If it has more, then the run under
that limit hands out as many of them, and one more: all characters that were taken and not handed
out, those of the next line if there were none. If there were some it starts where the last lexeme
before it ended. If there were none it starts with the next line, which is where reading all lexemes
before it in one go leads to. That is where the last of them ended if the lexicon keeps line breaks
whole, and need not be if it does not. Behind it the input has ended, with one lexeme more counted
than the limit allows. -/
theorem truncates_of_run (lexicon : Lexicon T) (preferences : LexicalPreferences) (unit : String)
    (feed : Feed) (unitLimit lineLimit maxLength maxCount : Nat) {unlimited : Nat}
    (hunlimited : unitLimit ≤ unlimited) :
    let decoder : Decoder := { feed, limit := unitLimit }
    let splitter : Splitter := { unit, decoder, limit := lineLimit }
    let start := ofDecoder lexicon preferences unit decoder lineLimit
    let full := start.withLimits maxLength unlimited
    let run := start.withLimits maxLength maxCount
    let front := full.lexemes.take maxCount
    let seen := (full.after maxCount).window
    ¬ Halts full.lexemes ∧
      (countLexemes full.lexemes ≤ maxCount → run.lexemes = full.lexemes ∧
        ∀ k, run.after k = (full.after k).withLimits maxLength maxCount) ∧
      (maxCount < countLexemes full.lexemes → ∃ i, run.lexemes = front ++ [.invalid i] ∧
        i.error = .tooManyTokens maxCount ∧ i.span = .covering i.span.start i.text ∧
        texts run.lexemes =
          (splitter.rest.1.take (run.after (maxCount + 1)).tally.lines).flatMap Line.raw ∧
        (run.after (maxCount + 1)).tally.lines =
          (full.after maxCount).tally.lines + (if seen.isEmpty then 1 else 0) ∧
        (seen ≠ [] → i.span.start = endOf (.start unit) front) ∧
        (seen = [] → i.span.start = (Location.start unit).advance (texts front)) ∧
        (Lexicon.KeepsBreaks lexicon.rules → i.span.start = endOf (.start unit) front) ∧
        ∀ k, run.handedOut (maxCount + 1 + k) = run.lexemes ++ List.replicate k .endOfInput ∧
          (run.after (maxCount + 1 + k)).tally.total = maxCount + 1) := by
  intro decoder splitter start full run front seen
  obtain ⟨hpending, hl, -⟩ : full.pending = splitter.rest.1.flatMap Line.raw ∧ full.IsFed ∧ _ :=
    ofDecoder_spec lexicon preferences unit decoder lineLimit maxLength unlimited
  have room : full.NeverFull := by
    have hsize : Text.size full.pending ≤ unitLimit :=
      size_pending_ofDecoder_le lexicon preferences unit feed unitLimit lineLimit _ _
    have hlength := Text.length_le_size full.pending
    show 0 + full.pending.length ≤ unlimited
    omega
  refine ⟨room.not_halts hl, fun hle ↦ room.run_of_le hl ?_, fun hlt ↦ ?_⟩
  · show 0 + countLexemes full.lexemes ≤ maxCount
    omega
  obtain ⟨last, hfills, hfront, hlexemes, htally⟩ : ∃ last, Fills (full.after maxCount) last ∧
      front = full.handedOut maxCount ∧ run.lexemes = front ++ [Lexeme.invalid
        ⟨last.window, .covering last.location last.window, .tooManyTokens maxCount⟩] ∧
      (run.after (maxCount + 1)).tally = last.tally.addInvalid :=
    room.run_of_lt hl (Nat.zero_add maxCount) hlt
  have hmore : ∀ j < maxCount, (full.after j).HasMore := fun j hj ↦
    (hasMore_after_iff hl).2 (Nat.lt_trans hj hlt)
  have hread : texts front ++ (full.after maxCount).pending =
      splitter.rest.1.flatMap Line.raw := by
    rw [hfront, texts_handedOut_append_pending hl maxCount, hpending]
  have htaken : (full.after maxCount).HasTaken splitter.rest.1 :=
    HasTaken.after ⟨[], (LineStream.lines_ofSplitter _ splitter).symm, rfl⟩ hl maxCount
  have hend : (full.after maxCount).location = endOf (.start unit) front := by
    rw [hfront, location_after hl hmore]
    exact congrArg (endOf · _) (congrArg Location.start (LineStream.unit_ofSplitter _ splitter))
  have hlines : (run.after (maxCount + 1)).tally.lines = last.tally.lines := by
    rw [htally]
    rfl
  have hlength : run.lexemes.length = maxCount + 1 := by
    rw [hlexemes, List.length_append, hfront, length_handedOut, List.length_singleton]
  refine ⟨⟨last.window, .covering last.location last.window, .tooManyTokens maxCount⟩, hlexemes,
    rfl, rfl, ?_, hlines.trans hfills.lines, fun hne ↦ ?_, fun hnil ↦ ?_, fun hbreaks ↦ ?_,
    fun k ↦ ⟨?_, ?_⟩⟩
  · rw [hlexemes, hlines, texts_append]
    have hlast : last.HasTaken splitter.rest.1 := by
      cases hfills with
      | window _ => exact htaken
      | line _ hp => exact htaken.pull hp
    rw [← hlast.window (hfills.pulls.frame.1.symm ▸ hread)]
    simp [Lexeme.text]
  · rw [← hend, ← hfills.eq_of_window hne]
    rfl
  · cases hfills with
    | window hne => exact absurd hnil hne
    | line hw hp =>
      exact htaken.location_of_pull
        (fun _ _ _ h ↦ (Splitter.locations_of_rest unit decoder lineLimit h).1) hread hw hp
  · have hlocated : full.Located [] :=
      located_ofDecoder lexicon preferences unit decoder lineLimit maxLength unlimited
    rw [← hend]
    exact ((hlocated.after hbreaks maxCount).1.pulls hfills.pulls).2.1
  · rw [← hlength]
    exact (handedOut_lexemes_add (l := run) hl k).1
  · rw [← hlength, (handedOut_lexemes_add (l := run) hl k).2.2, hlength, htally]
    obtain ⟨-, -, -, -, -, -, -, htotal, -⟩ := hfills.pulls.frame
    have hcalls := (((hasMore_after_iff hl).2 hlt).progress hl).total
    exact congrArg (· + 1) (htotal.trans (hcalls.trans (Nat.zero_add maxCount)))

/-- A limit that is reached before a bracket argument: the line that the argument begins in is
handed out, and not the argument. -/
theorem truncates_of_run_bracket :
    let feed : Feed := .ofBytes (Text.encode ['x', '\n', '[', '[', '\n', ']', ']', ' '])
    let start := ofDecoder CMake.lexicon {} "u" { feed, limit := 8 }
    let full := start.withLimits 8 8
    let run := start.withLimits 8 2
    2 < countLexemes full.lexemes ∧
      ∃ i, run.lexemes = full.lexemes.take 2 ++ [.invalid i] ∧ i.error = .tooManyTokens 2 ∧
        texts run.lexemes = ['x', '\n', '[', '[', '\n'] := by
  intro feed start full run
  have hcount : 2 < countLexemes full.lexemes := by decide +kernel
  obtain ⟨-, -, htruncates⟩ :=
    truncates_of_run CMake.lexicon {} "u" feed 8 Limits.lineLength 8 2 (Nat.le_refl 8)
  obtain ⟨i, hlexemes, herror, -⟩ := htruncates hcount
  exact ⟨hcount, i, hlexemes, herror, by decide +kernel⟩

end Lexer

/-- A lexicon that makes a token of each character, also of those of a line break. -/
def Lexicon.characters {T : Type} (kind : T) : Lexicon T where
  name := "characters"
  rules := [⟨kind, fun t ↦ .ofSize (Text.size (t.take 1)), id⟩]

/-- **A limit that is reached behind a torn line break.** The two lexemes before it end at the start
of the third line, as they count the line break twice. Nothing of the lines taken is left, so the
next line is handed out, and that is the second one. -/
theorem Lexer.truncates_of_run_torn :
    let feed : Feed := .ofBytes (Text.encode ['\r', '\n', 'x'])
    let start := ofDecoder (Lexicon.characters CMake.Kind.identifier) {} "u" { feed, limit := 3 }
    let full := start.withLimits 3 3
    let run := start.withLimits 3 2
    let front := full.lexemes.take 2
    2 < countLexemes full.lexemes ∧ (full.after 2).window = [] ∧
      endOf (.start "u") front = ⟨"u", 3, 1⟩ ∧
        run.lexemes = front ++
          [.invalid ⟨['x'], ⟨⟨"u", 2, 1⟩, ⟨"u", 2, 2⟩⟩, .tooManyTokens 2⟩] :=
  ⟨by decide +kernel, by decide +kernel, by decide +kernel, by decide +kernel⟩

end LexFront
