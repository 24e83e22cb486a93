import LexFront.Proofs.Lexer.Windows

/-!
# Tokens that are found wherever they are in sight

Some tokens are settled by themselves and by what follows them: a window that has all of such a
token in it finds it, and a window that has less asks for more. The lexer takes lines until it has
the token, and a limit that the token is within is not passed on the way. So it is handed out,
whatever the windows are and however the source was split into them.

Key facts:

* `Classifies.fst_of_sights`: a window that has such a token before it becomes that token.
* `next_of_sights`: a call that has it before it hands it out, and leaves what follows it.
-/

set_option autoImplicit false

namespace LexFront.Lexer

variable {T : Type}

/-- What the rules find of a token `w` in a window: all of it, or that there must be more. -/
inductive Sights (rules : List (Rule T)) (kind : T) (w value : Text) (window : Text) : Prop where
  | whole {i : Nat} {r : Rule T} {back : Text} : window = w ++ back →
      Lexicon.longestMatch rules window = .matched i (Text.size w) → rules[i]? = some r →
      r.terminal = kind → r.decode w = value → Sights rules kind w value window
  | part {i : Nat} : Text.size window < Text.size w →
      Lexicon.longestMatch rules window = .needMore i → Sights rules kind w value window

/-- Every window of the text finds the token, or asks for more of it. -/
def IsSighted (rules : List (Rule T)) (kind : T) (w value t : Text) : Prop :=
  ∀ u v, u ≠ [] → Lexicon.IsWindow u v → u ++ v = t → Sights rules kind w value u

variable [Terminal T]

/-- **The lexer takes lines until it has all of the token**, and hands it out. -/
theorem Classifies.fst_of_sights {l : Lexer T} {p : Lexeme T × Lexer T} (h : Classifies l p)
    (hl : l.IsFed) (hw : l.window ≠ []) (hshow : l.Shows) {kind : T} {w value r : Text}
    (hsighted : IsSighted l.lexicon.rules kind w value (w ++ r)) (hpending : l.pending = w ++ r)
    (hlength : Text.size w ≤ l.maxLength) (hcount : l.tally.total < l.maxCount) :
    p.1 = .valid (.covering kind w value l.location) := by
  induction h with
  | full hfull => exact absurd hcount (Nat.not_lt.2 hfull)
  | unrecognized _ hm =>
    rcases hsighted _ _ hw (hshow hw) hpending with ⟨-, hm', -⟩ | ⟨-, hm'⟩ <;>
      cases hm'.symm.trans hm
  | matched _ hm hr =>
    rcases hsighted _ _ hw (hshow hw) hpending with ⟨hwindow, hm', hr', rfl, rfl⟩ | ⟨-, hm'⟩
    · obtain ⟨rfl, rfl⟩ := Match.matched.inj (hm'.symm.trans hm)
      obtain rfl := Option.some.inj (hr'.symm.trans hr)
      rw [accept, if_neg (Nat.not_lt.2 hlength), hwindow, cut_size_append]
    · cases hm'.symm.trans hm
  | overlong _ hm hlong =>
    rcases hsighted _ _ hw (hshow hw) hpending with ⟨-, hm', -⟩ | ⟨hlt, -⟩
    · cases hm'.symm.trans hm
    · omega
  | unterminated _ hm _ hlines =>
    rcases hsighted _ _ hw (hshow hw) hpending with ⟨-, hm', -⟩ | ⟨hlt, -⟩
    · cases hm'.symm.trans hm
    · -- All that is left is in the window, and the token is in what is left.
      have hsize := congrArg Text.size hpending
      rw [pending, LineStream.pending, hlines, List.flatMap_nil, List.append_nil,
        Text.size_append] at hsize
      omega
  | @more l l' i p _ _ _ hp _ ih =>
    obtain ⟨hl', hw'⟩ := hl.pull hp
    obtain ⟨hpending', -, hlexicon, hmaxLength, hmaxCount, -, -, htotal, -⟩ :=
      (Pulls.step hp .refl).frame
    have hlocation : l'.location = l.location := by
      obtain ⟨line, lines, -, rfl⟩ := pull_eq_some hp
      exact if_neg (by simpa using hw)
    rw [← hlocation]
    exact ih hl' hw' (hl.shows_pull hp) (hlexicon ▸ hsighted) (hpending'.trans hpending)
      (hmaxLength ▸ hlength) (by omega)

/-- **A call that has such a token before it** hands it out, and leaves what follows it. -/
theorem next_of_sights {l : Lexer T} {read : Text} (hlocated : l.Located read) (live : l.IsLive)
    (hshow : l.Shows) {kind : T} {w value r : Text} (hw : w ≠ [])
    (hsighted : IsSighted l.lexicon.rules kind w value (w ++ r)) (hpending : l.pending = w ++ r)
    (hlength : Text.size w ≤ l.maxLength) (hcount : l.tally.total < l.maxCount) :
    l.next.1 = .valid (.covering kind w value l.location) ∧ l.next.2.pending = r := by
  have hne : l.pending ≠ [] := by
    rw [hpending]
    exact List.append_ne_nil_of_left_ne_nil hw r
  obtain ⟨l', hfills, hclassifies⟩ := exists_classifies hlocated.isFed live hne
  obtain ⟨hl', hw', hshow'⟩ := hfills.spec hlocated.isFed hshow
  obtain ⟨hpending', -, hlexicon, hmaxLength, hmaxCount, -, -, htotal, -⟩ := hfills.pulls.frame
  obtain ⟨-, hlocation, -⟩ := hlocated.pulls hfills.pulls
  have hnext : l.next.1 = .valid (.covering kind w value l.location) := by
    rw [← hlocation]
    exact hclassifies.fst_of_sights hl' hw' hshow' (hlexicon ▸ hsighted) (hpending'.trans hpending)
      (hmaxLength ▸ hlength) (by omega)
  have happend := (text_next_append_pending hlocated.isFed).1
  rw [hnext, hpending] at happend
  exact ⟨hnext, List.append_cancel_left happend⟩

/-- A unit that begins with such a token has it for its first lexeme. -/
theorem head?_of_sights {lexicon : Lexicon T} (preferences : LexicalPreferences) (unit : String)
    {kind : T} {w value r : Text} (hw : w ≠ [])
    (hsighted : IsSighted lexicon.rules kind w value (w ++ r)) {feed : Feed}
    (hfeed : feed.Delivers (w ++ r)) {unitLimit lineLimit maxLength maxCount : Nat}
    (hunit : Text.size (w ++ r) ≤ unitLimit) (hlines : (w ++ r).FitsLines lineLimit)
    (hlength : Text.size w ≤ maxLength) (hcount : 0 < maxCount) :
    let l := (ofDecoder lexicon preferences unit { feed, limit := unitLimit }
      lineLimit).withLimits maxLength maxCount
    l.lexemes.head? = some (.valid (.covering kind w value (.start unit))) ∧
      l.next.2.pending = r := by
  intro l
  obtain ⟨hlocated, live, hshow, hpending, hlocation, -⟩ :=
    located_of_delivers lexicon preferences unit maxLength maxCount hfeed hunit hlines
  obtain ⟨hnext, hrest⟩ :=
    next_of_sights (l := l) hlocated live hshow hw hsighted hpending hlength hcount
  rw [hlocation] at hnext
  refine ⟨?_, hrest⟩
  rw [lexemes_of_next (by simp [hnext]), List.head?_cons, hnext]

end LexFront.Lexer
