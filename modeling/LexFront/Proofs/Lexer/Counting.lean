import LexFront.Proofs.Lexer.Limits
import LexFront.Proofs.Line.Strategies
import Mathlib.Algebra.GroupWithZero.Nat

/-!
# The counts are those of the lexemes

A lexer counts as it goes: tokens where it hands them out, lines where it takes them. There are five
places at which a lexeme comes from, and the failure of the source is one that the others do not
see. So it is no matter of course that the counts agree with each other and with what was handed
out.

`Tally.Records` says that they do, for any lexemes; a call of the lexer adds to both sides alike.
The names under which tokens are counted are kept in order, each of them once, so that a count can
be read off as that of the name.

Key facts:

* `Tally.countOf_bump`: counting one more of a name changes the count of that name only.
* `Keeps.next`: a call keeps the books.
* `consumed_rest`: a stream hands out as many lexemes as its lexer has counted.
* `tally_of_run`: the counts after any number of calls.
-/

set_option autoImplicit false

namespace LexFront

/-! ### Kinds of lexemes -/

namespace Lexeme

variable {T : Type} [Terminal T]

/-- Whether this is a token that means something to a grammar. -/
def isSignificant (x : Lexeme T) : Bool := x.terminal?.any (!Terminal.isTrivia ·)

/-- Whether this is a token of a terminal with a given name. -/
def isNamed (name : String) (x : Lexeme T) : Bool := x.terminal?.any (Terminal.name · == name)

/-- Every lexeme but the end of the input is of one of three kinds. -/
theorem countP_kinds (xs : List (Lexeme T)) :
    xs.countP (!·.isEnd) =
      xs.countP (·.isSignificant) + xs.countP (·.isTrivia) + xs.countP (·.isInvalid) := by
  induction xs with
  | nil => rfl
  | cons x xs ih =>
    simp only [List.countP_cons, ih]
    cases x with
    | endOfInput => rfl
    | invalid i => rfl
    | valid t =>
      cases ht : Terminal.isTrivia t.terminal <;>
        simp [isEnd, isSignificant, isTrivia, isInvalid, terminal?, Token.isTrivia, ht] <;> omega

end Lexeme

/-! ### Counting one more -/

namespace Tally

/-- No name occurs twice, and the names are in order. -/
def IsSorted (counts : List (String × Nat)) : Prop := counts.Pairwise fun p q ↦ p.1 < q.1

/-- What is counted under a name. -/
def countOf (name : String) (counts : List (String × Nat)) : Nat :=
  ((counts.filter (·.1 == name)).map (·.2)).sum

theorem countOf_cons (name : String) (p : String × Nat) (counts : List (String × Nat)) :
    countOf name (p :: counts) = (if p.1 = name then p.2 else 0) + countOf name counts := by
  by_cases h : p.1 = name <;> simp [countOf, h]

/-- A name that is not there is not counted. -/
theorem countOf_eq_zero {name : String} {counts : List (String × Nat)}
    (h : ∀ p ∈ counts, p.1 ≠ name) : countOf name counts = 0 := by
  have hfilter : counts.filter (·.1 == name) = [] := List.filter_eq_nil_iff.2 (by simpa using h)
  rw [countOf, hfilter]
  rfl

/-- **Counting one more of a name** changes what is counted under that name only. -/
theorem countOf_bump (a name : String) (counts : List (String × Nat)) :
    countOf a (bump name counts) = countOf a counts + if name = a then 1 else 0 := by
  fun_induction bump name counts with
  | case1 => rw [countOf_cons, Nat.add_comm]
  | case2 k n rest hlt => rw [countOf_cons, Nat.add_comm]
  | case3 n rest hlt =>
    rw [countOf_cons, countOf_cons]
    split <;> omega
  | case4 k n rest hlt hne ih => rw [countOf_cons, countOf_cons, ih, Nat.add_assoc]

theorem sum_bump (name : String) (counts : List (String × Nat)) :
    ((bump name counts).map (·.2)).sum = (counts.map (·.2)).sum + 1 := by
  fun_induction bump name counts with
  | case1 => rfl
  | case2 k n rest hlt => simp [Nat.add_comm]
  | case3 n rest hlt => simp [Nat.add_right_comm]
  | case4 k n rest hlt hne ih => simp [ih, Nat.add_assoc]

theorem pos_of_mem_bump {name : String} {counts : List (String × Nat)}
    (h : ∀ p ∈ counts, 0 < p.2) : ∀ p ∈ bump name counts, 0 < p.2 := by
  fun_induction bump name counts with
  | case1 => simp
  | case2 k n rest hlt => exact List.forall_mem_cons.2 ⟨Nat.one_pos, h⟩
  | case3 n rest hlt =>
    exact List.forall_mem_cons.2 ⟨Nat.succ_pos _, (List.forall_mem_cons.1 h).2⟩
  | case4 k n rest hlt hne ih =>
    rw [List.forall_mem_cons] at h
    exact List.forall_mem_cons.2 ⟨h.1, ih h.2⟩

/-- Whatever precedes all names and a further one precedes them when that one is counted. -/
theorem lt_of_mem_bump {k name : String} {counts : List (String × Nat)} (hname : k < name)
    (h : ∀ p ∈ counts, k < p.1) : ∀ p ∈ bump name counts, k < p.1 := by
  fun_induction bump name counts with
  | case1 => simpa using hname
  | case2 j n rest hlt => exact List.forall_mem_cons.2 ⟨hname, h⟩
  | case3 n rest hlt =>
    exact List.forall_mem_cons.2 ⟨hname, (List.forall_mem_cons.1 h).2⟩
  | case4 j n rest hlt hne ih =>
    rw [List.forall_mem_cons] at h
    exact List.forall_mem_cons.2 ⟨h.1, ih h.2⟩

/-- **The names stay in order.** -/
theorem IsSorted.bump {counts : List (String × Nat)} (h : IsSorted counts) (name : String) :
    IsSorted (Tally.bump name counts) := by
  fun_induction Tally.bump name counts with
  | case1 => exact List.pairwise_singleton _ _
  | case2 k n rest hlt =>
    refine List.Pairwise.cons (List.forall_mem_cons.2 ⟨hlt, fun p hp ↦ ?_⟩) h
    exact String.lt_trans hlt ((List.pairwise_cons.1 h).1 p hp)
  | case3 n rest hlt =>
    exact List.Pairwise.cons (List.pairwise_cons.1 h).1 (List.pairwise_cons.1 h).2
  | case4 k n rest hlt hne ih =>
    have hk : k < name := by
      by_contra hnot
      exact hne (String.le_antisymm (String.not_lt.1 hnot) (String.not_lt.1 hlt))
    obtain ⟨hall, hrest⟩ := List.pairwise_cons.1 h
    exact List.Pairwise.cons (lt_of_mem_bump hk hall) (ih hrest)

/-- **An entry says what is counted under its name.** -/
theorem IsSorted.mem_iff {counts : List (String × Nat)} (h : IsSorted counts)
    (hpos : ∀ p ∈ counts, 0 < p.2) (name : String) (n : Nat) :
    (name, n) ∈ counts ↔ 0 < n ∧ n = countOf name counts := by
  induction counts with
  | nil =>
    simp only [List.not_mem_nil, countOf, List.filter_nil, List.map_nil, List.sum_nil, false_iff]
    omega
  | cons p counts ih =>
    obtain ⟨hall, hrest⟩ := List.pairwise_cons.1 h
    rw [List.forall_mem_cons] at hpos
    rw [List.mem_cons, ih hrest hpos.2, countOf_cons]
    by_cases hp : p.1 = name
    · -- The names behind it are greater.
      have hzero : countOf name counts = 0 := by
        refine countOf_eq_zero fun q hq hname ↦ String.ne_of_lt (hall q hq) ?_
        rw [hp, hname]
      subst hp
      rw [if_pos rfl, hzero, Nat.add_zero, Prod.ext_iff]
      have := hpos.1
      simp only [true_and]
      omega
    · rw [if_neg hp, Nat.zero_add, Prod.ext_iff]
      simp only [Ne.symm hp, false_and, false_or]

/-! ### The books -/

variable {T : Type} [Terminal T]

/-- The counts are those of some lexemes. Tokens are counted under their names only if that is asked
for. -/
structure Records (t : Tally) (track : Bool) (xs : List (Lexeme T)) : Prop where
  total : t.total = xs.countP (!·.isEnd)
  invalid : t.invalid = xs.countP (·.isInvalid)
  trivia : t.trivia = xs.countP (·.isTrivia)
  sorted : IsSorted t.counts
  pos : ∀ p ∈ t.counts, 0 < p.2
  named : track = true → ∀ name, countOf name t.counts = xs.countP (·.isNamed name)
  sum : track = true → (t.counts.map (·.2)).sum + t.invalid = t.total
  untracked : track = false → t.counts = []

namespace Records

variable {t : Tally} {track : Bool} {xs : List (Lexeme T)}

theorem nil (track : Bool) : ({} : Tally).Records track ([] : List (Lexeme T)) :=
  ⟨rfl, rfl, rfl, List.Pairwise.nil, by simp, fun _ _ ↦ rfl, fun _ ↦ rfl, fun _ ↦ rfl⟩

/-- The number of tokens that mean something never underflows, and is what it says. -/
theorem significant (h : t.Records track xs) :
    t.trivia + t.invalid ≤ t.total ∧ t.significant = xs.countP (·.isSignificant) := by
  have hkinds := Lexeme.countP_kinds xs
  rw [← h.total, ← h.invalid, ← h.trivia] at hkinds
  rw [Tally.significant]
  omega

theorem endOfInput (h : t.Records track xs) : t.Records track (xs ++ [.endOfInput]) where
  total := by rw [h.total, List.countP_append]; rfl
  invalid := by rw [h.invalid, List.countP_append]; rfl
  trivia := by rw [h.trivia, List.countP_append]; rfl
  sorted := h.sorted
  pos := h.pos
  named htrack name := by rw [h.named htrack, List.countP_append]; rfl
  sum := h.sum
  untracked := h.untracked

theorem addLine (h : t.Records track xs) : t.addLine.Records track xs :=
  ⟨h.total, h.invalid, h.trivia, h.sorted, h.pos, h.named, h.sum, h.untracked⟩

theorem addInvalid (h : t.Records track xs) (i : InvalidToken) :
    t.addInvalid.Records track (xs ++ [.invalid i]) where
  total := by rw [List.countP_append, ← h.total]; rfl
  invalid := by rw [List.countP_append, ← h.invalid]; rfl
  trivia := by rw [List.countP_append, ← h.trivia]; rfl
  sorted := h.sorted
  pos := h.pos
  named htrack name := by rw [List.countP_append, ← h.named htrack]; rfl
  sum htrack := congrArg (· + 1) (h.sum htrack)
  untracked := h.untracked

theorem addToken (h : t.Records track xs) (x : Token T) :
    (t.addToken track x.terminal).Records track (xs ++ [.valid x]) where
  total := by rw [List.countP_append, ← h.total]; rfl
  invalid := by rw [List.countP_append, ← h.invalid]; rfl
  trivia := by
    rw [List.countP_append, ← h.trivia, List.countP_singleton]
    show (if _ then _ else _) = t.trivia + if Terminal.isTrivia x.terminal then 1 else 0
    split <;> rfl
  sorted := by
    show IsSorted (if track then _ else _)
    split
    · exact h.sorted.bump _
    · exact h.sorted
  pos := by
    show ∀ p ∈ (if track then bump (Terminal.name x.terminal) t.counts else t.counts), 0 < p.2
    split
    · exact pos_of_mem_bump h.pos
    · exact h.pos
  named htrack name := by
    show countOf name (if track then _ else _) = _
    rw [if_pos htrack, countOf_bump, h.named htrack, List.countP_append, List.countP_singleton]
    simp [Lexeme.isNamed, Lexeme.terminal?]
  sum htrack := by
    show ((if track then bump (Terminal.name x.terminal) t.counts else t.counts).map (·.2)).sum +
      t.invalid = t.total + 1
    rw [if_pos htrack, sum_bump, Nat.add_right_comm, h.sum htrack]
  untracked htrack := by
    show (if track then _ else _) = _
    rw [if_neg (by simp [htrack]), h.untracked htrack]

end Records

end Tally

/-! ### Calls -/

namespace Lexer

variable {T : Type} [Terminal T]

/-- A lexer that has handed out some lexemes keeps its books: its counts are those of the lexemes,
and of the lines that were taken. -/
structure Keeps (l : Lexer T) (track : Bool) (xs : List (Lexeme T)) : Prop where
  trackCounts : l.trackCounts = track
  records : l.tally.Records track xs
  lines : l.tally.lines = l.lines.consumed

variable {l : Lexer T} {track : Bool} {xs : List (Lexeme T)}

theorem Keeps.pull {l' : Lexer T} (h : l.Keeps track xs) (hp : l.pull = some l') :
    l'.Keeps track xs := by
  obtain ⟨⟨line, lines⟩, hn, rfl⟩ := Option.map_eq_some_iff.1 hp
  refine ⟨h.trackCounts, h.records.addLine, ?_⟩
  show l.tally.lines + 1 = lines.consumed
  rw [LineStream.consumed_of_next hn, h.lines]

theorem Keeps.reject (h : l.Keeps track xs) (n : Nat) (e : LexicalError) :
    (l.reject n e).2.Keeps track (xs ++ [(l.reject n e).1]) :=
  ⟨h.trackCounts, h.records.addInvalid _, h.lines⟩

theorem Keeps.accept (h : l.Keeps track xs) (r : Rule T) (n : Nat) :
    (l.accept r n).2.Keeps track (xs ++ [(l.accept r n).1]) := by
  rw [Lexer.accept]
  split
  · exact h.reject n _
  · refine ⟨h.trackCounts, ?_, h.lines⟩
    show (l.tally.addToken l.trackCounts r.terminal).Records track _
    rw [h.trackCounts]
    exact h.records.addToken (.covering r.terminal _ _ _)

/-- **A window that becomes a lexeme is counted**, in whichever way it becomes one. -/
theorem Keeps.classifies {p : Lexeme T × Lexer T} (h : l.Keeps track xs) (hc : Classifies l p) :
    p.2.Keeps track (xs ++ [p.1]) := by
  induction hc with
  | @full l _ =>
    exact Keeps.reject (l := { l with halted := true }) ⟨h.trackCounts, h.records, h.lines⟩ _ _
  | unrecognized _ _ => exact h.reject _ _
  | matched _ _ _ => exact h.accept _ _
  | overlong _ _ _ => exact h.reject _ _
  | unterminated _ _ _ _ => exact h.reject _ _
  | more _ _ _ hp _ ih => exact ih (h.pull hp)

/-- **A call keeps the books**, also where the source failed or nothing is left. -/
theorem Keeps.next (h : l.Keeps track xs) (hl : l.IsFed) :
    l.next.2.Keeps track (xs ++ [l.next.1]) := by
  have hsteps := steps_next hl
  generalize l.next = p at hsteps ⊢
  cases hsteps with
  | finished _ => exact ⟨h.trackCounts, h.records.endOfInput, h.lines⟩
  | halted _ _ => exact ⟨h.trackCounts, h.records.endOfInput, h.lines⟩
  | fault _ _ _ _ => exact ⟨h.trackCounts, h.records.addInvalid _, h.lines⟩
  | exhausted _ _ _ _ => exact ⟨h.trackCounts, h.records.endOfInput, h.lines⟩
  | filled _ _ hc => exact h.classifies hc
  | empty _ _ hp hc => exact (h.pull hp).classifies hc

theorem Keeps.after (h : l.Keeps track []) (hl : l.IsFed) (n : Nat) :
    (l.after n).Keeps track (l.handedOut n) := by
  induction n with
  | zero => exact h
  | succ n ih => exact ih.next (hl.after n)

theorem keeps_ofDecoder (lexicon : Lexicon T) (preferences : LexicalPreferences) (unit : String)
    (decoder : Decoder) (lineLimit maxLength maxCount : Nat) :
    ((ofDecoder lexicon preferences unit decoder lineLimit).withLimits maxLength maxCount).Keeps
      preferences.trackCounts [] :=
  ⟨rfl, .nil _, (LineStream.consumed_ofSplitter _ _).symm⟩

/-! ### Streams -/

/-- A call counts one lexeme more, unless it finds the end of the input. -/
theorem total_next (hl : l.IsFed) :
    l.next.2.tally.total = l.tally.total + if l.next.1.isEnd then 0 else 1 := by
  have hclassifies : ∀ {m : Lexer T} {p : Lexeme T × Lexer T}, m.IsFed → m.window ≠ [] →
      Classifies m p → p.2.tally.total = m.tally.total + if p.1.isEnd then 0 else 1 := by
    intro m p hm hw hc
    obtain ⟨m', hpulls, hcuts, -⟩ := hc.exists_cut hm hw
    have hopen : p.1.isEnd = false := by
      have hspan := hcuts.span
      cases hx : p.1 with
      | endOfInput => rw [hx] at hspan; cases hspan
      | invalid i => rfl
      | valid t => rfl
    obtain ⟨-, -, -, -, -, -, -, htotal, -⟩ := hpulls.frame
    rw [hcuts.total, htotal, hopen]
    rfl
  have hsteps := steps_next hl
  generalize l.next = p at hsteps ⊢
  cases hsteps with
  | finished _ => rfl
  | halted _ _ => rfl
  | fault _ _ _ _ => rfl
  | exhausted _ _ _ _ => rfl
  | filled _ hw hc => exact hclassifies hl hw hc
  | empty _ _ hp hc =>
    obtain ⟨hl', hw'⟩ := hl.pull hp
    obtain ⟨-, -, -, -, -, -, -, htotal, -⟩ := (Pulls.step hp .refl).frame
    rw [← htotal]
    exact hclassifies hl' hw' hc

end Lexer

namespace LexemeStream

variable {T : Type} [Terminal T]

/-- The lexer under a stream has counted what was handed out, and the look-ahead. -/
def IsBalanced (s : LexemeStream (Lexer T) T) : Prop :=
  s.source.tally.total = s.consumed + if s.isAtEnd then 0 else 1

theorem isBalanced_ofSource {l : Lexer T} (hl : l.IsFed) (h : l.tally.total = 0) :
    (ofSource l).IsBalanced := by
  have htotal := Lexer.total_next hl
  rw [h] at htotal
  exact htotal

/-- **A stream that is read to its end** has handed out as many lexemes as its lexer has counted. -/
theorem IsBalanced.rest {s : LexemeStream (Lexer T) T} (h : s.IsBalanced) (hl : s.source.IsFed) :
    s.rest.2.consumed = s.rest.2.source.tally.total ∧
      s.rest.2.consumed = s.consumed + s.rest.1.length := by
  fun_induction LexemeStream.rest s with
  | case1 s hend =>
    rw [IsBalanced, if_pos hend] at h
    exact ⟨h.symm, rfl⟩
  | case2 s hopen xs s' hr ih =>
    have hnext : s.next = (s.lookahead, ⟨s.source.next.2, s.source.next.1, s.consumed + 1⟩) := by
      rw [LexemeStream.next, if_neg hopen]
      rfl
    rw [hr, hnext] at ih
    have hbalanced : IsBalanced (T := T) ⟨s.source.next.2, s.source.next.1, s.consumed + 1⟩ := by
      have htotal := Lexer.total_next hl
      rw [IsBalanced, if_neg hopen] at h
      rw [h] at htotal
      exact htotal
    obtain ⟨htotal, hlength⟩ := ih hbalanced (hl.after 1)
    refine ⟨htotal, hlength.trans ?_⟩
    rw [List.length_cons, Nat.add_right_comm, Nat.add_assoc]

end LexemeStream

/-! ### Runs -/

namespace Lexer

variable {T : Type} [Terminal T]

/-- **The counts are those of what was handed out.** After any number of calls, with any limits and
over any source, the lexer has counted each lexeme but the end of the input once, and as what it is;
the number of tokens that mean something never underflows; the lines counted are those that were
taken; and where tokens are counted under their names, the entries are the names that occurred, each
with the number of its tokens. A stream that is read to its end has handed out as many lexemes. -/
theorem tally_of_run (lexicon : Lexicon T) (preferences : LexicalPreferences) (unit : String)
    (feed : Feed) (unitLimit lineLimit maxLength maxCount n : Nat) :
    let splitter : Splitter := { unit, decoder := { feed, limit := unitLimit }, limit := lineLimit }
    let l := (ofDecoder lexicon preferences unit { feed, limit := unitLimit } lineLimit).withLimits
      maxLength maxCount
    let t := (l.after n).tally
    let xs := l.handedOut n
    let stream := (LexemeStream.ofSource l).rest.2
    (t.total = xs.countP (!·.isEnd) ∧ t.invalid = xs.countP (·.isInvalid) ∧
        t.trivia = xs.countP (·.isTrivia)) ∧
      (t.trivia + t.invalid ≤ t.total ∧ t.significant = xs.countP (·.isSignificant)) ∧
      (t.lines = (l.after n).lines.consumed ∧ t.lines ≤ splitter.rest.1.length ∧
        (l.after n).lines.lines = splitter.rest.1.drop t.lines) ∧
      (if preferences.trackCounts then
          Tally.IsSorted t.counts ∧
            (∀ name k, (name, k) ∈ t.counts ↔ 0 < k ∧ k = xs.countP (·.isNamed name)) ∧
            (t.counts.map (·.2)).sum = t.total - t.invalid
        else t.counts = []) ∧
      stream.consumed = stream.source.tally.total ∧ stream.consumed = l.lexemes.length := by
  intro splitter l t xs stream
  obtain ⟨-, hl, -⟩ := ofDecoder_spec lexicon preferences unit { feed, limit := unitLimit }
    lineLimit maxLength maxCount
  have hkeeps := (keeps_ofDecoder lexicon preferences unit { feed, limit := unitLimit } lineLimit
    maxLength maxCount).after hl n
  have h := hkeeps.records
  obtain ⟨taken, hlines, hlength⟩ : (l.after n).HasTaken splitter.rest.1 :=
    HasTaken.after ⟨[], (LineStream.lines_ofSplitter _ splitter).symm, rfl⟩ hl n
  obtain ⟨hconsumed, hcount⟩ := (LexemeStream.isBalanced_ofSource hl rfl).rest (hl.after 1)
  refine ⟨⟨h.total, h.invalid, h.trivia⟩, h.significant, ⟨hkeeps.lines, ?_, ?_⟩, ?_, hconsumed, ?_⟩
  · rw [hlines, List.length_append, ← hlength]
    exact Nat.le_add_right _ _
  · rw [hlines, ← hlength, List.drop_left]
  · split
    · next htrack =>
      refine ⟨h.sorted, fun name k ↦ ?_, Nat.eq_sub_of_add_eq (h.sum htrack)⟩
      rw [h.sorted.mem_iff h.pos, h.named htrack]
    · next htrack => exact h.untracked (by simpa using htrack)
  · rw [hcount, rest_ofSource_fst]
    exact Nat.zero_add _

end Lexer

end LexFront
