import LexFront.Proofs.Lexeme.Yielding

/-!
# What a stream delivers

A stream over a source may be asked for its next lexeme, for a look at it, whether it is at its end
and how much it has handed out, in any order and any number of times. The look-ahead is one lexeme
that the source has handed out and the stream has not, so that the two are never level: what the
stream has handed out and what it holds back are together what the source was asked for. That this
is so after every call (`Holds`) is all there is to know, and nothing has to be assumed of the
source. It may never come to an end, and it may have more lexemes behind one.

How often a source is asked cannot be seen from its answers. `Watched` is a source that remembers
them; a stream does the same over it (`call_watched`).

Key facts:

* `Holds.call`: what one call preserves.
* `next?_eq`: taking an item is taking the next lexeme, if there is one.
* `delivers_of_calls`: what a stream owes, after any calls.
-/

set_option autoImplicit false

namespace LexFront

variable {σ T : Type} [LexemeSource σ T]

/-! ### Sources that are asked and watched -/

/-- Asks a source for some lexemes, one after the other. -/
def LexemeSource.ask : Nat → σ → List (Lexeme T) × σ
  | 0, s => ([], s)
  | n + 1, s =>
    let (x, s) := LexemeSource.next s
    let (xs, s) := ask n s
    (x :: xs, s)

/-- The last lexeme is asked of the source as the others have left it. -/
theorem LexemeSource.ask_succ (n : Nat) (s : σ) :
    ask (n + 1) s = ((ask n s).1 ++ [(next (ask n s).2).1], (next (ask n s).2).2) := by
  induction n generalizing s with
  | zero => rfl
  | succ n ih =>
    show ((next s).1 :: (ask (n + 1) (next s).2).1, (ask (n + 1) (next s).2).2) = _
    rw [ih]
    rfl

/-- A source that remembers what it has handed out. -/
structure Watched (σ T : Type) where
  source : σ
  record : List (Lexeme T) := []

instance : LexemeSource (Watched σ T) T where
  next w :=
    let (x, source) := LexemeSource.next w.source
    (x, ⟨source, w.record ++ [x]⟩)
  endLocation w := LexemeSource.endLocation w.source
  unit w := LexemeSource.unit w.source
  openingEvents w := LexemeSource.openingEvents w.source
  stepEvents w x w' := LexemeSource.stepEvents w.source x w'.source

namespace LexemeStream

/-! ### Calls and answers -/

/-- What may be asked of a stream. -/
inductive Call where
  | next
  | next?
  | peek
  | isAtEnd
  | consumed
  deriving DecidableEq, Repr

/-- What is answered, one form for each call. -/
inductive Answer (T : Type) where
  | taken (x : Lexeme T)
  | item (x? : Option (Lexeme T))
  | seen (x : Lexeme T)
  | ended (b : Bool)
  | count (n : Nat)
  deriving DecidableEq, Repr

/-- The lexeme that an answer hands out. A lexeme that is only shown is not handed out, and neither
is the end of the input. -/
def Answer.lexeme? : Answer T → Option (Lexeme T)
  | taken x => if x.isEnd then none else some x
  | item x? => x?
  | _ => none

/-- Asks one thing. -/
def call (s : LexemeStream σ T) : Call → Answer T × LexemeStream σ T
  | .next => (.taken s.next.1, s.next.2)
  | .next? => (.item s.next?.1, s.next?.2)
  | .peek => (.seen s.peek, s)
  | .isAtEnd => (.ended s.isAtEnd, s)
  | .consumed => (.count s.consumed, s)

/-- Asks some things, one after the other. -/
def calls (s : LexemeStream σ T) : List Call → List (Answer T) × LexemeStream σ T
  | [] => ([], s)
  | c :: cs => ((s.call c).1 :: ((s.call c).2.calls cs).1, ((s.call c).2.calls cs).2)

/-- The lexemes that were handed out. -/
def handedOut (answers : List (Answer T)) : List (Lexeme T) := answers.filterMap Answer.lexeme?

/-! ### The two ways to take a lexeme -/

omit [LexemeSource σ T] in
theorem isAtEnd_eq_true_iff {s : LexemeStream σ T} :
    s.isAtEnd = true ↔ s.lookahead = .endOfInput := by
  rw [isAtEnd]
  cases s.lookahead <;> simp [Lexeme.isEnd]

/-- Taking an item is taking the next lexeme, if there is one. -/
theorem next?_eq (s : LexemeStream σ T) :
    s.next? = (if s.isAtEnd then none else some s.lookahead, s.next.2) := by
  have hnext : s.next = (s.lookahead, s.next.2) := Prod.ext s.next_fst rfl
  rw [next?, hnext, isAtEnd]
  cases s.lookahead <;> rfl

/-- At its end a stream is asked in vain. -/
theorem call_of_isAtEnd {s : LexemeStream σ T} (h : s.isAtEnd = true) (c : Call) :
    (s.call c).2 = s ∧ (s.call c).1.lexeme? = none := by
  cases c with
  | next => rw [call, next_of_isAtEnd h]; exact ⟨rfl, rfl⟩
  | next? => rw [call, next?_eq, if_pos h, next_of_isAtEnd h]; exact ⟨rfl, rfl⟩
  | peek => exact ⟨rfl, rfl⟩
  | isAtEnd => exact ⟨rfl, rfl⟩
  | consumed => exact ⟨rfl, rfl⟩

theorem calls_of_isAtEnd {s : LexemeStream σ T} (h : s.isAtEnd = true) (cs : List Call) :
    (s.calls cs).2 = s ∧ handedOut (s.calls cs).1 = [] := by
  induction cs with
  | nil => exact ⟨rfl, rfl⟩
  | cons c cs ih =>
    obtain ⟨hstream, hnone⟩ := call_of_isAtEnd h c
    rw [calls, hstream]
    exact ⟨ih.1, by rw [handedOut, List.filterMap_cons_none hnone]; exact ih.2⟩

/-! ### Watching changes nothing -/

omit [LexemeSource σ T] in
/-- The stream over the source that is watched. -/
def unwatched (s : LexemeStream (Watched σ T) T) : LexemeStream σ T :=
  ⟨s.source.source, s.lookahead, s.consumed⟩

theorem next_watched (s : LexemeStream (Watched σ T) T) :
    s.unwatched.next = (s.next.1, s.next.2.unwatched) := by
  rw [next, next, isAtEnd, isAtEnd]
  show (if s.lookahead.isEnd = true then _ else _) = _
  split <;> rfl

/-- A stream answers alike, whether or not its source is watched. -/
theorem call_watched (s : LexemeStream (Watched σ T) T) (c : Call) :
    s.unwatched.call c = ((s.call c).1, (s.call c).2.unwatched) := by
  cases c with
  | next => rw [call, next_watched]; rfl
  | next? => rw [call, next?_eq, next_watched, call, next?_eq]; rfl
  | peek => rfl
  | isAtEnd => rfl
  | consumed => rfl

theorem calls_watched (s : LexemeStream (Watched σ T) T) (cs : List Call) :
    s.unwatched.calls cs = ((s.calls cs).1, (s.calls cs).2.unwatched) := by
  induction cs generalizing s with
  | nil => rfl
  | cons c cs ih => rw [calls, call_watched, ih, calls]

/-! ### What a stream holds -/

/-- A stream that has handed out some lexemes and holds the next one back. The source has been asked
for these and for no others. -/
structure Holds (source : σ) (xs : List (Lexeme T)) (s : LexemeStream (Watched σ T) T) : Prop where
  asked : LexemeSource.ask (xs.length + 1) source = (xs ++ [s.lookahead], s.source.source)
  record : s.source.record = xs ++ [s.lookahead]
  isOpen : ∀ x ∈ xs, x.isEnd = false
  consumed : s.consumed = xs.length

namespace Holds

variable {source : σ} {xs : List (Lexeme T)} {s : LexemeStream (Watched σ T) T}

theorem ofSource (source : σ) : Holds source [] (ofSource (Watched.mk source [])) :=
  ⟨rfl, rfl, by simp, rfl⟩

/-- Taking a lexeme moves it over, and the source is asked for the one behind it. -/
theorem next (h : Holds source xs s) (hopen : s.isAtEnd = false) :
    Holds source (xs ++ [s.lookahead]) s.next.2 := by
  have hsource : s.source.source = (LexemeSource.ask (xs.length + 1) source).2 := by rw [h.asked]
  have hnext : s.next.2 = ⟨(LexemeSource.next s.source).2, (LexemeSource.next s.source).1,
      s.consumed + 1⟩ := by
    rw [LexemeStream.next, if_neg (by simp [hopen])]
  rw [hnext]
  refine ⟨?_, ?_, ?_, ?_⟩
  · rw [List.length_append, List.length_singleton, LexemeSource.ask_succ, ← hsource, h.asked]
    rfl
  · show s.source.record ++ [_] = _
    rw [h.record]
    rfl
  · simpa [or_imp, forall_and] using ⟨h.isOpen, hopen⟩
  · show s.consumed + 1 = _
    rw [h.consumed, List.length_append, List.length_singleton]

/-- **One call** hands out what the stream holds, or leaves it as it is. -/
theorem call (h : Holds source xs s) (c : Call) :
    Holds source (xs ++ (s.call c).1.lexeme?.toList) (s.call c).2 := by
  cases hend : s.isAtEnd with
  | true =>
    obtain ⟨hstream, hnone⟩ := call_of_isAtEnd hend c
    rw [hstream, hnone]
    simpa using h
  | false =>
    have hlookahead : s.lookahead.isEnd = false := hend
    cases c with
    | next =>
      have htaken : (s.call .next).1.lexeme? = some s.lookahead := by
        rw [LexemeStream.call, next_fst, Answer.lexeme?, if_neg (by simp [hlookahead])]
      rw [htaken]
      exact h.next hend
    | next? =>
      have htaken : (s.call .next?).1.lexeme? = some s.lookahead := by
        rw [LexemeStream.call, next?_eq, if_neg (by simp [hend])]
        rfl
      rw [htaken, LexemeStream.call, next?_eq]
      exact h.next hend
    | peek => simpa [LexemeStream.call, Answer.lexeme?] using h
    | isAtEnd => simpa [LexemeStream.call, Answer.lexeme?] using h
    | consumed => simpa [LexemeStream.call, Answer.lexeme?] using h

theorem calls (h : Holds source xs s) (cs : List Call) :
    Holds source (xs ++ handedOut (s.calls cs).1) (s.calls cs).2 := by
  induction cs generalizing xs s with
  | nil => simpa [LexemeStream.calls, handedOut] using h
  | cons c cs ih =>
    have hrest := ih (h.call c)
    rw [List.append_assoc] at hrest
    rw [LexemeStream.calls, handedOut, List.filterMap_cons]
    cases hx : (s.call c).1.lexeme? <;> rw [hx] at hrest <;> exact hrest

end Holds

/-! ### What a stream owes -/

/-- What is owed by a stream that has handed out some lexemes of a source. -/
structure Delivers (source : σ) (xs : List (Lexeme T)) (s : LexemeStream (Watched σ T) T) :
    Prop where
  /-- They are the first lexemes of the source. -/
  front : (LexemeSource.ask xs.length source).1 = xs
  /-- They stand before the first end of the input. -/
  isOpen : ∀ x ∈ xs, x.isEnd = false
  /-- What is shown is what comes next, in the stream and in the source. -/
  peek : s.next.1 = s.peek ∧ s.next?.1 = (if s.isAtEnd then none else some s.peek) ∧
    (LexemeSource.ask (xs.length + 1) source).1 = xs ++ [s.peek]
  /-- At the end everything before the first end of the input has been handed out. -/
  isAtEnd : s.isAtEnd = true ↔
    (LexemeSource.ask (xs.length + 1) source).1 = xs ++ [.endOfInput]
  /-- At the end nothing changes any more. -/
  stays : s.isAtEnd = true → ∀ cs, (s.calls cs).2 = s ∧ handedOut (s.calls cs).1 = []
  consumed : s.consumed = xs.length
  /-- The source has been asked for one lexeme more than were handed out. -/
  asked : s.source.record = xs ++ [s.peek] ∧ s.source.record.length = 1 + s.consumed
  /-- Behind its first end the source is not asked again. -/
  last : ∀ front x back, s.source.record = front ++ x :: back → x.isEnd = true → back = []

theorem Holds.delivers {source : σ} {xs : List (Lexeme T)} {s : LexemeStream (Watched σ T) T}
    (h : Holds source xs s) : Delivers source xs s where
  front := by
    have hasked := congrArg Prod.fst h.asked
    rw [LexemeSource.ask_succ] at hasked
    exact (List.append_inj' hasked rfl).1
  isOpen := h.isOpen
  peek := ⟨s.next_fst, by rw [next?_eq]; rfl, by rw [h.asked]; rfl⟩
  isAtEnd := by rw [isAtEnd_eq_true_iff, h.asked]; simp
  stays hend cs := calls_of_isAtEnd hend cs
  consumed := h.consumed
  asked := ⟨h.record, by rw [h.record, h.consumed]; simp [Nat.add_comm]⟩
  last front x back hx hend := by
    -- What stands in the record before the last lexeme has been handed out.
    rcases List.eq_nil_or_concat back with rfl | ⟨ys, y, rfl⟩
    · rfl
    · have heq := h.record.symm.trans hx
      rw [List.concat_eq_append, ← List.cons_append, ← List.append_assoc] at heq
      have hmem : x ∈ xs := by
        rw [(List.append_inj' heq rfl).1]
        simp
      rw [h.isOpen x hmem] at hend
      cases hend

/-- **A stream delivers its source once and in order.** Whatever it is asked, and whatever its
source is like, after any calls it owes no more and no less than `Delivers` says; and to watch the
source makes no difference to the answers. -/
theorem delivers_of_calls (source : σ) (cs : List Call) :
    let run := (ofSource (Watched.mk source [])).calls cs
    run.1 = ((ofSource source).calls cs).1 ∧ Delivers source (handedOut run.1) run.2 := by
  intro run
  refine ⟨?_, ((Holds.ofSource source).calls cs).delivers⟩
  have hwatched := calls_watched (ofSource (Watched.mk source ([] : List (Lexeme T)))) cs
  exact (congrArg Prod.fst hwatched).symm

end LexemeStream

end LexFront
