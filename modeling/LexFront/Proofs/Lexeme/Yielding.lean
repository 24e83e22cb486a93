import LexFront.Lexeme.Stream

/-!
# What a stream of lexemes yields

`Yields s xs s'` says that taking the lexemes `xs` one after the other leads from one stream to
another. It is said of any source, also of one that never ends; over a finite source it is what
`LexemeStream.rest` works out.

Key facts:

* `Yields.isEnd_of_mem`: the end of the input is not among the lexemes that are taken.
* `yields_rest`: the rest of a stream over a finite source is what it yields up to its end.
* `rest_ofSource_list`: the lexemes of a list source are those of the list.
-/

set_option autoImplicit false

namespace LexFront

namespace LexemeStream

variable {σ T : Type}

section

variable [LexemeSource σ T]

/-- Taking some lexemes one after the other leads from a stream to another. -/
inductive Yields : LexemeStream σ T → List (Lexeme T) → LexemeStream σ T → Prop where
  | nil {s : LexemeStream σ T} : Yields s [] s
  | cons {s s' : LexemeStream σ T} {xs : List (Lexeme T)} : s.isAtEnd = false →
      Yields s.next.2 xs s' → Yields s (s.lookahead :: xs) s'

theorem next_fst (s : LexemeStream σ T) : s.next.1 = s.lookahead := by
  rw [next]
  split
  · next h =>
    cases hl : s.lookahead with
    | endOfInput => rfl
    | invalid i => simp [isAtEnd, hl, Lexeme.isEnd] at h
    | valid t => simp [isAtEnd, hl, Lexeme.isEnd] at h
  · rfl

theorem consumed_next {s : LexemeStream σ T} (h : s.isAtEnd = false) :
    s.next.2.consumed = s.consumed + 1 := by
  simp [next, h]

namespace Yields

variable {s s' t t' : LexemeStream σ T} {xs ys : List (Lexeme T)}

theorem single (h : s.isAtEnd = false) : Yields s [s.lookahead] s.next.2 := .cons h .nil

theorem trans (h : Yields s xs t) (h' : Yields t ys t') : Yields s (xs ++ ys) t' := by
  induction h with
  | nil => exact h'
  | cons ho _ ih => exact .cons ho (ih h')

theorem consumed (h : Yields s xs s') : s'.consumed = s.consumed + xs.length := by
  induction h with
  | nil => rfl
  | cons ho _ ih =>
    rw [ih, consumed_next ho, List.length_cons]
    omega

/-- The end of the input is not among the lexemes that are taken. -/
theorem isEnd_of_mem (h : Yields s xs s') : ∀ x ∈ xs, x.isEnd = false := by
  induction h with
  | nil => simp
  | cons ho _ ih => simpa using ⟨ho, ih⟩

/-- Nothing is taken from a stream at its end. -/
theorem of_isAtEnd (h : Yields s xs s') (hs : s.isAtEnd = true) : xs = [] ∧ s' = s := by
  cases h with
  | nil => exact ⟨rfl, rfl⟩
  | cons ho _ => rw [hs] at ho; cases ho

end Yields

end

variable [FiniteSource σ T]

theorem rest_of_isAtEnd {s : LexemeStream σ T} (h : s.isAtEnd = true) : s.rest = ([], s) := by
  rw [rest, dif_pos h]

theorem rest_of_open {s : LexemeStream σ T} (h : s.isAtEnd = false) :
    s.rest = (s.lookahead :: s.next.2.rest.1, s.next.2.rest.2) := by
  rw [rest, dif_neg (by simp [h]), next_fst]

/-- **The rest of a stream is what it yields up to its end.** -/
theorem yields_rest (s : LexemeStream σ T) :
    s.Yields s.rest.1 s.rest.2 ∧ s.rest.2.isAtEnd = true := by
  fun_induction rest s with
  | case1 s h => exact ⟨.nil, h⟩
  | case2 s h xs s' hr ih =>
    rw [hr] at ih
    rw [next_fst]
    exact ⟨.cons (by simpa using h) ih.1, ih.2⟩

/-- What is taken from a stream is the front of its rest. -/
theorem rest_of_yields {s s' : LexemeStream σ T} {xs : List (Lexeme T)} (h : s.Yields xs s') :
    s.rest = (xs ++ s'.rest.1, s'.rest.2) := by
  induction h with
  | nil => rfl
  | cons ho _ ih => rw [rest_of_open ho, ih, List.cons_append]

theorem length_rest_le_remaining (s : LexemeStream σ T) : s.rest.1.length ≤ s.remaining := by
  fun_induction rest s with
  | case1 s h => exact Nat.zero_le _
  | case2 s h xs s' hr ih =>
    have := remaining_next_lt (s := s) (by simpa using h)
    rw [hr] at ih
    simp only [List.length_cons] at ih ⊢
    omega

/-- In the middle of a list source the rest of the list is still to come. -/
theorem rest_of_list (unit : String) (xs : List (Lexeme T)) (l : Location) (x : Lexeme T) (n : Nat)
    (h : ∀ y ∈ x :: xs, y.isEnd = false) :
    (⟨⟨unit, xs, l⟩, x, n⟩ : LexemeStream (LexemeList T) T).rest.1 = x :: xs := by
  have hopen : (⟨⟨unit, xs, l⟩, x, n⟩ : LexemeStream (LexemeList T) T).isAtEnd = false :=
    h x List.mem_cons_self
  rw [rest_of_open hopen]
  refine congrArg (x :: ·) ?_
  rw [next, if_neg (by simp [hopen])]
  cases xs with
  | nil => exact congrArg Prod.fst (rest_of_isAtEnd rfl)
  | cons y ys => exact rest_of_list unit ys _ y (n + 1) fun z hz ↦ h z (List.mem_cons_of_mem x hz)

/-- **The lexemes of a list source** are those of the list. -/
theorem rest_ofSource_list {s : LexemeList T} (h : ∀ x ∈ s.pending, x.isEnd = false) :
    (ofSource s).rest.1 = s.pending := by
  obtain ⟨unit, xs, l⟩ := s
  cases xs with
  | nil => exact congrArg Prod.fst (rest_of_isAtEnd rfl)
  | cons x xs => exact rest_of_list unit xs _ x 0 h

end LexemeStream

end LexFront
