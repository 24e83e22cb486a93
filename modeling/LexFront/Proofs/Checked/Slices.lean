import LexFront.Proofs.Text.Cuts

/-!
# Checked computations

Whoever cuts a text by its bytes has to know that the cut is in range and between two characters,
and whoever counts in 32 bits that there is room. A `Checked` computation does not know: it makes
sure at every step, and stops with a `Panic` where a step is not possible. Beside a definition that
cannot fail stands its checked form, which takes the text apart by offsets, and that the two agree
says that no step of it is ever refused.

A place in a text is given by what stands behind it (`Text.HasRest`), so that an offset that is
counted up in a loop is known to be one at every turn.

Key facts:

* `Text.from?_eq_ok_iff`: where a slice may begin.
* `Location.IsWithin.advance`: a text that is short enough leads to a location.
-/

set_option autoImplicit false

namespace LexFront

/-- Why a checked computation stops. -/
inductive Panic where
  /-- A slice that leaves its text or cuts a character. -/
  | slice
  /-- A place behind the end of a list. -/
  | index
  /-- A difference below zero. -/
  | underflow
  | location (e : LocationError)
  deriving DecidableEq, Repr

/-- A computation that makes sure of every step. -/
abbrev Checked := Except Panic

namespace Checked

@[simp] theorem ok_bind {α β : Type} (a : α) (f : α → Checked β) :
    (Except.ok a : Checked α) >>= f = f a := rfl

@[simp] theorem pure_eq {α : Type} (a : α) : (pure a : Checked α) = .ok a := rfl

theorem exists_of_bind {α β : Type} {c : Checked α} {f : α → Checked β} {b : β}
    (h : c >>= f = .ok b) : ∃ a, c = .ok a ∧ f a = .ok b := by
  cases c with
  | error e => cases h
  | ok a => exact ⟨a, rfl, h⟩

theorem exists_of_map {α β : Type} {c : Checked α} {f : α → β} {b : β} (h : f <$> c = .ok b) :
    ∃ a, c = .ok a ∧ f a = b := by
  cases c with
  | error e => cases h
  | ok a => exact ⟨a, rfl, Except.ok.inj h⟩

@[simp] theorem map_ok {α β : Type} (a : α) (f : α → β) :
    f <$> (Except.ok a : Checked α) = .ok (f a) := rfl

/-- The difference of two numbers, if there is one. -/
def sub? (m n : Nat) : Checked Nat := if n ≤ m then .ok (m - n) else .error .underflow

theorem sub?_of_le {m n : Nat} (h : n ≤ m) : sub? m n = .ok (m - n) := if_pos h

/-- The element at a place. -/
def get? {α : Type} (xs : List α) (i : Nat) : Checked α :=
  match xs[i]? with
  | some x => .ok x
  | none => .error .index

theorem get?_eq_ok {α : Type} {xs : List α} {i : Nat} {x : α} (h : xs[i]? = some x) :
    get? xs i = .ok x := by
  rw [get?, h]

/-- What follows the first `n` elements. -/
def drop? {α : Type} (xs : List α) (n : Nat) : Checked (List α) :=
  if n ≤ xs.length then .ok (xs.drop n) else .error .slice

theorem drop?_append {α : Type} (xs ys : List α) : drop? (xs ++ ys) xs.length = .ok ys := by
  rw [drop?, if_pos (by simp), List.drop_left]

/-- A location, unless there is none. -/
def locate {α : Type} : Except LocationError α → Checked α
  | .ok a => .ok a
  | .error e => .error (.location e)

@[simp] theorem locate_ok {α : Type} (a : α) : locate (.ok a) = .ok a := rfl

end Checked

/-! ### Slices of a text -/

namespace Text

/-- What follows the first `n` bytes. -/
def from? (n : Nat) (t : Text) : Checked Text :=
  match split? n t with
  | some (_, back) => .ok back
  | none => .error .slice

/-- The first `n` bytes. -/
def upto? (n : Nat) (t : Text) : Checked Text :=
  match split? n t with
  | some (front, _) => .ok front
  | none => .error .slice

/-- The bytes from `start` up to `stop`. -/
def between? (start stop : Nat) (t : Text) : Checked Text :=
  match slice? start stop t with
  | some middle => .ok middle
  | none => .error .slice

/-- What stands behind the first `n` bytes of a text. -/
def HasRest (t : Text) (n : Nat) (rest : Text) : Prop := ∃ front, t = front ++ rest ∧ n = size front

theorem hasRest_zero (t : Text) : t.HasRest 0 t := ⟨[], rfl, rfl⟩

theorem HasRest.append {t s rest : Text} {n : Nat} (h : t.HasRest n (s ++ rest)) :
    t.HasRest (n + size s) rest := by
  obtain ⟨front, rfl, rfl⟩ := h
  exact ⟨front ++ s, by rw [List.append_assoc], by rw [size_append]⟩

theorem HasRest.cons {t rest : Text} {n : Nat} {c : Char} (h : t.HasRest n (c :: rest)) :
    t.HasRest (n + c.utf8Size) rest := HasRest.append (s := [c]) h

theorem HasRest.append_right {t rest : Text} {n : Nat} (h : t.HasRest n rest) (s : Text) :
    (t ++ s).HasRest n (rest ++ s) := by
  obtain ⟨front, rfl, rfl⟩ := h
  exact ⟨front, List.append_assoc front rest s, rfl⟩

theorem HasRest.add_size {t rest : Text} {n : Nat} (h : t.HasRest n rest) :
    n + size rest = size t := by
  obtain ⟨front, rfl, rfl⟩ := h
  rw [size_append]

theorem from?_append (s t : Text) : from? (size s) (s ++ t) = .ok t := by
  rw [from?, split?_size_append]

theorem upto?_append (s t : Text) : upto? (size s) (s ++ t) = .ok s := by
  rw [upto?, split?_size_append]

theorem between?_append (r s t : Text) :
    between? (size r) (size r + size s) (r ++ (s ++ t)) = .ok s := by
  have hslice : slice? (size r) (size r + size s) (r ++ (s ++ t)) = some s := by
    simp [slice?]
  rw [between?, hslice]

/-- **A slice begins where a front of the text ends.** -/
theorem from?_eq_ok_iff {t rest : Text} {n : Nat} : from? n t = .ok rest ↔ t.HasRest n rest := by
  constructor
  · intro h
    rw [from?] at h
    split at h
    · next front back hs =>
      cases h
      exact ⟨front, (append_of_split? hs).symm, (size_of_split? hs).symm⟩
    · cases h
  · rintro ⟨front, rfl, rfl⟩
    exact from?_append front rest

theorem HasRest.from?_eq {t rest : Text} {n : Nat} (h : t.HasRest n rest) :
    from? n t = .ok rest := from?_eq_ok_iff.2 h

theorem HasRest.eq_of_from? {t rest rest' : Text} {n : Nat} (h : t.HasRest n rest)
    (h' : from? n t = .ok rest') : rest = rest' := by
  rw [h.from?_eq] at h'
  exact Except.ok.inj h'

theorem HasRest.ne_error {t rest : Text} {n : Nat} {e : Panic} (h : t.HasRest n rest)
    (he : from? n t = .error e) : False := by
  rw [h.from?_eq] at he
  cases he

theorem lt_size_of_from? {t rest : Text} {n : Nat} {c : Char} (h : from? n t = .ok (c :: rest)) :
    n < size t := by
  have hsize := (from?_eq_ok_iff.1 h).add_size
  have hc := c.utf8Size_pos
  rw [size_cons] at hsize
  omega

/-- A character is not in a text, or its first occurrence is found. -/
theorem before?_singleton (c : Char) (t : Text) :
    (before? [c] t = none ∧ c ∉ t) ∨
      ∃ front rest, t = front ++ c :: rest ∧ before? [c] t = some front ∧ c ∉ front := by
  induction t with
  | nil => exact .inl ⟨rfl, List.not_mem_nil⟩
  | cons d t ih =>
    by_cases hc : c = d
    · subst hc
      exact .inr ⟨[], t, rfl, by rw [before?, if_pos (by simp)], List.not_mem_nil⟩
    · have hcons : before? [c] (d :: t) = (before? [c] t).map (d :: ·) := by
        rw [before?, if_neg (by simpa using hc)]
      obtain ⟨hnone, hfree⟩ | ⟨front, rest, rfl, hsome, hfree⟩ := ih
      · exact .inl ⟨by rw [hcons, hnone]; rfl, List.mem_cons.not.2 (not_or.2 ⟨hc, hfree⟩)⟩
      · exact .inr ⟨d :: front, rest, rfl, by rw [hcons, hsome]; rfl,
          List.mem_cons.not.2 (not_or.2 ⟨hc, hfree⟩)⟩

/-- The front of one kind of character can be cut off. -/
theorem hasRest_prefixSize (p : Char → Bool) (t : Text) :
    t.HasRest (prefixSize p t) (t.dropWhile p) :=
  ⟨t.takeWhile p, List.takeWhile_append_dropWhile.symm, rfl⟩

theorem hasRest_lineBreakSize (t : Text) :
    t.HasRest (lineBreakSize t) (t.drop (lineBreakSize t)) := by
  unfold lineBreakSize
  split
  · next rest => exact ⟨['\r', '\n'], rfl, rfl⟩
  · next rest _ => exact ⟨['\r'], rfl, rfl⟩
  · next rest => exact ⟨['\n'], rfl, rfl⟩
  · exact hasRest_zero t

theorem upto?_prefixSize (p : Char → Bool) (t : Text) :
    upto? (prefixSize p t) t = .ok (t.takeWhile p) := by
  have h := upto?_append (t.takeWhile p) (t.dropWhile p)
  rwa [List.takeWhile_append_dropWhile] at h

theorem upto?_identifier (t : Text) : upto? (size (identifier t)) t = .ok (identifier t) := by
  cases t with
  | nil => rfl
  | cons c t =>
    rw [identifier]
    split
    · exact upto?_prefixSize isIdentifierPart (c :: t)
    · rfl

end Text

/-! ### Locations that fit -/

namespace Location

/-- Neither number of a location is above a bound. -/
structure IsWithin (l : Location) (bound : Nat) : Prop where
  line_le : l.line ≤ bound
  column_le : l.column ≤ bound

theorem IsWithin.mono {l : Location} {m n : Nat} (h : l.IsWithin m) (hmn : m ≤ n) :
    l.IsWithin n := ⟨h.line_le.trans hmn, h.column_le.trans hmn⟩

theorem IsWithin.nextLine {l : Location} {n : Nat} (h : l.IsWithin n) :
    l.nextLine.IsWithin (n + 1) := ⟨Nat.succ_le_succ h.line_le, Nat.le_add_left 1 n⟩

theorem IsWithin.nextColumn {l : Location} {n : Nat} (h : l.IsWithin n) :
    l.nextColumn.IsWithin (n + 1) := ⟨Nat.le_succ_of_le h.line_le, Nat.succ_le_succ h.column_le⟩

theorem IsWithin.nextLine?_eq {l : Location} {n : Nat} (h : l.IsWithin n) (hn : n < maxOrdinal) :
    l.nextLine? = .ok l.nextLine := if_pos (Nat.lt_of_le_of_lt h.line_le hn)

theorem IsWithin.nextColumn?_eq {l : Location} {n : Nat} (h : l.IsWithin n) (hn : n < maxOrdinal) :
    l.nextColumn? = .ok l.nextColumn := if_pos (Nat.lt_of_le_of_lt h.column_le hn)

/-- **A text raises the numbers of a location by no more than its length**, so that it leads to a
location if there is room for that. -/
theorem IsWithin.advance {l : Location} {n : Nat} (h : l.IsWithin n) (t : Text) :
    (l.advance t).IsWithin (n + t.length) ∧
      (n + t.length ≤ maxOrdinal → l.advance? t = .ok (l.advance t)) := by
  fun_induction Location.advance l t generalizing n with
  | case1 l => exact ⟨h, fun _ ↦ rfl⟩
  | case2 l rest ih =>
    obtain ⟨hwithin, hroom⟩ := ih h.nextLine
    simp only [List.length_cons]
    refine ⟨hwithin.mono (by omega), fun hn ↦ ?_⟩
    rw [advance?, h.nextLine?_eq (by omega)]
    exact hroom (by omega)
  | case3 l c rest hne hc ih =>
    obtain ⟨hwithin, hroom⟩ := ih h.nextLine
    simp only [List.length_cons]
    refine ⟨hwithin.mono (by omega), fun hn ↦ ?_⟩
    rw [advance?, if_pos hc, h.nextLine?_eq (by omega)]
    · exact hroom (by omega)
    · exact hne
  | case4 l c rest hne hc ih =>
    obtain ⟨hwithin, hroom⟩ := ih h.nextColumn
    simp only [List.length_cons]
    refine ⟨hwithin.mono (by omega), fun hn ↦ ?_⟩
    rw [advance?, if_neg hc, h.nextColumn?_eq (by omega)]
    · exact hroom (by omega)
    · exact hne

end Location

end LexFront
