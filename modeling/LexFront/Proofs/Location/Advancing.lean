import LexFront.Proofs.Checked.Slices
import LexFront.Proofs.Line.Locating
import Mathlib.Data.List.DropRight
import Mathlib.Data.List.Infix

/-!
# Where reading a text leads

A location moves along a text one character at a time, with one character of look-ahead for the line
break of two characters. Where it arrives is told here by the text alone: by the number of its line
breaks (`breakCount`) and by what stands behind the last of them (`lastLine`).

Texts act on locations, but not quite: a carriage return at the end of one text and a line feed at
the start of the next are two line breaks if the texts are read one after the other, and one if they
are read together. That is the only exception, and all it does is to lead one line too far down.

The numbers of a location are of 32 bits for everybody but the lexer. A text has room behind a
location if none of its fronts leads to a larger number, and this is when the checked move answers.

Key facts:

* `line_advance`, `column_advance`: the two numbers of the place where a text ends.
* `advance_of_not_seam`: what a torn line break does.
* `hasRoom_iff`: the checked move answers where there is room.
* `advance_action`: all of this together.
-/

set_option autoImplicit false

namespace LexFront

namespace Text

/-! ### Line breaks of a text -/

/-- Whether a text begins with the last character of a line break. -/
def closesBreak : Text → Bool
  | '\r' :: '\n' :: _ => false
  | c :: _ => isLineBreak c
  | [] => false

/-- The number of line breaks of a text. A carriage return and a line feed behind it are one. -/
def breakCount (t : Text) : Nat := t.tails.countP closesBreak

/-- What stands behind the last line break, the whole text if there is none. -/
def lastLine (t : Text) : Text := t.rtakeWhile fun c ↦ !isLineBreak c

theorem breakCount_cons (c : Char) (t : Text) :
    breakCount (c :: t) = breakCount t + (closesBreak (c :: t)).toNat := by
  rw [breakCount, List.tails_cons, List.countP_cons, breakCount]
  cases closesBreak (c :: t) <;> rfl

theorem breakCount_pair (rest : Text) :
    breakCount ('\r' :: '\n' :: rest) = breakCount rest + 1 := by
  rw [breakCount_cons, breakCount_cons]
  rfl

theorem breakCount_cons_of_not_pair {c : Char} {t : Text}
    (h : ∀ rest, c = '\r' → t = '\n' :: rest → False) :
    breakCount (c :: t) = breakCount t + (isLineBreak c).toNat := by
  rw [breakCount_cons, closesBreak]
  exact h

theorem lastLine_of_isUnbroken {t : Text} (h : t.IsUnbroken) : lastLine t = t :=
  List.rtakeWhile_eq_self_iff.2 fun c hc ↦ by simp [h c hc]

/-- Nothing in front of a line break makes a difference to what stands behind the last one. -/
theorem lastLine_append (s : Text) {t : Text} (h : t.IsBroken) :
    lastLine (s ++ t) = lastLine t := by
  have hstop : ∃ c ∈ t.reverse, (!isLineBreak c) = false := by
    obtain ⟨c, hc, hb⟩ := h
    exact ⟨c, List.mem_reverse.2 hc, by simp [hb]⟩
  rw [lastLine, List.rtakeWhile, List.reverse_append, takeWhile_append_of_mem hstop, lastLine,
    List.rtakeWhile]

theorem seam_singleton {c : Char} {t : Text} (h : ∀ rest, c = '\r' → t = '\n' :: rest → False) :
    Seam [c] t := by
  rintro ⟨hc, ht⟩
  obtain ⟨rest, hrest⟩ := List.head?_eq_some_iff.1 ht
  exact h rest (Option.some.inj hc) hrest

theorem isUnbroken_iff {t : Text} : t.IsUnbroken ↔ ¬ t.IsBroken := by
  simp [IsUnbroken, IsBroken]

/-- A line break itself is not behind the last one. -/
theorem lastLine_cons_of_isLineBreak {c : Char} (hc : isLineBreak c = true) (t : Text) :
    lastLine (c :: t) = lastLine t := by
  by_cases ht : t.IsBroken
  · exact lastLine_append [c] ht
  · have hunbroken := isUnbroken_iff.2 ht
    have hall : ∀ d ∈ t.reverse, (!isLineBreak d) = true := fun d hd ↦ by
      simp [hunbroken d (List.mem_reverse.1 hd)]
    rw [lastLine_of_isUnbroken hunbroken, lastLine, List.rtakeWhile, List.reverse_cons,
      List.takeWhile_append_of_pos hall, List.takeWhile_cons, if_neg (by simp [hc]),
      List.append_nil, List.reverse_reverse]

end Text

namespace Location

/-! ### The place where a text ends -/

theorem advance_singleton (l : Location) (c : Char) :
    l.advance [c] = if Text.isLineBreak c then l.nextLine else l.nextColumn := by
  rw [advance]
  · rfl
  · exact fun _ _ h ↦ List.cons_ne_nil _ _ h.symm

/-- **The line grows by the number of line breaks.** -/
theorem line_advance (l : Location) (t : Text) : (l.advance t).line = l.line + t.breakCount := by
  have hline : ∀ m : Location, m.nextLine.line = m.line + 1 := fun _ ↦ rfl
  fun_induction advance l t with
  | case1 l => rfl
  | case2 l rest ih =>
    rw [ih, hline, Text.breakCount_pair]
    omega
  | case3 l c rest hne hc ih =>
    rw [ih, hline, Text.breakCount_cons_of_not_pair hne, hc, Bool.toNat_true]
    omega
  | case4 l c rest hne hc ih =>
    rw [ih, Text.breakCount_cons_of_not_pair hne, eq_false_of_ne_true hc]
    rfl

/-- **The column is counted from the last line break on.** -/
theorem column_advance {t : Text} (h : t.IsBroken) (l : Location) :
    (l.advance t).column = 1 + t.lastLine.length := by
  -- Behind a line break it makes no difference whether there is another one.
  have hbreak : ∀ {m : Location} {rest : Text},
      (rest.IsBroken → (m.nextLine.advance rest).column = 1 + rest.lastLine.length) →
      (m.nextLine.advance rest).column = 1 + rest.lastLine.length := by
    intro m rest ih
    by_cases hrest : rest.IsBroken
    · exact ih hrest
    · have hunbroken := Text.isUnbroken_iff.2 hrest
      rw [advance_of_isUnbroken hunbroken, Text.lastLine_of_isUnbroken hunbroken]
      rfl
  fun_induction advance l t with
  | case1 l => exact absurd h (Text.isUnbroken_iff.1 Text.isUnbroken_nil)
  | case2 l rest ih =>
    rw [hbreak ih, Text.lastLine_cons_of_isLineBreak rfl, Text.lastLine_cons_of_isLineBreak rfl]
  | case3 l c rest hne hc ih => rw [hbreak ih, Text.lastLine_cons_of_isLineBreak hc]
  | case4 l c rest hne hc ih =>
    have hrest := (Text.isBroken_cons (by simpa using hc)).1 h
    rw [ih hrest]
    exact congrArg (1 + List.length ·) (Text.lastLine_append [c] hrest).symm

/-! ### Torn line breaks -/

/-- The same column one line further down. -/
def below (l : Location) : Location := { l with line := l.line + 1 }

theorem advance_below (l : Location) (t : Text) : l.below.advance t = (l.advance t).below := by
  fun_induction advance l t with
  | case1 l => rfl
  | case2 l rest ih => exact ih
  | case3 l c rest hne hc ih =>
    rw [advance, if_pos hc]
    · exact ih
    · exact hne
  | case4 l c rest hne hc ih =>
    rw [advance, if_neg hc]
    · exact ih
    · exact hne

/-- **A torn line break counts twice.** -/
theorem advance_of_not_seam {s t : Text} (h : ¬ Text.Seam s t) (l : Location) :
    (l.advance s).advance t = (l.advance (s ++ t)).below := by
  obtain ⟨hlast, hhead⟩ := not_not.1 h
  obtain ⟨s, rfl⟩ := List.getLast?_eq_some_iff.1 hlast
  obtain ⟨t, rfl⟩ := List.head?_eq_some_iff.1 hhead
  have hseam : ∀ back, Text.Seam s ('\r' :: back) := fun back ↦ Text.seam_of_head? (by simp) s
  have htogether : l.advance (s ++ ['\r'] ++ '\n' :: t) = (l.advance s).nextLine.advance t := by
    rw [List.append_assoc, List.singleton_append, advance_append (hseam _), advance]
  have hapart : l.advance (s ++ ['\r']) = (l.advance s).nextLine := advance_append (hseam []) l
  rw [htogether, hapart, ← advance_below]
  rfl

/-! ### Room for a text -/

/-- Neither the location nor any place on the way has a number that is too large. -/
def HasRoom (l : Location) (t : Text) : Prop := ∀ p, p <+: t → (l.advance p).IsWithin maxOrdinal

theorem hasRoom_cons {c : Char} {rest : Text} (h : Text.Seam [c] rest) (l : Location) :
    l.HasRoom (c :: rest) ↔ l.IsWithin maxOrdinal ∧ (l.advance [c]).HasRoom rest := by
  have hbehind : ∀ q, q <+: rest → l.advance (c :: q) = (l.advance [c]).advance q := by
    rintro q ⟨r, rfl⟩
    by_cases hq : q = []
    · rw [hq, advance]
    · exact advance_append ((Text.seam_append_right [c] hq r).1 h) l
  constructor
  · refine fun hroom ↦ ⟨hroom [] List.nil_prefix, fun q hq ↦ ?_⟩
    rw [← hbehind q hq]
    exact hroom _ (List.cons_prefix_cons.2 ⟨rfl, hq⟩)
  · rintro ⟨hstart, hrest⟩ p hp
    rcases List.prefix_cons_iff.1 hp with rfl | ⟨q, rfl, hq⟩
    · exact hstart
    · rw [hbehind q hq]
      exact hrest q hq

/-- Between the two characters of a line break is the same place as behind them. -/
theorem hasRoom_pair (l : Location) (rest : Text) :
    l.HasRoom ('\r' :: '\n' :: rest) ↔ l.IsWithin maxOrdinal ∧ l.nextLine.HasRoom rest := by
  constructor
  · refine fun hroom ↦ ⟨hroom [] List.nil_prefix, fun q hq ↦ ?_⟩
    exact hroom _ (List.cons_prefix_cons.2 ⟨rfl, List.cons_prefix_cons.2 ⟨rfl, hq⟩⟩)
  · rintro ⟨hstart, hrest⟩ p hp
    rcases List.prefix_cons_iff.1 hp with rfl | ⟨p, rfl, hfeed⟩
    · exact hstart
    · rcases List.prefix_cons_iff.1 hfeed with rfl | ⟨q, rfl, hq⟩
      · exact hrest [] List.nil_prefix
      · exact hrest q hq

/-- A guarded step with something behind it. -/
theorem ite_bind_eq_ok_iff {p : Prop} [Decidable p] {e : LocationError} {l m : Location}
    {move : Location → Except LocationError Location} :
    ((if p then .ok l else .error e) >>= move) = .ok m ↔ p ∧ move l = .ok m := by
  split
  · next hp => exact ⟨fun hm ↦ ⟨hp, hm⟩, And.right⟩
  · next hp => exact ⟨nofun, fun hm ↦ absurd hm.1 hp⟩

theorem isWithin_nextLine_iff {l : Location} :
    l.nextLine.IsWithin maxOrdinal ↔ l.line < maxOrdinal :=
  ⟨IsWithin.line_le, fun h ↦ ⟨h, by simp [nextLine, maxOrdinal]⟩⟩

theorem isWithin_nextColumn_iff {l : Location} (h : l.IsWithin maxOrdinal) :
    l.nextColumn.IsWithin maxOrdinal ↔ l.column < maxOrdinal :=
  ⟨IsWithin.column_le, fun hc ↦ ⟨h.line_le, hc⟩⟩

/-- **The checked move answers where there is room**, and the same as the plain one. -/
theorem hasRoom_iff (l : Location) (t : Text) :
    l.HasRoom t ↔ l.IsWithin maxOrdinal ∧ l.advance? t = .ok (l.advance t) := by
  fun_induction advance l t with
  | case1 l => simp [HasRoom, advance, advance?]
  | case2 l rest ih =>
    rw [hasRoom_pair, ih, isWithin_nextLine_iff, advance?, nextLine?, ite_bind_eq_ok_iff]
  | case3 l c rest hne hc ih =>
    have hcheck : l.advance? (c :: rest) = l.nextLine? >>= (·.advance? rest) := by
      rw [advance?, if_pos hc]
      exact hne
    rw [hasRoom_cons (Text.seam_singleton hne), advance_singleton, if_pos hc, ih,
      isWithin_nextLine_iff, hcheck, nextLine?, ite_bind_eq_ok_iff]
  | case4 l c rest hne hc ih =>
    have hcheck : l.advance? (c :: rest) = l.nextColumn? >>= (·.advance? rest) := by
      rw [advance?, if_neg hc]
      exact hne
    rw [hasRoom_cons (Text.seam_singleton hne), advance_singleton, if_neg hc, ih, hcheck,
      nextColumn?, ite_bind_eq_ok_iff]
    exact and_congr_right fun hl ↦ by rw [isWithin_nextColumn_iff hl]

/-- **Of two places in a unit the later one stays the later one** when a text is read from both. -/
theorem notAfter_advance_advance {l m : Location} (hunit : l.unit = m.unit)
    (h : l.notAfter m = true) (t : Text) : (l.advance t).notAfter (m.advance t) = true := by
  rw [notAfter_iff hunit] at h
  rw [notAfter_iff (by simpa using hunit), line_advance, line_advance]
  by_cases ht : t.IsBroken
  · rw [column_advance ht, column_advance ht]
    omega
  · have hunbroken := Text.isUnbroken_iff.2 ht
    rw [advance_of_isUnbroken hunbroken, advance_of_isUnbroken hunbroken]
    simp only
    omega

/-- **Texts act on locations**, except for torn line breaks, and never backwards. Reading a text
leads as many lines down as it has line breaks, and behind the last of them as many columns to the
right as there are characters. Where all numbers on the way are of 32 bits the checked move answers
the same, and there only. -/
theorem advance_action (l : Location) (s t : Text) :
    (¬ (s.getLast? = some '\r' ∧ t.head? = some '\n') →
        l.advance (s ++ t) = (l.advance s).advance t) ∧
      (s.getLast? = some '\r' ∧ t.head? = some '\n' →
        (l.advance s).advance t = (l.advance (s ++ t)).below) ∧
      l.notAfter (l.advance s) = true ∧
      (∀ m : Location, l.unit = m.unit → l.notAfter m = true →
        (l.advance s).notAfter (m.advance s) = true) ∧
      (l.advance s).line = l.line + s.breakCount ∧
      (s.IsBroken → (l.advance s).column = 1 + s.lastLine.length) ∧
      (¬ s.IsBroken → (l.advance s).column = l.column + s.length) ∧
      ∀ (m : Location) (u : Text),
        m.HasRoom u ↔ m.IsWithin maxOrdinal ∧ m.advance? u = .ok (m.advance u) := by
  refine ⟨fun hseam ↦ advance_append hseam l, fun htorn ↦ ?_, notAfter_advance l s,
    fun m hunit h ↦ notAfter_advance_advance hunit h s, line_advance l s,
    fun hbroken ↦ column_advance hbroken l, fun hbroken ↦ ?_, hasRoom_iff⟩
  · exact advance_of_not_seam (not_not.2 htorn) l
  · rw [advance_of_isUnbroken (Text.isUnbroken_iff.2 hbroken)]

/-- A carriage return, and then a line feed that would have belonged to it. -/
example : ((Location.start "u").advance ['a', '\r']).advance ['\n', 'b'] = ⟨"u", 3, 2⟩ := rfl

end Location

end LexFront
