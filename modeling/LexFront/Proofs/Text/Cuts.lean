import LexFront.Location.Basic
import Mathlib.Data.List.TakeWhile

/-!
# Cuts of a text

The scanners answer with a number of bytes, and everything that is proved about them speaks of the
two halves of the text that they are run on. A cut is a *seam* if it does not tear a carriage return
from the line feed that belongs to it. Locations add up over seams, and over nothing else.

Key facts:

* `isBoundary_iff`: a boundary is the size of some front of the text.
* `takeWhile_append_of_mem`: what stops inside a text stops there whatever follows.
* `advance_append`: reading two texts one after the other is reading them together, at a seam.
* `notAfter_advance_of_prefix`: a front of a text ends no later than the text.
-/

set_option autoImplicit false

namespace LexFront

namespace Text

/-! ### Sizes and fronts -/

/-- **A boundary is where a front of the text ends.** -/
theorem isBoundary_iff {n : Nat} {t : Text} :
    isBoundary n t = true ↔ ∃ front back, t = front ++ back ∧ n = size front := by
  constructor
  · intro h
    obtain ⟨⟨front, back⟩, hs⟩ := Option.isSome_iff_exists.1 h
    exact ⟨front, back, (append_of_split? hs).symm, (size_of_split? hs).symm⟩
  · rintro ⟨front, back, rfl, rfl⟩
    rw [isBoundary, split?_size_append]
    rfl

theorem isBoundary_size_append (s t : Text) : isBoundary (size s) (s ++ t) = true :=
  isBoundary_iff.2 ⟨s, t, rfl, rfl⟩

/-- Two fronts of one text that are equally long are equal. -/
theorem append_inj_of_size {s t s' t' : Text} (h : s ++ t = s' ++ t') (hs : size s = size s') :
    s = s' ∧ t = t' := by
  have hsplit := split?_size_append s t
  rw [h, hs, split?_size_append] at hsplit
  simpa [eq_comm] using hsplit

theorem size_eq_zero_iff {t : Text} : size t = 0 ↔ t = [] := by
  constructor
  · intro h
    cases t with
    | nil => rfl
    | cons c t => exact absurd (size_pos (List.cons_ne_nil c t)) (by omega)
  · rintro rfl
    rfl

/-- Of two fronts of one text the shorter one is a front of the other. -/
theorem prefix_of_size_le {s s' t : Text} (h : s <+: t) (h' : s' <+: t) (hs : size s ≤ size s') :
    s <+: s' := by
  rcases List.prefix_or_prefix_of_prefix h h' with hp | ⟨r, rfl⟩
  · exact hp
  · rw [size_append] at hs
    have hr : r = [] := size_eq_zero_iff.1 (by omega)
    simp [hr]

/-! ### Stretches of one kind of character -/

/-- A stretch that is not the whole text is stopped by a character of it. -/
theorem exists_of_takeWhile_ne {p : Char → Bool} {t : Text} (h : t.takeWhile p ≠ t) :
    ∃ c ∈ t, p c = false := by
  by_contra hall
  refine h (List.takeWhile_eq_self_iff.2 fun c hc ↦ ?_)
  cases hp : p c with
  | true => rfl
  | false => exact absurd ⟨c, hc, hp⟩ hall

theorem takeWhile_append_of_mem {p : Char → Bool} {s : Text} (h : ∃ c ∈ s, p c = false)
    (t : Text) : (s ++ t).takeWhile p = s.takeWhile p := by
  obtain ⟨c, hc, hpc⟩ := h
  rw [List.takeWhile_append, if_neg]
  intro hlen
  have hself := (List.takeWhile_prefix p).eq_of_length hlen
  rw [List.takeWhile_eq_self_iff.1 hself c hc] at hpc
  cases hpc

/-- The first occurrence of a character is what ends the stretch of other ones. -/
theorem takeWhile_ne {c : Char} {front : Text} (h : c ∉ front) (rest : Text) :
    (front ++ c :: rest).takeWhile (· != c) = front := by
  have hfront : ∀ d ∈ front, (d != c) = true := fun d hd ↦ bne_iff_ne.2 fun hdc ↦ h (hdc ▸ hd)
  rw [List.takeWhile_append_of_pos hfront, List.takeWhile_cons, if_neg (by simp),
    List.append_nil]

/-- The letters are two ranges. -/
theorem isAlpha_iff {c : Char} : c.isAlpha = true ↔
    ('A'.val.toNat ≤ c.val.toNat ∧ c.val.toNat ≤ 'Z'.val.toNat) ∨
      ('a'.val.toNat ≤ c.val.toNat ∧ c.val.toNat ≤ 'z'.val.toNat) := by
  show (decide ('A'.val ≤ c.val ∧ c.val ≤ 'Z'.val) ||
    (decide ('a'.val ≤ c.val) && decide (c.val ≤ 'z'.val))) = true ↔ _
  simp only [Bool.or_eq_true, Bool.and_eq_true, decide_eq_true_eq, UInt32.le_iff_toNat_le]

/-! ### Texts within one line -/

/-- A text within one line. -/
def IsUnbroken (t : Text) : Prop := ∀ c ∈ t, isLineBreak c = false

@[simp] theorem isUnbroken_nil : IsUnbroken [] := by simp [IsUnbroken]

@[simp] theorem isUnbroken_cons {c : Char} {t : Text} :
    IsUnbroken (c :: t) ↔ isLineBreak c = false ∧ IsUnbroken t := by
  simp [IsUnbroken]

/-- Some line of the text is seen to its end. -/
def IsBroken (t : Text) : Prop := ∃ c ∈ t, isLineBreak c = true

theorem isBroken_cons {c : Char} {t : Text} (hc : isLineBreak c = false) :
    IsBroken (c :: t) ↔ IsBroken t := by
  simp [IsBroken, hc]

theorem IsBroken.not_isUnbroken {t : Text} (h : t.IsBroken) : ¬ t.IsUnbroken := by
  obtain ⟨c, hc, hb⟩ := h
  intro hu
  rw [hu c hc] at hb
  cases hb

theorem IsBroken.ne_nil {t : Text} (h : t.IsBroken) : t ≠ [] := by
  rintro rfl
  exact h.not_isUnbroken isUnbroken_nil

theorem isLineBreak_iff {c : Char} : isLineBreak c = true ↔ c = '\n' ∨ c = '\r' := by
  simp [isLineBreak]

theorem ne_return_of_isLineBreak {c : Char} (hc : isLineBreak c = false) : c ≠ '\r' := by
  rintro rfl
  cases hc

/-! ### The first occurrence of a text -/

/-- What stands before an occurrence, the occurrence and what follows make up the text. -/
theorem append_of_before? {needle t inner : Text} (h : before? needle t = some inner) :
    ∃ rest, t = inner ++ needle ++ rest := by
  induction t generalizing inner with
  | nil =>
    simp only [before?] at h
    split at h
    · next hn =>
      obtain rfl := Option.some.inj h
      exact ⟨[], by simp [List.isEmpty_iff.1 hn]⟩
    · cases h
  | cons c t ih =>
    simp only [before?] at h
    split at h
    · next hp =>
      obtain rfl := Option.some.inj h
      obtain ⟨rest, hrest⟩ := List.isPrefixOf_iff_prefix.1 hp
      exact ⟨rest, hrest.symm⟩
    · obtain ⟨inner', hinner, rfl⟩ := Option.map_eq_some_iff.1 h
      obtain ⟨rest, hrest⟩ := ih hinner
      exact ⟨rest, by rw [hrest]; rfl⟩

/-- **The first occurrence stays the first one** when more text follows. -/
theorem before?_append_of_some {needle s inner : Text} (h : before? needle s = some inner)
    (t : Text) : before? needle (s ++ t) = some inner := by
  induction s generalizing inner with
  | nil =>
    simp only [before?] at h
    split at h
    · next hn =>
      obtain rfl := Option.some.inj h
      obtain rfl := List.isEmpty_iff.1 hn
      cases t <;> simp [before?]
    · cases h
  | cons c s ih =>
    rw [List.cons_append]
    simp only [before?] at h ⊢
    split at h
    · next hp =>
      have hp' : needle.isPrefixOf (c :: (s ++ t)) = true :=
        List.isPrefixOf_iff_prefix.2
          ((List.isPrefixOf_iff_prefix.1 hp).trans (List.prefix_append (c :: s) t))
      rw [if_pos hp']
      exact h
    · next hp =>
      obtain ⟨inner', hinner, rfl⟩ := Option.map_eq_some_iff.1 h
      have hp' : ¬ needle.isPrefixOf (c :: (s ++ t)) = true := by
        intro hn
        -- The occurrence in the shorter text ends inside it, so the needle fits into it.
        obtain ⟨rest, hrest⟩ := append_of_before? hinner
        have hlen : needle.length ≤ (c :: s).length := by
          rw [hrest]
          simp only [List.length_cons, List.length_append]
          omega
        have hpre : needle <+: (c :: s) := List.prefix_of_prefix_length_le
          (List.isPrefixOf_iff_prefix.1 hn) (List.prefix_append (c :: s) t) hlen
        exact hp (List.isPrefixOf_iff_prefix.2 hpre)
      rw [if_neg hp', ih hinner]
      rfl

theorem before?_ne_none (inner needle rest : Text) :
    before? needle (inner ++ needle ++ rest) ≠ none := by
  induction inner with
  | nil =>
    cases hn : needle ++ rest with
    | nil => simp_all [before?]
    | cons c r =>
      have hp : needle.isPrefixOf (c :: r) = true := by
        rw [← hn]
        exact List.isPrefixOf_iff_prefix.2 (List.prefix_append needle rest)
      rw [List.nil_append, hn, before?, if_pos hp]
      simp
  | cons c inner ih =>
    simp only [List.cons_append, before?]
    split
    · simp
    · rw [ne_eq, Option.map_eq_none_iff]
      exact ih

/-- An occurrence that was not there before more text followed ends in what followed. -/
theorem size_lt_of_before?_append {needle s t inner : Text} (h : before? needle s = none)
    (h' : before? needle (s ++ t) = some inner) : size s < size (inner ++ needle) := by
  refine Nat.lt_of_not_le fun hle ↦ ?_
  obtain ⟨rest, hrest⟩ := append_of_before? h'
  have hpre : inner ++ needle <+: s :=
    prefix_of_size_le (t := s ++ t) ⟨rest, hrest.symm⟩ (List.prefix_append s t) hle
  obtain ⟨tail, rfl⟩ := hpre
  exact before?_ne_none inner needle tail h

/-! ### Seams -/

/-- The cut between two texts does not tear a line break of two characters. -/
def Seam (s t : Text) : Prop := ¬ (s.getLast? = some '\r' ∧ t.head? = some '\n')

@[simp] theorem seam_nil_left (t : Text) : Seam [] t := by simp [Seam]

@[simp] theorem seam_nil_right (s : Text) : Seam s [] := by simp [Seam]

theorem seam_of_getLast? {s : Text} (h : s.getLast? ≠ some '\r') (t : Text) : Seam s t :=
  fun hs ↦ h hs.1

theorem seam_of_head? {t : Text} (h : t.head? ≠ some '\n') (s : Text) : Seam s t :=
  fun hs ↦ h hs.2

theorem seam_of_forall_mem {s : Text} (h : ∀ c ∈ s, c ≠ '\r') (t : Text) : Seam s t :=
  seam_of_getLast? (fun hs ↦ h _ (List.mem_of_getLast? hs) rfl) t

theorem IsUnbroken.seam {s : Text} (h : s.IsUnbroken) (t : Text) : Seam s t :=
  seam_of_forall_mem (fun c hc ↦ ne_return_of_isLineBreak (h c hc)) t

theorem getLast?_append_of_ne_nil (s : Text) {t : Text} (h : t ≠ []) :
    (s ++ t).getLast? = t.getLast? := by
  rw [List.getLast?_append, List.getLast?_eq_some_getLast h]
  rfl

theorem head?_append_of_ne_nil {s : Text} (h : s ≠ []) (t : Text) :
    (s ++ t).head? = s.head? := by
  cases s with
  | nil => exact absurd rfl h
  | cons c s => rfl

/-- Only what stands right before a cut matters. -/
theorem seam_append_left (r : Text) {s : Text} (hs : s ≠ []) (t : Text) :
    Seam (r ++ s) t ↔ Seam s t := by
  rw [Seam, Seam, getLast?_append_of_ne_nil r hs]

/-- Only what stands right behind a cut matters. -/
theorem seam_append_right (s : Text) {t : Text} (ht : t ≠ []) (r : Text) :
    Seam s (t ++ r) ↔ Seam s t := by
  rw [Seam, Seam, head?_append_of_ne_nil ht]

end Text

namespace Location

/-- **Reading two texts one after the other is reading them together**, if no line break is torn
between them. -/
theorem advance_append {s t : Text} (h : Text.Seam s t) (l : Location) :
    l.advance (s ++ t) = (l.advance s).advance t := by
  fun_induction advance l s with
  | case1 l => rfl
  | case2 l rest ih =>
    rw [List.cons_append, List.cons_append, advance]
    refine ih fun hs ↦ h ⟨?_, hs.2⟩
    rw [List.getLast?_cons, List.getLast?_cons, hs.1]
    rfl
  | case3 l c rest hne hc ih =>
    have hseam : Text.Seam rest t := fun hs ↦ h ⟨by rw [List.getLast?_cons, hs.1]; rfl, hs.2⟩
    have hne' : ∀ r, c = '\r' → rest ++ t = '\n' :: r → False := by
      intro r hcr hr
      cases rest with
      | nil => exact h ⟨by simp [hcr], by rw [← List.nil_append t, hr]; rfl⟩
      | cons d rest => exact hne rest hcr (by rw [(List.cons.inj hr).1])
    rw [List.cons_append, advance, if_pos hc, ih hseam]
    exact hne'
  | case4 l c rest hne hc ih =>
    have hseam : Text.Seam rest t := fun hs ↦ h ⟨by rw [List.getLast?_cons, hs.1]; rfl, hs.2⟩
    rw [List.cons_append, advance, if_neg hc, ih hseam]
    rintro r rfl -
    exact hc rfl

/-! ### The order of locations -/

/-- Within a unit the line decides, and within a line the column. -/
theorem notAfter_iff {a b : Location} (h : a.unit = b.unit) : a.notAfter b = true ↔
    a.line < b.line ∨ a.line = b.line ∧ a.column ≤ b.column := by
  have hunit : Ord.compare a.unit b.unit = .eq := by
    rw [h]
    exact Std.ReflCmp.compare_self
  rw [notAfter, compare, hunit, Ordering.then_eq]
  rcases Nat.lt_trichotomy a.line b.line with hl | hl | hl
  · simp [Nat.compare_eq_lt.2 hl, hl]
  · rw [Nat.compare_eq_eq.2 hl, Ordering.eq_then, Nat.isLE_compare]
    omega
  · simp only [Nat.compare_eq_gt.2 hl]
    have : ¬ (a.line < b.line ∨ a.line = b.line ∧ a.column ≤ b.column) := by omega
    simp [this]

theorem notAfter_refl (l : Location) : l.notAfter l = true := by
  rw [notAfter_iff rfl]
  omega

/-- **Reading goes forward.** -/
theorem notAfter_advance (l : Location) (t : Text) : l.notAfter (l.advance t) = true := by
  rw [notAfter_iff (unit_advance l t).symm]
  fun_induction advance l t with
  | case1 => omega
  | case2 l rest ih =>
    have hline : l.nextLine.line = l.line + 1 := rfl
    omega
  | case3 l c rest _ _ ih =>
    have hline : l.nextLine.line = l.line + 1 := rfl
    omega
  | case4 l c rest _ _ ih =>
    have hline : l.nextColumn.line = l.line := rfl
    have hcolumn : l.nextColumn.column = l.column + 1 := rfl
    omega

/-- **A front of a text ends no later than the text**, even if the two part within a line break. -/
theorem notAfter_advance_of_prefix {s t : Text} (h : s <+: t) (l : Location) :
    (l.advance s).notAfter (l.advance t) = true := by
  fun_induction advance l s generalizing t with
  | case1 l => exact notAfter_advance l t
  | case2 l rest ih =>
    obtain ⟨tail, rfl⟩ := h
    exact ih (List.prefix_append rest tail)
  | case3 l c rest hne hc ih =>
    obtain ⟨tail, rfl⟩ := h
    by_cases hpair : c = '\r' ∧ ∃ back, rest ++ tail = '\n' :: back
    · -- The front ends between the two characters of a line break.
      obtain ⟨rfl, back, hback⟩ := hpair
      have hrest : rest = [] := by
        cases rest with
        | nil => rfl
        | cons d rest => exact absurd (List.cons.inj hback).1 fun hd ↦ hne rest rfl (by rw [hd])
      subst hrest
      obtain rfl : tail = '\n' :: back := hback
      exact notAfter_advance l.nextLine back
    · rw [List.cons_append, advance, if_pos hc]
      · exact ih (List.prefix_append rest tail)
      · exact fun back hcr hback ↦ hpair ⟨hcr, back, hback⟩
  | case4 l c rest hne hc ih =>
    obtain ⟨tail, rfl⟩ := h
    rw [List.cons_append, advance, if_neg hc]
    · exact ih (List.prefix_append rest tail)
    · rintro r rfl -
      exact hc rfl

end Location

end LexFront
