import LexFront.Proofs.Line.Splitting

/-!
# Where lines start and end

A splitter counts its lines. That is a second way of working out locations, beside reading the text
from the start of the unit, and the two agree: a line starts where the lines before it end, and it
ends where the next one starts. The reason is that lines that follow each other meet at seams.

Key facts:

* `endLocation_eq_advance`: the end of a line is what reading it leads to.
* `Consecutive.location_eq`: the number of a line is what reading the lines before it leads to.
* `locations_of_rest`: so it is for the lines that a splitter hands out.
-/

set_option autoImplicit false

namespace LexFront

namespace Location

/-- Within one line only the column changes. -/
theorem advance_of_isUnbroken {t : Text} (ht : t.IsUnbroken) (l : Location) :
    l.advance t = { l with column := l.column + t.length } := by
  induction t generalizing l with
  | nil => rfl
  | cons c t ih =>
    rw [Text.isUnbroken_cons] at ht
    rw [advance, if_neg (by simp [ht.1]), ih ht.2]
    · simp [nextColumn, Nat.add_comm, Nat.add_left_comm]
    · rintro r rfl -
      simp [Text.isLineBreak] at ht

end Location

namespace Line

/-- **The end of a line is what reading it leads to.** -/
theorem endLocation_eq_advance {l : Line} (h : l.text.IsUnbroken) :
    l.endLocation = l.location.advance l.raw := by
  rw [raw, Location.advance_append (h.seam _), endLocation]
  cases l.terminator <;> rfl

/-- What is known of the first of some lines that follow each other. -/
structure Heads (unit : String) (n : Nat) (l : Line) (rest : List Line) : Prop where
  location : l.location = ⟨unit, n, 1⟩
  raw_ne_nil : l.raw ≠ []
  endLocation : l.endLocation = l.location.advance l.raw
  seam : Text.Seam l.raw (rest.flatMap raw)
  next : rest ≠ [] → l.endLocation = ⟨unit, n + 1, 1⟩
  /-- Only the last line lacks its break. -/
  ends : rest ≠ [] → ∃ b, l.raw.getLast? = some b ∧ Text.isLineBreak b = true
  rest : Consecutive unit (n + 1) rest

theorem Consecutive.heads {unit : String} {n : Nat} {l : Line} {rest : List Line}
    (h : Consecutive unit n (l :: rest)) : Heads unit n l rest := by
  cases h with
  | last hu hne =>
    exact {
      location := rfl
      raw_ne_nil := by simpa [raw, Terminator.text] using hne
      endLocation := endLocation_eq_advance hu
      seam := Text.seam_nil_right _
      next := fun h ↦ absurd rfl h
      ends := fun h ↦ absurd rfl h
      rest := .nil }
  | @cons _ text t _ hu ht hcr hrest =>
    refine {
      location := rfl
      raw_ne_nil := by cases t <;> simp_all [raw, Terminator.text]
      endLocation := endLocation_eq_advance hu
      seam := ?_
      next := fun _ ↦ ?_
      ends := fun _ ↦ ?_
      rest := hrest }
    · cases t with
      | none => exact absurd rfl ht
      | lf => exact Text.seam_of_getLast? (by simp [raw, Terminator.text]) _
      | cr => exact Text.seam_of_head? (hcr rfl) _
      | crLf => exact Text.seam_of_getLast? (by simp [raw, Terminator.text]) _
    · rw [Line.endLocation, Location.advance_of_isUnbroken hu]
      cases t with
      | none => exact absurd rfl ht
      | lf => rfl
      | cr => rfl
      | crLf => rfl
    · have hne : text ++ t.text ≠ [] := by cases t <;> simp_all [Terminator.text]
      obtain ⟨b, hb⟩ := List.getLast?_isSome.2 hne |> Option.isSome_iff_exists.1
      exact ⟨b, hb, t.isLineBreak_of_getLast? ht hb⟩

/-- **A line starts and ends where reading the lines up to it does.** -/
theorem Consecutive.location_eq {unit : String} {n : Nat} {front back : List Line} {l : Line}
    (h : Consecutive unit n (front ++ l :: back)) :
    l.location = Location.advance ⟨unit, n, 1⟩ (front.flatMap raw) ∧
      l.endLocation = Location.advance ⟨unit, n, 1⟩ ((front ++ [l]).flatMap raw) := by
  induction front generalizing n with
  | nil =>
    have hl := Consecutive.heads h
    refine ⟨hl.location, ?_⟩
    rw [hl.endLocation, hl.location, List.nil_append, List.flatMap_singleton]
  | cons m front ih =>
    have hm : Heads unit n m (front ++ l :: back) := Consecutive.heads h
    have hne : front ++ l :: back ≠ [] := by simp
    have hnext := hm.next hne
    rw [hm.endLocation, hm.location] at hnext
    obtain ⟨hstart, hstop⟩ := ih hm.rest
    -- Both parts of the lines behind `m` begin like all of them, so both meet `m` at a seam.
    have hseam : ∀ r r', front ++ l :: back = r ++ r' → Text.Seam m.raw (r.flatMap raw) := by
      intro r r' hr
      cases hr₀ : r.flatMap raw with
      | nil => exact Text.seam_nil_right _
      | cons c t =>
        have hs := hm.seam
        rw [hr, List.flatMap_append, hr₀, Text.seam_append_right _ (by simp)] at hs
        exact hs
    refine ⟨?_, ?_⟩
    · rw [List.flatMap_cons, Location.advance_append (hseam front _ rfl), hnext]
      exact hstart
    · rw [List.cons_append, List.flatMap_cons,
        Location.advance_append (hseam (front ++ [l]) back (by simp)), hnext]
      exact hstop

end Line

/-- **The lines of a splitter are where reading the unit leads to.** -/
theorem Splitter.locations_of_rest (unit : String) (decoder : Decoder) (limit : Nat)
    {front back : List Line} {l : Line}
    (h : ({ unit, decoder, limit } : Splitter).rest.1 = front ++ l :: back) :
    l.location = (Location.start unit).advance (front.flatMap Line.raw) ∧
      l.endLocation = (Location.start unit).advance ((front ++ [l]).flatMap Line.raw) := by
  have hc := ({ unit, decoder, limit } : Splitter).consecutive_rest
  rw [h] at hc
  exact hc.location_eq

end LexFront
