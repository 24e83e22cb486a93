import LexFront.Text.Basic

/-!
# Paths

The components of a path stand between slashes. Empty components and single dots mean nothing, so
that a path may end in a slash and still name the file before it; two dots name a parent and never
a file.

Key facts:

* `intercalate_components`: the components with slashes between them are the path.
-/

set_option autoImplicit false

namespace LexFront.Path

/-- The components of a path, the empty ones included. -/
def components : Text → List Text
  | [] => [[]]
  | c :: rest =>
    if c = '/' then [] :: components rest
    else
      match components rest with
      | [] => [[c]]
      | first :: others => (c :: first) :: others

theorem components_ne_nil (p : Text) : components p ≠ [] := by
  cases p with
  | nil => simp [components]
  | cons c rest =>
    simp only [components]
    split
    · simp
    · split <;> simp

theorem intercalate_components (p : Text) : ['/'].intercalate (components p) = p := by
  induction p with
  | nil => rfl
  | cons c rest ih =>
    simp only [components]
    split
    · next h =>
      subst h
      cases hr : components rest with
      | nil => exact absurd hr (components_ne_nil rest)
      | cons first others => simp [List.intercalate, hr] at ih ⊢; exact ih
    · cases hr : components rest with
      | nil => exact absurd hr (components_ne_nil rest)
      | cons first others =>
        rw [hr] at ih
        cases others <;> simp_all [List.intercalate, List.intersperse]

/-- Components that mean nothing. -/
def isIdle (component : Text) : Bool := component == [] || component == ['.']

/-- The name of the file that a path leads to. -/
def fileName? (p : Text) : Option Text :=
  match ((components p).filter (!isIdle ·)).getLast? with
  | some name => if name = ['.', '.'] then none else some name
  | none => none

/-- What follows the last dot of a file name. A dot at the very front starts no extension. -/
def extension? (p : Text) : Option Text := do
  let name ← fileName? p
  let after := (name.reverse.takeWhile (· ≠ '.')).reverse
  if after.length + 1 < name.length then some after else none

end LexFront.Path
