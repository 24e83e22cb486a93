import LexFront.Journal.Event
import LexFront.Limits

/-!
# The ledger of failures and warnings by unit

For every unit the ledger keeps the entries recorded under its name, up to a limit; the first entry
above the limit leaves one warning in its place and the rest leave nothing. `Ledger.summary` counts
units and entries, `Ledger.report` writes them out unit by unit, sorted by name.

Key facts:

* `entries_record`: recording adds to the entries of its own unit and touches no other.
* `length_keep_le`: no unit comes to hold more than one entry above the limit.
-/

set_option autoImplicit false

namespace LexFront

/-- The entries of each known unit, in the order in which the units became known. -/
structure Ledger where
  units : List (String × List Event) := []
  deriving DecidableEq, Repr

namespace Ledger

/-- Changes the entries of a unit; a unit that was not known had none. -/
def alter (unit : String) (f : List Event → List Event) :
    List (String × List Event) → List (String × List Event)
  | [] => [(unit, f [])]
  | (u, es) :: rest => if unit = u then (u, f es) :: rest else (u, es) :: alter unit f rest

/-- The warning that stands for all entries above the limit. -/
def overflowWarning : Event :=
  .warning s!"Too many events for unit (limit: {Limits.entriesPerUnit})"

/-- Adds an entry as far as the limit allows. -/
def keep (e : Event) (es : List Event) : List Event :=
  if es.length < Limits.entriesPerUnit then es ++ [e]
  else if es.length = Limits.entriesPerUnit then es ++ [overflowWarning]
  else es

/-- Makes a unit known. -/
def note (l : Ledger) (unit : String) : Ledger := ⟨alter unit id l.units⟩

/-- Records an entry under a unit. -/
def record (l : Ledger) (unit : String) (e : Event) : Ledger := ⟨alter unit (keep e) l.units⟩

/-- The entries of a unit. -/
def entries (l : Ledger) (unit : String) : List Event := (l.units.lookup unit).getD []

/-- The failures of a unit. -/
def errors (l : Ledger) (unit : String) : List Event := (l.entries unit).filter (·.isError)

theorem lookup_alter (unit name : String) (f : List Event → List Event)
    (units : List (String × List Event)) :
    (alter unit f units).lookup name =
      if name = unit then some (f ((units.lookup unit).getD [])) else units.lookup name := by
  induction units with
  | nil =>
    by_cases h : name = unit
    · simp [alter, h]
    · have : (name == unit) = false := by simpa using h
      simp [alter, List.lookup_cons, this, h]
  | cons p rest ih =>
    obtain ⟨u, es⟩ := p
    simp only [alter]
    split
    · next hu =>
      subst hu
      by_cases h : name = unit <;> simp [List.lookup_cons, h, beq_eq_false_iff_ne.2]
    · next hu =>
      have hne : (unit == u) = false := by simpa using hu
      by_cases h : name = u
      · subst h
        simp [Ne.symm hu]
      · have hnu : (name == u) = false := by simpa using h
        simp [List.lookup_cons, hnu, hne, ih]

theorem entries_record (l : Ledger) (unit name : String) (e : Event) :
    (l.record unit e).entries name =
      if name = unit then keep e (l.entries unit) else l.entries name := by
  simp only [entries, record, lookup_alter]
  split <;> simp

theorem length_keep_le (e : Event) {es : List Event} (h : es.length ≤ Limits.entriesPerUnit + 1) :
    (keep e es).length ≤ Limits.entriesPerUnit + 1 := by
  simp only [keep]
  split
  · simp only [List.length_append, List.length_singleton]; omega
  · split
    · simp only [List.length_append, List.length_singleton]; omega
    · exact h

/-- The known units by name. -/
def sorted (l : Ledger) : List (String × List Event) :=
  l.units.mergeSort fun a b ↦ decide (a.1 ≤ b.1)

/-! ### Counting -/

/-- How the units of a ledger fared. -/
structure Summary where
  units : Nat := 0
  clean : Nat := 0
  failed : Nat := 0
  withWarnings : Nat := 0
  errors : Nat := 0
  warnings : Nat := 0
  deriving DecidableEq, Repr

/-- Whether anything failed. -/
def Summary.hasErrors (s : Summary) : Bool := 0 < s.errors

/-- Counts one unit: it failed if it has a failure, else it has warnings or is clean. -/
def Summary.addUnit (s : Summary) (es : List Event) : Summary :=
  let errors := es.countP (·.isError)
  let warnings := es.countP (·.isWarning)
  let s := { s with
    units := s.units + 1
    errors := s.errors + errors
    warnings := s.warnings + warnings }
  if 0 < errors then { s with failed := s.failed + 1 }
  else if 0 < warnings then { s with withWarnings := s.withWarnings + 1 }
  else { s with clean := s.clean + 1 }

/-- The count over all known units. -/
def summary (l : Ledger) : Summary := l.units.foldl (fun s (_, es) ↦ s.addUnit es) {}

/-! ### Writing -/

/-- The context lines of an entry; the unit itself is in the heading already. -/
def contextLines (e : Event) : String :=
  String.join <| (e.context.filter fun (k, _) ↦ k != "unit" && k != "unit_id").map
    fun (k, v) ↦ s!"  = {k}: {v}\n"

/-- One entry of a report: a heading with the place, the context, and the advice if there is any. -/
def reportEntry (unit : String) (e : Event) : String :=
  let label := if e.isError then "error" else "warning"
  let place := match e.span with
    | some s => s!" --> {unit}:{s.start.line}:{s.start.column}"
    | none => ""
  let help :=
    if e.isError && e.code.action != Code.noAction then s!"  = help: {e.code.action}\n" else ""
  s!"{label}[{e.code.text}]: {e.message}{place}\n" ++ contextLines e ++ help

/-- The failures and warnings of one unit under its name; nothing if there are none. -/
def reportUnit (unit : String) (es : List Event) : String :=
  match es.filter fun e ↦ e.isError || e.isWarning with
  | [] => ""
  | reportable =>
    s!"Checking {unit}...\n" ++ String.join (reportable.map (reportEntry unit)) ++ "\n"

/-- The last line of a report; units with warnings only count as clean there. -/
def Summary.line (s : Summary) : String :=
  s!"{s.units} unit(s) checked: {s.clean + s.withWarnings} clean, {s.failed} failed, " ++
    s!"{s.errors} error(s), {s.warnings} warning(s)\n"

/-- All failures and warnings by unit, and the totals. -/
def report (l : Ledger) : String :=
  String.join (l.sorted.map fun (unit, es) ↦ reportUnit unit es) ++ l.summary.line

end Ledger

end LexFront
