import Mathlib.Data.List.Induction
import LexFront.Proofs.Journal.Recording

/-!
# How units stand in the ledger

Units become known by being noted or by an entry, and entries come in any order for any unit. How a
unit stands in the summary depends on its own entries only, and of these on the first ones, as many
as there is room for, and on whether there were more. So a failure counts if it was early enough,
and never if it comes behind the limit: then the unit is one with warnings, because the warning of
the overflow stands for all entries that were not kept.

`recorded` is the whole history of a unit, and `standing` says from it alone how the unit stands;
that the summary counts just that is shown entry by entry for the units (`entries_ofActs`) and unit
by unit for the summary (`count_summary`).

Key facts:

* `keep_kept`: what one entry more changes.
* `entries_ofActs`: what is kept of a history.
* `map_fst_alter`: which units are known.
* `summary_of_acts`: what the summary counts after any history.
* `summary_of_late_failure`: a failure behind the limit is not counted.
-/

set_option autoImplicit false

namespace LexFront

namespace Ledger

/-! ### Histories -/

/-- What may be done with a ledger. -/
inductive Act where
  | note (unit : String)
  | record (unit : String) (e : Event)
  deriving DecidableEq, Repr

/-- The unit that is noted or that an entry is for. -/
def Act.unit : Act → String
  | note unit => unit
  | record unit _ => unit

/-- The entry that is recorded for a unit, if it is for that one. -/
def Act.entryOf (unit : String) : Act → Option Event
  | note _ => none
  | record u e => if u = unit then some e else none

/-- Does one thing. -/
def act (l : Ledger) : Act → Ledger
  | .note unit => l.note unit
  | .record unit e => l.record unit e

/-- The ledger after some acts. -/
def ofActs (acts : List Act) : Ledger := acts.foldl act {}

/-- All entries that were recorded for a unit, kept or not. -/
def recorded (unit : String) (acts : List Act) : List Event := acts.filterMap (Act.entryOf unit)

theorem ofActs_append_singleton (acts : List Act) (a : Act) :
    ofActs (acts ++ [a]) = (ofActs acts).act a := by
  rw [ofActs, List.foldl_append]
  rfl

theorem recorded_append (unit : String) (acts acts' : List Act) :
    recorded unit (acts ++ acts') = recorded unit acts ++ recorded unit acts' :=
  List.filterMap_append

/-! ### What is kept -/

/-- What is kept of some entries: the first ones, and a warning for the others. -/
def kept (es : List Event) : List Event :=
  if es.length ≤ Limits.entriesPerUnit then es
  else es.take Limits.entriesPerUnit ++ [overflowWarning]

theorem length_kept_le (es : List Event) : (kept es).length ≤ Limits.entriesPerUnit + 1 := by
  rw [kept]
  split
  · omega
  · rw [List.length_append, List.length_singleton]
    exact Nat.add_le_add_right (List.length_take_le _ _) 1

/-- **One entry more** is kept, or is the first above the limit, or leaves nothing. -/
theorem keep_kept (e : Event) (es : List Event) : keep e (kept es) = kept (es ++ [e]) := by
  have hlength : (es ++ [e]).length = es.length + 1 := List.length_append
  rcases Nat.lt_trichotomy es.length Limits.entriesPerUnit with hlt | heq | hgt
  · rw [kept, kept, if_pos (by omega), if_pos (by omega), keep, if_pos hlt]
  · have htake : (es ++ [e]).take Limits.entriesPerUnit = es := by rw [← heq, List.take_left]
    rw [kept, kept, if_pos (by omega), if_neg (by omega), keep, if_neg (by omega), if_pos heq,
      htake]
  · have hfull : (es.take Limits.entriesPerUnit ++ [overflowWarning]).length =
        Limits.entriesPerUnit + 1 := by
      rw [List.length_append, List.length_take_of_le (by omega), List.length_singleton]
    rw [kept, kept, if_neg (by omega), if_neg (by omega), keep, if_neg (by omega),
      if_neg (by omega), List.take_append_of_le_length (by omega)]

/-- Noting a unit leaves all entries as they are. -/
theorem entries_note (l : Ledger) (unit name : String) :
    (l.note unit).entries name = l.entries name := by
  rw [entries, note, lookup_alter]
  split
  · next h => rw [h]; rfl
  · rfl

theorem entries_act (l : Ledger) (a : Act) (name : String) :
    (l.act a).entries name =
      match a.entryOf name with
      | none => l.entries name
      | some e => keep e (l.entries name) := by
  cases a with
  | note unit => exact entries_note l unit name
  | record unit e =>
    rw [act, entries_record, Act.entryOf]
    by_cases h : name = unit
    · rw [if_pos h, if_pos h.symm, h]
    · rw [if_neg h, if_neg (Ne.symm h)]

/-- **What is kept of a history.** -/
theorem entries_ofActs (acts : List Act) (name : String) :
    (ofActs acts).entries name = kept (recorded name acts) := by
  induction acts using List.reverseRecOn with
  | nil => rfl
  | append_singleton acts a ih =>
    rw [ofActs_append_singleton, entries_act, ih, recorded_append]
    cases he : a.entryOf name with
    | none => simp [recorded, he]
    | some e => simp only [keep_kept, recorded, List.filterMap_cons_some he, List.filterMap_nil]

/-! ### Which units are known -/

/-- The known units. -/
def names (l : Ledger) : List String := l.units.map Prod.fst

/-- A unit that was not known becomes the last. -/
theorem map_fst_alter (unit : String) (f : List Event → List Event)
    (units : List (String × List Event)) :
    (alter unit f units).map Prod.fst =
      if unit ∈ units.map Prod.fst then units.map Prod.fst else units.map Prod.fst ++ [unit] := by
  induction units with
  | nil => simp [alter]
  | cons p units ih =>
    rw [alter]
    by_cases h : unit = p.1
    · rw [if_pos h, if_pos (by simp [h])]
      rfl
    · rw [if_neg h, List.map_cons, ih]
      simp only [List.map_cons, List.mem_cons, h, false_or]
      split <;> rfl

theorem names_act (l : Ledger) (a : Act) :
    (l.act a).names = if a.unit ∈ l.names then l.names else l.names ++ [a.unit] := by
  cases a with
  | note unit => exact map_fst_alter unit id l.units
  | record unit e => exact map_fst_alter unit (keep e) l.units

theorem nodup_names_ofActs (acts : List Act) : (ofActs acts).names.Nodup := by
  induction acts using List.reverseRecOn with
  | nil => exact List.nodup_nil
  | append_singleton acts a ih =>
    rw [ofActs_append_singleton, names_act]
    split
    · exact ih
    · next h =>
      refine List.nodup_append.2 ⟨ih, by simp, fun name hname unit hunit ↦ ?_⟩
      rw [List.mem_singleton.1 hunit]
      rintro rfl
      exact h hname

theorem mem_names_ofActs_iff (acts : List Act) (name : String) :
    name ∈ (ofActs acts).names ↔ ∃ a ∈ acts, a.unit = name := by
  induction acts using List.reverseRecOn with
  | nil => simp [ofActs, names]
  | append_singleton acts a ih =>
    rw [ofActs_append_singleton, names_act]
    split
    · next h =>
      rw [ih]
      constructor
      · rintro ⟨b, hb, rfl⟩
        exact ⟨b, List.mem_append_left _ hb, rfl⟩
      · rintro ⟨b, hb, rfl⟩
        rcases List.mem_append.1 hb with hb | hb
        · exact ⟨b, hb, rfl⟩
        · rw [← ih, List.mem_singleton.1 hb]
          exact h
    · simp [ih, or_and_right, exists_or, eq_comm]

/-- If no unit is listed twice the ledger lists each with its own entries. -/
theorem units_eq_map_names {l : Ledger} (h : l.names.Nodup) :
    l.units = l.names.map fun name ↦ (name, l.entries name) := by
  rw [names, List.map_map]
  refine (List.map_id _).symm.trans (List.map_congr_left fun p hp ↦ ?_)
  have hlookup : l.units.lookup p.1 = some p.2 := by
    rw [List.lookup_eq_some_iff]
    obtain ⟨front, back, hunits⟩ := List.append_of_mem hp
    refine ⟨front, back, hunits, fun q hq ↦ ?_⟩
    rw [names, hunits, List.map_append] at h
    have hne := (List.nodup_append.1 h).2.2 q.1 (List.mem_map_of_mem hq) p.1 (by simp)
    simpa using Ne.symm hne
  show p = (p.1, l.entries p.1)
  rw [entries, hlookup]
  rfl

/-! ### How a unit stands -/

/-- How a unit may stand. -/
inductive Standing where
  | clean
  | failed
  | withWarnings
  deriving DecidableEq, Repr

/-- How a unit stands with the entries that are kept. -/
def Standing.ofEntries (es : List Event) : Standing :=
  if es.any (·.isError) then failed
  else if es.any (·.isWarning) then withWarnings
  else clean

/-- How a unit stands after a history: it failed if a failure is among the first entries, as many as
there is room for; otherwise a warning among these counts, and so does anything behind them. -/
def standing (es : List Event) : Standing :=
  if (es.take Limits.entriesPerUnit).any (·.isError) then .failed
  else if (es.take Limits.entriesPerUnit).any (·.isWarning) || Limits.entriesPerUnit < es.length
  then .withWarnings
  else .clean

theorem ofEntries_kept (es : List Event) : Standing.ofEntries (kept es) = standing es := by
  have herror : overflowWarning.isError = false := rfl
  have hwarning : overflowWarning.isWarning = true := rfl
  rw [Standing.ofEntries, standing, kept]
  split
  · next h => simp [List.take_of_length_le h, Nat.not_lt.2 h]
  · next h => simp [herror, hwarning, Nat.lt_of_not_le h]

theorem standing_eq_failed_iff (es : List Event) :
    standing es = .failed ↔ ∃ e ∈ es.take Limits.entriesPerUnit, e.isError = true := by
  rw [standing, ← List.any_eq_true]
  split
  · next h => simp [h]
  · next h =>
    split <;> simp [h]

/-- How many units stand in some way. -/
def Summary.count (s : Summary) : Standing → Nat
  | .clean => s.clean
  | .failed => s.failed
  | .withWarnings => s.withWarnings

/-- A unit counts for the way it stands, and for no other. -/
theorem Summary.count_addUnit (s : Summary) (es : List Event) (st : Standing) :
    (s.addUnit es).count st = s.count st + if Standing.ofEntries es = st then 1 else 0 := by
  have herror : 0 < es.countP (·.isError) ↔ es.any (·.isError) = true := by
    rw [List.countP_pos_iff, List.any_eq_true]
  have hwarning : 0 < es.countP (·.isWarning) ↔ es.any (·.isWarning) = true := by
    rw [List.countP_pos_iff, List.any_eq_true]
  rw [addUnit, Standing.ofEntries]
  simp only [herror, hwarning]
  split
  · cases st <;> rfl
  · split <;> cases st <;> rfl

theorem Summary.units_addUnit (s : Summary) (es : List Event) :
    (s.addUnit es).units = s.units + 1 := by
  rw [addUnit]
  split
  · rfl
  · split <;> rfl

/-- **The summary counts how each unit stands.** -/
theorem count_summary (l : Ledger) (st : Standing) :
    l.summary.count st = l.units.countP (fun p ↦ Standing.ofEntries p.2 = st) := by
  obtain ⟨units⟩ := l
  induction units using List.reverseRecOn with
  | nil => cases st <;> rfl
  | append_singleton units p ih =>
    rw [summary_append, Summary.count_addUnit, ih, List.countP_append, List.countP_singleton]
    simp only [decide_eq_true_eq]

theorem units_summary (l : Ledger) : l.summary.units = l.units.length := by
  obtain ⟨units⟩ := l
  induction units using List.reverseRecOn with
  | nil => rfl
  | append_singleton units p ih =>
    rw [summary_append, Summary.units_addUnit, ih, List.length_append, List.length_singleton]

/-- Every unit stands in one way. -/
theorem sum_count_summary (l : Ledger) :
    l.summary.count .clean + l.summary.count .failed + l.summary.count .withWarnings =
      l.summary.units := by
  simp only [count_summary, units_summary]
  induction l.units with
  | nil => rfl
  | cons p units ih =>
    simp only [List.countP_cons, List.length_cons]
    cases Standing.ofEntries p.2 <;> simp <;> omega

/-- The summary after a history, by the histories of the units. -/
theorem count_summary_ofActs (acts : List Act) (st : Standing) :
    (ofActs acts).summary.count st =
      (ofActs acts).names.countP (fun name ↦ standing (recorded name acts) = st) := by
  rw [count_summary, units_eq_map_names (nodup_names_ofActs acts), List.countP_map]
  refine List.countP_congr fun name _ ↦ ?_
  simp [entries_ofActs, ofEntries_kept]

/-- **What the summary counts after any history.** The known units are those that were noted or had
an entry, each of them once. A unit counts as failed exactly if a failure is among the first entries
recorded for it, as many as there is room for; what comes behind these makes it one with warnings at
most. Every unit stands in exactly one way, and none holds more than one entry above the limit. -/
theorem summary_of_acts (acts : List Act) :
    let l := ofActs acts
    l.names.Nodup ∧ (∀ name, name ∈ l.names ↔ ∃ a ∈ acts, a.unit = name) ∧
      l.summary.units = l.names.length ∧
      (∀ st, l.summary.count st =
        l.names.countP (fun name ↦ standing (recorded name acts) = st)) ∧
      (∀ name, standing (recorded name acts) = .failed ↔
        ∃ e ∈ (recorded name acts).take Limits.entriesPerUnit, e.isError = true) ∧
      l.summary.clean + l.summary.failed + l.summary.withWarnings = l.summary.units ∧
      ∀ name, (l.entries name).length ≤ Limits.entriesPerUnit + 1 := by
  intro l
  refine ⟨nodup_names_ofActs acts, mem_names_ofActs_iff acts, ?_, count_summary_ofActs acts,
    fun name ↦ standing_eq_failed_iff _, sum_count_summary l, fun name ↦ ?_⟩
  · rw [units_summary, names, List.length_map]
  · rw [entries_ofActs]
    exact length_kept_le _

/-- **A failure behind the limit is not counted**, though it was recorded and its unit is known. -/
theorem summary_of_late_failure :
    let acts := List.replicate Limits.entriesPerUnit (.record "u" (.info "x")) ++
      [.record "u" (.error .unrecognizedInput "y")]
    "u" ∈ (ofActs acts).names ∧ (∃ e ∈ recorded "u" acts, e.isError = true) ∧
      (ofActs acts).summary.failed = 0 := by
  intro acts
  have hunit : ∀ a ∈ acts, a.unit = "u" := by
    intro a ha
    rcases List.mem_append.1 ha with ha | ha
    · rw [List.eq_of_mem_replicate ha]
      rfl
    · rw [List.mem_singleton.1 ha]
      rfl
  have hrecorded : recorded "u" acts =
      List.replicate Limits.entriesPerUnit (.info "x") ++ [.error .unrecognizedInput "y"] := by
    have hinfo : Act.entryOf "u" (.record "u" (.info "x")) = some (.info "x") := rfl
    rw [recorded_append, recorded, List.filterMap_replicate_of_some hinfo]
    rfl
  have hlast : acts.getLast? = some (.record "u" (.error .unrecognizedInput "y")) := by
    rw [List.getLast?_concat]
  refine ⟨(mem_names_ofActs_iff acts "u").2 ⟨_, List.mem_of_getLast? hlast, rfl⟩,
    ⟨_, by rw [hrecorded]; exact List.mem_append_right _ List.mem_cons_self, rfl⟩, ?_⟩
  refine (count_summary_ofActs acts .failed).trans (List.countP_eq_zero.2 fun name hname ↦ ?_)
  obtain ⟨a, ha, rfl⟩ := (mem_names_ofActs_iff acts name).1 hname
  rw [hunit a ha, decide_eq_true_iff, standing_eq_failed_iff, hrecorded,
    List.take_left' List.length_replicate]
  rintro ⟨e, he, herror⟩
  rw [List.eq_of_mem_replicate he] at herror
  cases herror

end Ledger

end LexFront
