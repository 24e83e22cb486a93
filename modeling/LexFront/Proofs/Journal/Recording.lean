import LexFront.Journal.State

/-!
# What the ledger makes of the work on a unit

While a unit is worked on, the journal puts failures and warnings into the ledger, under its name
and up to a limit. The limit cannot hide that a unit failed if nothing but failures is recorded
there: the first of them is kept in any case, and so it makes no difference how many follow. `Tells`
is what is left of the entries of a unit then, namely whether there was a failure.

`WorksOn` is a journal at work on a unit that is the last of its ledger; the units before it are
left alone. A journal that is at work on none, which is said to rest, writes nothing into the
ledger.

Key facts:

* `Ledger.Tells.keep`: a failure that is recorded is not forgotten.
* `WorksOn.exists_absorb`: what is said on the way is told by the entries.
* `Rests.absorb`: outside of units nothing is recorded.
* `Stands.work`: a unit from the start of the work on it to the end.
* `Ledger.summary_append`: a unit more counts for itself.
-/

set_option autoImplicit false

namespace LexFront

namespace Emission

/-- Whether the journal is told of a failure. -/
def isFailure : Emission → Bool
  | entry e => e.isError
  | line _ => false

/-- Whether the journal is told of a warning. -/
def isWarning : Emission → Bool
  | entry e => e.isWarning
  | line _ => false

end Emission

namespace Ledger

/-! ### The entries of one unit -/

/-- The entries of a unit tell whether something failed: if so one of them is a failure, and else
there are none. -/
def Tells (es : List Event) (failed : Bool) : Prop :=
  if failed then ∃ e ∈ es, e.isError = true else es = []

theorem mem_keep {e x : Event} {es : List Event} (h : x ∈ es) : x ∈ keep e es := by
  rw [keep]
  split
  · exact List.mem_append_left _ h
  · split
    · exact List.mem_append_left _ h
    · exact h

/-- **A failure that is recorded is not forgotten**: it is kept, or one before it is. -/
theorem Tells.keep {e : Event} (he : e.isError = true) {es : List Event} {failed : Bool}
    (h : Tells es failed) : Tells (keep e es) true := by
  cases failed with
  | false =>
    obtain rfl : es = [] := h
    exact ⟨e, by simp [Ledger.keep, Limits.entriesPerUnit], he⟩
  | true =>
    obtain ⟨x, hx, herror⟩ := h
    exact ⟨x, mem_keep hx, herror⟩

/-! ### Units of a ledger -/

/-- A unit that the ledger does not know becomes its last. -/
theorem alter_of_not_mem {unit : String} {units : List (String × List Event)}
    (h : unit ∉ units.map Prod.fst) (f : List Event → List Event) :
    alter unit f units = units ++ [(unit, f [])] := by
  induction units with
  | nil => rfl
  | cons p units ih =>
    obtain ⟨hne, hrest⟩ : unit ≠ p.1 ∧ unit ∉ units.map Prod.fst := by simpa [not_or] using h
    rw [alter, if_neg hne, ih hrest, List.cons_append]

/-- A change of the last unit leaves those before it alone. -/
theorem alter_of_last {unit : String} {front : List (String × List Event)}
    (h : unit ∉ front.map Prod.fst) (es : List Event) (f : List Event → List Event) :
    alter unit f (front ++ [(unit, es)]) = front ++ [(unit, f es)] := by
  induction front with
  | nil => simp [alter]
  | cons p front ih =>
    obtain ⟨hne, hrest⟩ : unit ≠ p.1 ∧ unit ∉ front.map Prod.fst := by simpa [not_or] using h
    rw [List.cons_append, alter, if_neg hne, ih hrest, List.cons_append]

/-! ### Counting -/

theorem summary_append (units : List (String × List Event)) (unit : String) (es : List Event) :
    (⟨units ++ [(unit, es)]⟩ : Ledger).summary = (⟨units⟩ : Ledger).summary.addUnit es := by
  rw [summary, summary, List.foldl_append]
  rfl

/-- **A unit counts for what its entries tell**: it is clean or it failed. -/
theorem Summary.addUnit_of_tells {es : List Event} {failed : Bool} (h : Tells es failed)
    (s : Summary) :
    (s.addUnit es).units = s.units + 1 ∧ (s.addUnit es).withWarnings = s.withWarnings ∧
      (s.addUnit es).clean = s.clean + (!failed).toNat ∧
      (s.addUnit es).failed = s.failed + failed.toNat := by
  cases failed with
  | false =>
    obtain rfl : es = [] := h
    simp [addUnit]
  | true =>
    have hpos : 0 < es.countP (·.isError) := List.countP_pos_iff.2 h
    simp [addUnit, hpos]

end Ledger

namespace Journal

open Ledger (Tells)

/-! ### At work on a unit -/

/-- A journal at work on the last unit of its ledger, with the units before it and the entries of
the unit so far. -/
structure WorksOn (j : Journal) (front : List (String × List Event)) (unit : String)
    (es : List Event) : Prop where
  initialized : j.isInitialized = true
  context : ∃ number, j.context = some ⟨unit, number⟩
  units : j.ledger.units = front ++ [(unit, es)]
  fresh : unit ∉ front.map Prod.fst

/-- A journal that is at work on no unit. -/
structure Rests (j : Journal) : Prop where
  initialized : j.isInitialized = true
  context : j.context = none

theorem pass_spec {j : Journal} (h : j.isInitialized = true) (e : Event) :
    (j.pass e).isInitialized = true ∧ (j.pass e).context = j.context ∧
      (j.pass e).ledger = j.ledger := by
  obtain ⟨l, hl⟩ := Option.isSome_iff_exists.1 h
  rw [pass, hl]
  exact ⟨rfl, rfl, rfl⟩

/-- What is attached to an entry does not change its level. -/
theorem level_attach (j : Journal) (e : Event) : (j.attach e).level = e.level := by
  rw [attach]
  cases j.context <;> rfl

/-- Under a unit a failure is recorded, and what is neither failure nor warning is not. -/
theorem write_spec {j : Journal} (h : j.isInitialized = true) {c : UnitContext}
    (hc : j.context = some c) {e : Event} (he : e.isWarning = false) :
    (j.write e).isInitialized = true ∧ (j.write e).context = some c ∧
      (j.write e).ledger =
        if e.isError then j.ledger.record c.unit (j.attach { e with time := j.now })
        else j.ledger := by
  let x := j.attach { e with time := j.now }
  have hlevel : x.level = e.level := level_attach j _
  have herror : x.isError = e.isError := congrArg (· == Level.error) hlevel
  have hsevere : (x.isError || x.isWarning) = e.isError := by
    rw [Event.isWarning, hlevel, ← Event.isWarning, he, Bool.or_false, herror]
  have hwrite : j.write e = (if e.isError then { j with ledger := j.ledger.record c.unit x }
      else j).pass x := by
    rw [write, if_pos h, hc, ← hsevere]
  rw [hwrite]
  cases e.isError with
  | false =>
    obtain ⟨hi, hc', hl⟩ := pass_spec h x
    exact ⟨hi, hc'.trans hc, hl⟩
  | true =>
    let j' : Journal := { j with ledger := j.ledger.record c.unit x }
    obtain ⟨hi, hc', hl⟩ := pass_spec (j := j') h x
    exact ⟨hi, hc'.trans hc, hl⟩

theorem WorksOn.exists_write {j : Journal} {front : List (String × List Event)} {unit : String}
    {es : List Event} {failed : Bool} (h : j.WorksOn front unit es) (ht : Tells es failed)
    {e : Event} (he : e.isWarning = false) :
    ∃ es', (j.write e).WorksOn front unit es' ∧ Tells es' (failed || e.isError) := by
  obtain ⟨number, hcontext⟩ := h.context
  obtain ⟨hi, hc, hl⟩ := write_spec h.initialized hcontext he
  cases hfailure : e.isError with
  | false =>
    rw [hfailure] at hl
    exact ⟨es, ⟨hi, ⟨number, hc⟩, (congrArg Ledger.units hl).trans h.units, h.fresh⟩,
      by simpa using ht⟩
  | true =>
    rw [hfailure] at hl
    let x := j.attach { e with time := j.now }
    have hx : x.isError = true := by
      rw [Event.isError, level_attach]
      exact hfailure
    have hunits : (j.write e).ledger.units = front ++ [(unit, Ledger.keep x es)] := by
      rw [hl]
      show Ledger.alter unit (Ledger.keep x) j.ledger.units = _
      rw [h.units, Ledger.alter_of_last h.fresh]
    refine ⟨_, ⟨hi, ⟨number, hc⟩, hunits, h.fresh⟩, ?_⟩
    rw [Bool.or_true]
    exact ht.keep hx

/-- **What is said on the way is told by the entries**, if no warnings are said. -/
theorem WorksOn.exists_absorb {j : Journal} {front : List (String × List Event)} {unit : String}
    {es : List Event} {failed : Bool} (h : j.WorksOn front unit es) (ht : Tells es failed)
    {ems : List Emission} (hems : ∀ em ∈ ems, em.isWarning = false) :
    ∃ es', (j.absorb ems).WorksOn front unit es' ∧
      Tells es' (failed || ems.any Emission.isFailure) := by
  induction ems generalizing j es failed with
  | nil => exact ⟨es, h, by simpa using ht⟩
  | cons em ems ih =>
    obtain ⟨hem, hrest⟩ := List.forall_mem_cons.1 hems
    rw [absorb, List.foldl_cons, ← absorb, List.any_cons, ← Bool.or_assoc]
    cases em with
    | entry e =>
      obtain ⟨es', h', ht'⟩ := h.exists_write ht hem
      exact ih h' ht' hrest
    | line text =>
      have h' : (j.emit (.line text)).WorksOn front unit es :=
        ⟨h.initialized, h.context, h.units, h.fresh⟩
      exact ih h' (by simpa [Emission.isFailure] using ht) hrest

/-! ### At work on none -/

/-- Outside of units an entry goes to the logger only. -/
theorem Rests.write {j : Journal} (h : j.Rests) (e : Event) :
    (j.write e).Rests ∧ (j.write e).ledger = j.ledger := by
  rw [Journal.write, if_pos h.initialized, h.context]
  obtain ⟨hi, hc, hl⟩ := pass_spec h.initialized (j.attach { e with time := j.now })
  exact ⟨⟨hi, hc.trans h.context⟩, hl⟩

/-- **Outside of units nothing is recorded.** -/
theorem Rests.absorb {j : Journal} (h : j.Rests) (ems : List Emission) :
    (j.absorb ems).Rests ∧ (j.absorb ems).ledger = j.ledger := by
  induction ems generalizing j with
  | nil => exact ⟨h, rfl⟩
  | cons em ems ih =>
    rw [Journal.absorb, List.foldl_cons, ← Journal.absorb]
    cases em with
    | entry e =>
      obtain ⟨h', hl⟩ := h.write e
      obtain ⟨hrest, hl'⟩ := ih h'
      exact ⟨hrest, hl'.trans hl⟩
    | line text =>
      obtain ⟨hrest, hl'⟩ := ih (j := j.emit (.line text)) ⟨h.initialized, h.context⟩
      exact ⟨hrest, hl'⟩

/-! ### A unit from its start to its end -/

/-- A journal that rests before or after work on a unit that is, or would be, the last of its
ledger, with what its entries tell so far. -/
structure Stands (j : Journal) (front : List (String × List Event)) (unit : String)
    (failed : Bool) : Prop where
  rests : j.Rests
  fresh : unit ∉ front.map Prod.fst
  units : ∃ es, (j.ledger.note unit).units = front ++ [(unit, es)] ∧ Tells es failed

/-- Before the work on a unit that the ledger does not know nothing is told of it. -/
theorem Rests.stands {j : Journal} (h : j.Rests) {unit : String}
    (hfresh : unit ∉ j.ledger.units.map Prod.fst) : j.Stands j.ledger.units unit false :=
  ⟨h, hfresh, [], Ledger.alter_of_not_mem hfresh id, rfl⟩

/-- What leaves the ledger alone leaves the unit where it stands. -/
theorem Stands.of_ledger_eq {j j' : Journal} {front : List (String × List Event)} {unit : String}
    {failed : Bool} (h : j.Stands front unit failed) (hrests : j'.Rests)
    (hl : j'.ledger = j.ledger) : j'.Stands front unit failed :=
  ⟨hrests, h.fresh, hl ▸ h.units⟩

/-- **The work on a unit adds what is said in it to what its entries tell.** -/
theorem Stands.work {j : Journal} {front : List (String × List Event)} {unit : String}
    {failed : Bool} (h : j.Stands front unit failed) (number nextUnit : Nat) {ems : List Emission}
    (hems : ∀ em ∈ ems, em.isWarning = false) :
    let j' := ({ j.enter unit number with nextUnit }.absorb ems).leave
    let failed' := failed || ems.any Emission.isFailure
    j'.Stands front unit failed' ∧
      ∃ es, j'.ledger.units = front ++ [(unit, es)] ∧ Tells es failed' := by
  intro j' failed'
  obtain ⟨es, hunits, ht⟩ := h.units
  have hworks : { j.enter unit number with nextUnit }.WorksOn front unit es := by
    refine ⟨h.rests.initialized, ⟨number, rfl⟩, ?_, h.fresh⟩
    show (if j.isInitialized then j.ledger.note unit else j.ledger).units = _
    rw [if_pos h.rests.initialized]
    exact hunits
  obtain ⟨es', hafter, ht'⟩ := hworks.exists_absorb ht hems
  have hunits' : j'.ledger.units = front ++ [(unit, es')] := hafter.units
  refine ⟨⟨⟨hafter.initialized, rfl⟩, h.fresh, es', ?_, ht'⟩, es', hunits', ht'⟩
  show Ledger.alter unit id j'.ledger.units = _
  rw [hunits', Ledger.alter_of_last h.fresh]
  rfl

end Journal

end LexFront
