import LexFront.Journal.Ledger
import LexFront.Journal.Logger
import LexFront.Preferences

/-!
# The journal of a run

One journal serves a whole run. It knows the unit that is being worked on and attaches its name and
number to every entry; failures and warnings under a unit also go into the ledger. Before `setUp`
nothing is recorded, only the unit is remembered.

The parts of the front end do not write into the journal themselves. They hand out `Emission`s in
the order in which things happened, and `absorb` writes them down.
-/

set_option autoImplicit false

namespace LexFront

/-- Something a part of the front end has to say: an entry for the journal, or a line for the
output stream. -/
inductive Emission where
  | entry (e : Event)
  | line (text : String)
  deriving DecidableEq, Repr

/-- The unit being worked on and its number in the run. -/
structure UnitContext where
  unit : String
  number : Nat
  deriving DecidableEq, Repr

/-- The journal of a run together with what the run has printed. -/
structure Journal where
  environment : Environment := []
  /-- Preferences that were set for good; the environment decides before that. -/
  installed : Option JournalPreferences := none
  /-- There is no logger before the journal is initialized. -/
  logger : Option Logger := none
  ledger : Ledger := {}
  context : Option UnitContext := none
  /-- The number of the next unit. -/
  nextUnit : Nat := 0
  /-- The time stamped on entries. -/
  now : Int := 0
  transcript : Transcript := {}
  deriving DecidableEq, Repr

namespace Journal

/-- The preferences in force. -/
def preferences (j : Journal) : JournalPreferences :=
  j.installed.getD (.ofEnvironment j.environment)

/-- Sets preferences for good. This can be done once. -/
def install (j : Journal) (p : JournalPreferences) : Except String Journal :=
  match j.installed with
  | some _ => .error "Runtime preferences already initialized"
  | none => .ok { j with installed := some p }

/-- The logger that the preferences ask for. -/
def configuredLogger (p : JournalPreferences) : Logger where
  backend := if p.console then if p.structured then .structured else .console else .memory
  minLevel := p.minLevel

/-- Passes an entry to the logger as it is. -/
def pass (j : Journal) (e : Event) : Journal :=
  match j.logger with
  | none => j
  | some l =>
    let e := { e with time := j.now }
    { j with logger := some (l.log e), transcript := l.print e j.transcript }

/-- Gives the journal a logger of its own. This can be done once. -/
def start (j : Journal) (l : Logger) : Except String Journal :=
  match j.logger with
  | some _ => .error "Global logger already initialized"
  | none => .ok { j with logger := some l, ledger := {} }

/-- Starts the journal with the logger that the preferences ask for. -/
def setUp (j : Journal) : Except String Journal := do
  let j ← j.start (configuredLogger j.preferences)
  return j.pass (.success .journalReady "Global logging system initialized")

/-- Whether entries are recorded. -/
def isInitialized (j : Journal) : Bool := j.logger.isSome

/-- Whether debug entries reach the logger. -/
def debugEnabled (j : Journal) : Bool := (j.logger.map (·.shouldLog .debug)).getD false

/-! ### The unit being worked on -/

/-- Starts work on a unit and makes it known to the ledger. -/
def enter (j : Journal) (unit : String) (number : Nat) : Journal :=
  { j with
    ledger := if j.isInitialized then j.ledger.note unit else j.ledger
    context := some ⟨unit, number⟩ }

/-- No unit is being worked on any more. -/
def leave (j : Journal) : Journal := { j with context := none }

/-- Attaches the unit to an entry, over values of the same names. -/
def attach (j : Journal) (e : Event) : Event :=
  match j.context with
  | some c => e.withContext [("unit", c.unit), ("unit_id", toString c.number)]
  | none => e

/-! ### Writing -/

/-- Writes an entry down. Failures and warnings under a unit go into the ledger too. -/
def write (j : Journal) (e : Event) : Journal :=
  if j.isInitialized then
    let e := j.attach { e with time := j.now }
    -- The ledger keeps what the logger may filter out.
    let j := match j.context with
      | some c =>
        if e.isError || e.isWarning then { j with ledger := j.ledger.record c.unit e } else j
      | none => j
    j.pass e
  else j

/-- Writes down what a part of the front end had to say. -/
def emit (j : Journal) : Emission → Journal
  | .entry e => j.write e
  | .line text => { j with transcript := j.transcript.printOut text }

/-- Writes down several emissions in order. -/
def absorb (j : Journal) (es : List Emission) : Journal := es.foldl emit j

/-- Reports a failure even when the journal has not been started: it is then printed on the error
stream. -/
def writeSafely (j : Journal) (code : Code) (message : String) : Journal :=
  if j.isInitialized then j.pass (.error code message)
  else
    { j with transcript := j.transcript.printErr s!"[ERROR] FALLBACK: [{code.text}] {message}" }

/-- Prints a line on the output stream. -/
def printOut (j : Journal) (line : String) : Journal :=
  { j with transcript := j.transcript.printOut line }

/-- Prints a line on the error stream. -/
def printErr (j : Journal) (line : String) : Journal :=
  { j with transcript := j.transcript.printErr line }

/-! ### Looking back -/

/-- The totals of the ledger; all zero before the journal is started. -/
def summary (j : Journal) : Ledger.Summary := if j.isInitialized then j.ledger.summary else {}

/-- The written ledger, once the journal is started. -/
def report? (j : Journal) : Option String :=
  if j.isInitialized then some j.ledger.report else none

/-- The state of the journal in words. -/
def diagnostics (j : Journal) : String :=
  "=== Logging System Diagnostics ===\n" ++
    s!"Initialized: {j.isInitialized}\n" ++
    s!"Units processed: {j.summary.units}\n" ++
    s!"Total errors: {j.summary.errors}\n\n" ++
    j.preferences.summary

end Journal

end LexFront
