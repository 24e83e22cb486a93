import LexFront.Journal.Event
import LexFront.Limits

/-!
# Loggers

A logger passes entries up to its level on: into memory, where the last ones are kept, or to the
console, as text or as JSON. On the console failures go to the error stream and all else to the
output stream.

Key facts:

* `entries_log_of_passes`: an entry that passes is the last one kept.
* `length_entries_le`: memory never holds more than its limit.
-/

set_option autoImplicit false

namespace LexFront

/-- What a run has printed so far, the last line first. -/
structure Transcript where
  out : List String := []
  err : List String := []
  deriving DecidableEq, Repr

namespace Transcript

/-- Prints a line on the output stream. -/
def printOut (t : Transcript) (line : String) : Transcript := { t with out := line :: t.out }

/-- Prints a line on the error stream. -/
def printErr (t : Transcript) (line : String) : Transcript := { t with err := line :: t.err }

/-- Lines as one text, each ended by a line feed. -/
def unlines (lines : List String) : String := String.join (lines.map (· ++ "\n"))

/-- The text on the output stream. -/
def outText (t : Transcript) : String := unlines t.out.reverse

/-- The text on the error stream. -/
def errText (t : Transcript) : String := unlines t.err.reverse

end Transcript

/-- Where a logger sends its entries. -/
inductive Backend where
  | memory
  | console
  | structured
  deriving DecidableEq, Repr

/-- A logger with a level filter; `recorded` holds the entries in memory, the last one first. -/
structure Logger where
  backend : Backend := .memory
  minLevel : Level := .info
  recorded : List Event := []
  deriving DecidableEq, Repr

namespace Logger

/-- Whether entries of a level pass. -/
def shouldLog (l : Logger) (level : Level) : Bool := level.passes l.minLevel

/-- Takes note of an entry. -/
def log (l : Logger) (e : Event) : Logger :=
  if l.shouldLog e.level && l.backend == .memory then { l with recorded := e :: l.recorded } else l

/-- Prints an entry, if it passes and the logger prints at all. -/
def print (l : Logger) (e : Event) (t : Transcript) : Transcript :=
  if l.shouldLog e.level then
    match l.backend with
    | .memory => t
    | .console => if e.isError then t.printErr e.line else t.printOut e.line
    | .structured =>
      if e.isError then t.printErr e.toJson.compact else t.printOut e.toJson.compact
  else t

/-- The entries in memory, oldest first: the last ones recorded, as many as the limit allows. -/
def entries (l : Logger) : List Event := (l.recorded.take Limits.journalEntries).reverse

/-- The failures in memory. -/
def errors (l : Logger) : List Event := l.entries.filter (·.isError)

/-- Whether a failure with a code is in memory. -/
def hasError (l : Logger) (c : Code) : Bool := l.entries.any fun e ↦ e.isError && e.code == c

/-- Whether a piece of information with a code is in memory. -/
def hasSuccess (l : Logger) (c : Code) : Bool :=
  l.entries.any fun e ↦ e.level == .info && e.code == c

/-- Forgets the entries in memory. -/
def clear (l : Logger) : Logger := { l with recorded := [] }

theorem length_entries_le (l : Logger) : l.entries.length ≤ Limits.journalEntries := by
  exact Nat.le_trans (Nat.le_of_eq (by simp [entries])) (Nat.min_le_left _ l.recorded.length)

theorem entries_log_of_passes {l : Logger} {e : Event} (hb : l.backend = .memory)
    (hp : l.shouldLog e.level = true) : (l.log e).entries.getLast? = some e := by
  simp [log, hb, hp, entries, Limits.journalEntries]

end Logger

end LexFront
