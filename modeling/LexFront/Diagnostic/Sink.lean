import LexFront.Diagnostic.Basic
import LexFront.Journal.State

/-!
# Where diagnostics go

A sink receives the diagnostics of a parse one by one. It never influences the parse. Some sinks
keep what they receive, others pass it on to the journal or to the output stream; a pair of sinks
hands every diagnostic to both.

Key facts:

* `Collector.length_add_dropped_receive`: whatever is not kept is counted.
* `Collector.parseErrors_receive`: counting goes on when keeping has stopped.
* `LineWriter.text_put`: with room enough everything is written.
-/

set_option autoImplicit false

namespace LexFront

/-- Whatever receives diagnostics. -/
class DiagnosticSink (δ : Type) where
  receive : δ → Diagnostic → δ
  /-- What the sink has to say about a diagnostic, before it receives it. -/
  emissions : δ → Diagnostic → List Emission := fun _ _ ↦ []

/-- The sink that forgets everything. -/
instance : DiagnosticSink Unit where
  receive _ _ := ()

/-- Both sinks receive every diagnostic, the first one first. -/
instance {α β : Type} [DiagnosticSink α] [DiagnosticSink β] : DiagnosticSink (α × β) where
  receive s d := (DiagnosticSink.receive s.1 d, DiagnosticSink.receive s.2 d)
  emissions s d := DiagnosticSink.emissions s.1 d ++ DiagnosticSink.emissions s.2 d

/-- Keeps diagnostics in order up to a number, and counts on after that. -/
structure Collector where
  capacity : Nat := Limits.diagnostics
  diagnostics : List Diagnostic := []
  dropped : Nat := 0
  /-- How many unexpected tokens there were, kept or not. -/
  parseErrors : Nat := 0
  deriving DecidableEq, Repr

namespace Collector

/-- Keeps a diagnostic if there is room. -/
def receive (c : Collector) (d : Diagnostic) : Collector :=
  let c := { c with parseErrors := if d.kind.isCounted then c.parseErrors + 1 else c.parseErrors }
  if c.diagnostics.length < c.capacity then { c with diagnostics := c.diagnostics ++ [d] }
  else { c with dropped := c.dropped + 1 }

instance : DiagnosticSink Collector := ⟨receive, fun _ _ ↦ []⟩

/-- Whether a diagnostic of a sort was kept. -/
def hasKind (c : Collector) (k : Diagnostic.Kind) : Bool := c.diagnostics.any (·.kind == k)

theorem length_add_dropped_receive (c : Collector) (d : Diagnostic) :
    (c.receive d).diagnostics.length + (c.receive d).dropped =
      c.diagnostics.length + c.dropped + 1 := by
  simp only [receive]
  split <;> simp <;> omega

theorem parseErrors_receive (c : Collector) (d : Diagnostic) :
    (c.receive d).parseErrors = c.parseErrors + if d.kind.isCounted then 1 else 0 := by
  simp only [receive]
  split <;> split <;> rfl

end Collector

/-- Writes every diagnostic as a line. The text may have room for some lines only; once they are
full every write fails. -/
structure LineWriter where
  /-- How many line feeds may still be written; there is no bound without a number. -/
  room : Option Nat := none
  /-- What has been written. -/
  text : String := ""
  /-- How many diagnostics have been written as a whole. -/
  written : Nat := 0
  /-- Why the last write that failed did so. -/
  lastError : Option String := none
  deriving DecidableEq, Repr

namespace LineWriter

/-- Writes some parts one after the other, and tells whether all of them were written. A part is
written as a whole, unless the room was used up before it. -/
def put (w : LineWriter) : List String → LineWriter × Bool
  | [] => (w, true)
  | part :: rest =>
    -- What has been written before a failure stays written.
    if w.room = some 0 then (w, false)
    else
      put
        { w with
          room := w.room.map (· - part.toList.count '\n')
          text := w.text ++ part }
        rest

/-- Writes a diagnostic and a line feed. -/
def receive (w : LineWriter) (d : Diagnostic) : LineWriter :=
  match w.put (d.parts ++ ["\n"]) with
  | (w, true) => { w with written := w.written + 1 }
  | (w, false) => { w with lastError := some "closed" }

instance : DiagnosticSink LineWriter := ⟨receive, fun _ _ ↦ []⟩

theorem text_put {w : LineWriter} (h : w.room = none) (parts : List String) :
    w.put parts = ({ w with text := w.text ++ String.join parts }, true) := by
  induction parts generalizing w with
  | nil => simp [put]
  | cons part rest ih =>
    simp only [put, h, reduceCtorEq, if_false, Option.map_none]
    rw [ih rfl]
    simp [String.append_assoc]

end LineWriter

/-- Prints every diagnostic on the output stream as soon as it is reported. -/
structure Echo where
  deriving DecidableEq, Repr

instance : DiagnosticSink Echo where
  receive s _ := s
  emissions _ d := [.line d.render]

/-- Passes every diagnostic on to the journal. -/
structure Journaled where
  deriving DecidableEq, Repr

/-- The journal entry for a diagnostic. The lexer has already reported an invalid token itself. -/
def Diagnostic.event (d : Diagnostic) : Event :=
  match d with
  | .noMoreToken _ =>
    ((Event.error .noMoreToken "Unexpected end of input").withSpan d.span).withContext
      [("unit", d.unit)]
  | .unexpectedToken text _ =>
    ((Event.error .unexpectedToken "Unexpected token").withSpan d.span).withContext
      [("unit", d.unit), ("text", String.ofList text)]
  | .invalidToken _ =>
    (Event.debug "Parse aborted on invalid token").withContext
      [("unit", d.unit), ("span", d.span.render)]

instance : DiagnosticSink Journaled where
  receive s _ := s
  emissions _ d := [.entry d.event]

end LexFront
