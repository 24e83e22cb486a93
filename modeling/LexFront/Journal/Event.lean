import LexFront.Journal.Code
import LexFront.Location.Json

/-!
# Journal entries

An entry has a level, a code, a message, sometimes the span it is about, and a context of named
values. The context is kept sorted by name with one value a name, the last one written.

* `Event.line` is the one-line text of an entry.
* `Event.toJson` is the entry as one JSON object.
* `lookup_withContext`: a written value is found again, and no other name is touched.
-/

set_option autoImplicit false

namespace LexFront

/-- Levels from the most to the least severe. -/
inductive Level where
  | error
  | warning
  | info
  | debug
  deriving DecidableEq, Repr

namespace Level

/-- The place in the order of severity, from zero. -/
def rank : Level → Nat
  | error => 0
  | warning => 1
  | info => 2
  | debug => 3

/-- The label of a level in front of an entry. -/
def label : Level → String
  | error => "ERROR"
  | warning => "WARN"
  | info => "INFO"
  | debug => "DEBUG"

/-- Whether an entry of level `l` passes a filter set to `min`. -/
def passes (l min : Level) : Bool := l.rank ≤ min.rank

end Level

/-- Named values, sorted by name. -/
abbrev Context := List (String × String)

namespace Context

/-- Writes a value under a name, over the value that was there. -/
def insert (key value : String) : Context → Context
  | [] => [(key, value)]
  | (k, v) :: rest =>
    if key < k then (key, value) :: (k, v) :: rest
    else if key = k then (key, value) :: rest
    else (k, v) :: insert key value rest

theorem lookup_insert (key value name : String) (ctx : Context) :
    (ctx.insert key value).lookup name =
      if name = key then some value else List.lookup name ctx := by
  induction ctx with
  | nil =>
    by_cases h : name = key <;> simp [insert, List.lookup_cons, h, beq_eq_false_iff_ne.2]
  | cons p rest ih =>
    obtain ⟨k, v⟩ := p
    by_cases h : name = key
    · subst h
      simp only [insert]
      split
      · simp
      · split
        · simp
        · next hk =>
          have : (name == k) = false := by simpa using hk
          simp [List.lookup_cons, this, ih]
    · simp only [insert]
      have hne : (name == key) = false := by simpa using h
      split
      · simp [List.lookup_cons, hne]
      · split
        · next hk => subst hk; simp [List.lookup_cons, hne]
        · simp only [List.lookup_cons, ih, if_neg h]

end Context

/-- One entry of the journal; `time` counts seconds since 1970. -/
structure Event where
  level : Level
  code : Code
  message : String
  span : Option Span := none
  context : Context := []
  time : Int := 0
  deriving DecidableEq, Repr

namespace Event

/-- A failure. -/
def error (code : Code) (message : String) : Event := { level := .error, code, message }

/-- A warning, without a code of its own unless one is given. -/
def warning (message : String) (code : Code := .plainWarning) : Event :=
  { level := .warning, code, message }

/-- A piece of information. -/
def info (message : String) : Event := { level := .info, code := .plainInfo, message }

/-- A success; it counts as information. -/
def success (code : Code) (message : String) : Event := { level := .info, code, message }

/-- An entry that only matters while looking for faults. -/
def debug (message : String) : Event := { level := .debug, code := .plainDebug, message }

/-- The same entry about a span. -/
def withSpan (e : Event) (s : Span) : Event := { e with span := some s }

/-- The same entry with more named values, written in the order given. -/
def withContext (e : Event) (values : List (String × String)) : Event :=
  { e with context := values.foldl (fun ctx (k, v) ↦ ctx.insert k v) e.context }

theorem lookup_withContext (e : Event) (key value name : String) :
    (e.withContext [(key, value)]).context.lookup name =
      if name = key then some value else e.context.lookup name :=
  Context.lookup_insert key value name e.context

/-- Failures are collected under their unit. -/
def isError (e : Event) : Bool := e.level == .error

/-- Warnings are collected under their unit as well. -/
def isWarning (e : Event) : Bool := e.level == .warning

/-- Level, code and message, and the place if there is one. -/
def line (e : Event) : String :=
  let place := match e.span with
    | some s => s!" at {s.unit}:{s.render}"
    | none => ""
  s!"[{e.level.label}] {e.code.text} - {e.message}{place}"

/-- An entry as a JSON object, fields sorted by name. A failure also tells what the register says
about its code; a time before 1970 is written as zero. -/
def toJson (e : Event) : Json :=
  let metadata : List (String × Json) :=
    if e.isError then
      [("error_metadata", .obj [
        ("description", .str e.code.description),
        ("recommended_action", .str e.code.action),
        ("recoverable", .bool e.code.isRecoverable)])]
    else []
  let context : List (String × Json) :=
    if e.context.isEmpty then []
    else [("context", .obj (e.context.map fun (k, v) ↦ (k, .str v)))]
  let span : List (String × Json) := match e.span with
    | some s => [("span", s.toJsonSorted)]
    | none => []
  .obj <|
    [("category", .str e.code.category), ("code", .str e.code.text)] ++ context ++ metadata ++
    [("level", .str e.level.label), ("message", .str e.message),
      ("severity", .str e.code.severity.name)] ++ span ++
    [("timestamp", .nat e.time.toNat)]

end Event

end LexFront
