import LexFront.Journal.Event
import LexFront.Json.Reader
import LexFront.Limits

/-!
# Preferences

What a user may choose without rebuilding: how units are read, how diagnostics are shown and what
the journal keeps. Preferences come from environment variables, each with a default, and can be
stored as JSON. A stored structure is an object with every field, or an array of its fields in
order; fields nobody asked for are skipped, a field given twice is refused.
-/

set_option autoImplicit false

namespace LexFront

/-- Environment variables and their values. -/
abbrev Environment := List (String × String)

namespace Environment

/-- A switch is set by the words `true` and `false` and by nothing else. -/
def flag (env : Environment) (name : String) (default : Bool) : Bool :=
  match env.lookup name with
  | some "true" => true
  | some "false" => false
  | _ => default

end Environment

namespace Level

/-- Reads a level from its name, in any case, or from its rank. Only ASCII letters have two cases
here: no other character becomes one of the letters of a level in lower case. -/
def parse? (name : String) : Option Level :=
  match String.ofList (Text.lower name.toList) with
  | "error" | "0" => some .error
  | "warning" | "warn" | "1" => some .warning
  | "info" | "2" => some .info
  | "debug" | "3" => some .debug
  | _ => none

/-- The name under which a level is stored. -/
def name : Level → String
  | error => "Error"
  | warning => "Warning"
  | info => "Info"
  | debug => "Debug"

/-- The level that is stored under a name. -/
def ofName? (s : String) : Option Level := [error, warning, info, debug].find? (·.name == s)

end Level

/-- How units are read. -/
structure LexicalPreferences where
  /-- Split a unit into all its lines before the first one is classified. -/
  eagerLines : Bool := false
  /-- Count the tokens of each terminal. -/
  trackCounts : Bool := true
  deriving DecidableEq, Repr

/-- How the parser reports. -/
structure SyntaxPreferences where
  /-- Print each diagnostic as soon as it is reported. -/
  echoDiagnostics : Bool := true
  /-- Write a journal entry for every expectation. -/
  logExpectations : Bool := false
  deriving DecidableEq, Repr

/-- What the journal does with its entries. -/
structure JournalPreferences where
  /-- Write entries as JSON. -/
  structured : Bool := false
  /-- Write entries to the console. -/
  console : Bool := false
  /-- The least severe level that is kept. -/
  minLevel : Level := .info
  /-- Print the ledger at the end of a run. -/
  report : Bool := true
  deriving DecidableEq, Repr

/-- All preferences. -/
structure Preferences where
  lexical : LexicalPreferences := {}
  syntactic : SyntaxPreferences := {}
  journal : JournalPreferences := {}
  deriving DecidableEq, Repr

/-! ### From the environment -/

/-- How units are read, under an environment. -/
def LexicalPreferences.ofEnvironment (env : Environment) : LexicalPreferences where
  eagerLines := env.flag "FRONTEND_LEXICAL_EAGER_TERMS" false
  trackCounts := env.flag "FRONTEND_LEXICAL_TRACK_TERMINAL_COUNTS" true

/-- How the parser reports, under an environment. -/
def SyntaxPreferences.ofEnvironment (env : Environment) : SyntaxPreferences where
  echoDiagnostics := env.flag "FRONTEND_SYNTAX_ECHO_DIAGNOSTICS" true
  logExpectations := env.flag "FRONTEND_SYNTAX_LOG_EXPECTATIONS" false

/-- What the journal does, under an environment. -/
def JournalPreferences.ofEnvironment (env : Environment) : JournalPreferences where
  structured := env.flag "FRONTEND_LOGGING_USE_STRUCTURED" false
  console := env.flag "FRONTEND_LOGGING_ENABLE_CONSOLE" false
  minLevel := ((env.lookup "FRONTEND_LOGGING_MIN_LEVEL").bind Level.parse?).getD .info
  report := env.flag "FRONTEND_LOGGING_CARGO_STYLE" true

/-- All preferences, under an environment. -/
def Preferences.ofEnvironment (env : Environment) : Preferences where
  lexical := .ofEnvironment env
  syntactic := .ofEnvironment env
  journal := .ofEnvironment env

/-! ### Stored preferences -/

namespace Json.Raw

/-- The value of the one field with a name. -/
def uniqueField? (fields : List (Option String × Raw)) (name : String) : Option Raw :=
  match fields.filter (·.1 == some name) with
  | [(_, v)] => some v
  | _ => none

/-- The named parts of a stored structure. -/
def parts? (names : List String) : Raw → Option (List Raw)
  | .arr items => if items.length = names.length then some items else none
  | .obj fields =>
    if fields.any (·.1.isNone) then none else names.mapM (uniqueField? fields)
  | _ => none

/-- A stored switch. -/
def flag? : Raw → Option Bool
  | .bool b => some b
  | _ => none

/-- A stored level: its name, or an object with that name and nothing under it. -/
def level? : Raw → Option Level
  | .str (some s) => Level.ofName? s
  | .obj [(some s, .null)] => Level.ofName? s
  | _ => none

end Json.Raw

namespace LexicalPreferences

/-- The stored form. -/
def toJson (p : LexicalPreferences) : Json :=
  .obj [("eager_terms", .bool p.eagerLines), ("track_terminal_counts", .bool p.trackCounts)]

/-- Reads the stored form. -/
def ofRaw? (v : Json.Raw) : Option LexicalPreferences := do
  match ← v.parts? ["eager_terms", "track_terminal_counts"] with
  | [eager, counts] => some ⟨← eager.flag?, ← counts.flag?⟩
  | _ => none

end LexicalPreferences

namespace SyntaxPreferences

/-- The stored form. -/
def toJson (p : SyntaxPreferences) : Json :=
  .obj [("echo_diagnostics", .bool p.echoDiagnostics),
    ("log_expectations", .bool p.logExpectations)]

/-- Reads the stored form. -/
def ofRaw? (v : Json.Raw) : Option SyntaxPreferences := do
  match ← v.parts? ["echo_diagnostics", "log_expectations"] with
  | [echo, expectations] => some ⟨← echo.flag?, ← expectations.flag?⟩
  | _ => none

end SyntaxPreferences

namespace JournalPreferences

/-- The stored form. -/
def toJson (p : JournalPreferences) : Json :=
  .obj [("use_structured_logging", .bool p.structured), ("enable_console_logging", .bool p.console),
    ("min_log_level", .str p.minLevel.name), ("enable_cargo_style_output", .bool p.report)]

/-- Reads the stored form. -/
def ofRaw? (v : Json.Raw) : Option JournalPreferences := do
  match ← v.parts? ["use_structured_logging", "enable_console_logging", "min_log_level",
    "enable_cargo_style_output"] with
  | [structured, console, level, report] =>
    some ⟨← structured.flag?, ← console.flag?, ← level.level?, ← report.flag?⟩
  | _ => none

/-- The preferences in words, with the limits of the journal. -/
def summary (p : JournalPreferences) : String :=
  "Logging Configuration:\n" ++
    s!"- Log buffer size: {Limits.journalEntries}\n" ++
    s!"- Max events per unit: {Limits.entriesPerUnit}\n" ++
    s!"- Min log level: {p.minLevel.name}\n" ++
    s!"- Structured logging: {p.structured}\n" ++
    s!"- Console logging: {p.console}\n" ++
    s!"- Cargo-style output: {p.report}"

end JournalPreferences

namespace Preferences

/-- The stored form. -/
def toJson (p : Preferences) : Json :=
  .obj [("lexical", p.lexical.toJson), ("syntax", p.syntactic.toJson),
    ("logging", p.journal.toJson)]

/-- Reads the stored form. -/
def ofRaw? (v : Json.Raw) : Option Preferences := do
  match ← v.parts? ["lexical", "syntax", "logging"] with
  | [lexical, syntactic, journal] =>
    some ⟨← LexicalPreferences.ofRaw? lexical, ← SyntaxPreferences.ofRaw? syntactic,
      ← JournalPreferences.ofRaw? journal⟩
  | _ => none

/-- Reads preferences from a text. -/
def read? (text : String) : Option Preferences := (Json.read? text).bind ofRaw?

end Preferences

end LexFront
