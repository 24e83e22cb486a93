import LexFront.Pipeline

/-!
# The command line

The program parses the files it is given, one after the other, and prints a line about each, or at
the end one JSON array about all of them. It ends with success if every file was accepted. What the
files hold is known beforehand: `run` is a function from the environment, the arguments and the
files to the exit status and the text printed.

Key facts:

* `exitStatus_eq_zero_iff`: success means that nothing was rejected and nothing failed to open.
-/

set_option autoImplicit false

namespace LexFront.CommandLine

/-- What the user asks for. -/
structure Options where
  files : List String := []
  language : Option Language := none
  dumpTokens : Bool := false
  json : Bool := false
  eager : Bool := false
  deriving DecidableEq, Repr

/-- What a command line means. -/
inductive Command where
  | run (options : Options)
  | help
  | version
  | refused (message : String)
  deriving DecidableEq, Repr

/-- Reads arguments on top of the options given so far. The first argument that settles the
command ends the reading. -/
def parseOptions (o : Options) : List String → Command
  | [] => if o.files.isEmpty then .refused "No input files" else .run o
  | "--help" :: _ | "-h" :: _ => .help
  | "--version" :: _ | "-V" :: _ => .version
  | ["--lang"] => .refused "--lang requires a value (cmake or cpp)"
  | "--lang" :: name :: rest =>
    match Language.named name with
    | .ok language => parseOptions { o with language := some language } rest
    | .error e => .refused e.message
  | "--tokens" :: rest => parseOptions { o with dumpTokens := true } rest
  | "--json" :: rest => parseOptions { o with json := true } rest
  | "--eager" :: rest => parseOptions { o with eager := true } rest
  | arg :: rest =>
    if ['-', '-'].isPrefixOf arg.toList then .refused s!"Unknown option: {arg}"
    else parseOptions { o with files := o.files ++ [arg] } rest

/-- The lines that tell how the program is called. -/
def usage (program : String) : List String :=
  [s!"Usage: {program} <file>... [options]", s!"       {program} --help"]

/-- The name of the program and its version. -/
def title : String := "frontend_core v0.1.0"

/-- Where the limits of this build come from. -/
def limitsSource : String := "Generated from config/development.toml"

/-- The lines that tell the version. -/
def versionLines : List String := [title, limitsSource, s!"Limits: {Limits.summary}"]

/-- The lines of the help text. -/
def helpLines : List String :=
  [title,
    "Lexes and parses CMake and C/C++ source files",
    "",
    "USAGE:",
    "    frontend_core <file>... [options]",
    "",
    "ARGUMENTS:",
    "    <file>    CMakeLists.txt, *.cmake, or a C/C++ source or header",
    "",
    "OPTIONS:",
    "    --lang <cmake|cpp>  Override language detection for every file",
    "    --tokens            Print each file's token stream before parsing",
    "    --json              Emit reports as JSON",
    "    --eager             Split each unit into terms before classifying",
    "    --version           Show version and compile-time limits",
    "    --help              Show this help message",
    "",
    "ENVIRONMENT:",
    "    FRONTEND_LOGGING_MIN_LEVEL        error, warning, info or debug",
    "    FRONTEND_LOGGING_USE_STRUCTURED   true for JSON log lines",
    "    FRONTEND_SYNTAX_ECHO_DIAGNOSTICS  false to print diagnostics after each parse",
    "",
    "EXIT STATUS:",
    "    0 when every unit is accepted, 1 otherwise"]

/-- Prints several lines on the output stream. -/
def printLines (j : Journal) (lines : List String) : Journal := lines.foldl Journal.printOut j

/-! ### One file after the other -/

/-- What a run has come to so far. -/
structure Progress where
  journal : Journal
  rejected : Nat := 0
  failed : Nat := 0
  /-- What the JSON report says about the files so far, the last one first. -/
  units : List Json := []

/-- Prints why a file could not be worked on, and counts it. -/
def Progress.fail (p : Progress) (j : Journal) (path : String) (e : PipelineError) : Progress :=
  { p with
    journal := (j.printErr s!"error[{e.code.text}]: {e.message}").printErr s!"  --> {path}"
    failed := p.failed + 1 }

/-- The lines about a file that was parsed. Diagnostics are among them if they were not printed
while they came up. -/
def reportLines (path : String) (r : UnitReport) (withDiagnostics : Bool) : List String :=
  let status := if r.outcome.accepted then "accepted" else "rejected"
  let aborted := if r.outcome.aborted then ", aborted" else ""
  (if withDiagnostics then r.diagnostics.map Diagnostic.render else []) ++
    (if 0 < r.dropped then [s!"... {r.dropped} more diagnostics not shown"] else []) ++
    [s!"{path} [{r.language.name}]: {status} ({r.outcome.tokensConsumed} tokens, " ++
      s!"{r.outcome.errorCount} errors{aborted})"]

/-- What the JSON report says about a file. -/
def unitJson (path : String) (r : UnitReport) (tokens : Option (List TokenRecord)) : Json :=
  .obj <|
    ("file", .str path) :: r.fields ++
      (tokens.map fun records ↦ ("tokens", .arr (records.map TokenRecord.toJson))).toList

/-- Lists the lexemes of a file, if asked to. -/
def listTokens (o : Options) (preferences : Preferences) (j : Journal) (path : String)
    (found : Lookup) : Except PipelineError (Option (List TokenRecord)) × Journal :=
  if o.dumpTokens then
    match Pipeline.tokenizeFile j path found o.language preferences.lexical with
    | (.error e, j) => (.error e, j)
    | (.ok records, j) =>
      let j := if o.json then j else
        printLines j (s!"== tokens: {path}" :: records.map fun r ↦ s!"  {r.render}")
      (.ok (some records), j)
  else (.ok none, j)

/-- Parses a file. Diagnostics are printed as they come up unless they are to be shown later. -/
def parseFile (o : Options) (preferences : Preferences) (j : Journal) (path : String)
    (found : Lookup) : Except PipelineError UnitReport × Journal :=
  if o.json || !preferences.syntactic.echoDiagnostics then
    Pipeline.processFile j path found o.language () preferences
  else Pipeline.processFile j path found o.language ({} : Echo) preferences

/-- Works on one file. -/
def processPath (o : Options) (preferences : Preferences) (files : String → Lookup)
    (p : Progress) (path : String) : Progress :=
  match listTokens o preferences p.journal path (files path) with
  | (.error e, j) => p.fail j path e
  | (.ok tokens, j) =>
    match parseFile o preferences j path (files path) with
    | (.error e, j) => p.fail j path e
    | (.ok report, j) =>
      -- A file that was listed and then rejected counts once.
      let p := { p with
        journal := j
        rejected := if report.outcome.accepted then p.rejected else p.rejected + 1 }
      if o.json then { p with units := unitJson path report tokens :: p.units }
      else
        { p with
          journal := printLines j
            (reportLines path report (!preferences.syntactic.echoDiagnostics)) }

/-- The lines that end a run: the ledger on the error stream, the count of files on the other. -/
def printSummary (total : Nat) (p : Progress) : Journal :=
  let j := match p.journal.report? with
    | some report => p.journal.printErr report
    | none => p.journal
  printLines j
    ["",
      s!"Processed {total} unit(s): {total - p.rejected - p.failed} accepted, " ++
        s!"{p.rejected} rejected, {p.failed} failed to open"]

/-- The exit status after all files. -/
def Progress.exitStatus (p : Progress) : Nat := if 0 < p.rejected ∨ 0 < p.failed then 1 else 0

theorem exitStatus_eq_zero_iff (p : Progress) :
    p.exitStatus = 0 ↔ p.rejected = 0 ∧ p.failed = 0 := by
  simp only [Progress.exitStatus]
  split <;> omega

/-- Works on all files. -/
def runFiles (o : Options) (j : Journal) (files : String → Lookup) : Nat × Journal :=
  let preferences := Preferences.ofEnvironment j.environment
  let preferences : Preferences :=
    if o.eager then
      { preferences with lexical := { preferences.lexical with eagerLines := true } }
    else preferences
  let p := o.files.foldl (processPath o preferences files) { journal := j }
  let j :=
    if o.json then p.journal.printOut (Json.arr p.units.reverse).pretty
    else printSummary o.files.length p
  (p.exitStatus, j)

/-- Runs the program: its exit status and what it prints. -/
def run (program : String) (environment : Environment) (arguments : List String)
    (files : String → Lookup) : Nat × Transcript :=
  let j : Journal := { environment }
  match j.setUp with
  | .error message => (1, (j.printErr s!"Error: {message}").transcript)
  | .ok j =>
    if arguments.isEmpty then (1, ((usage program).foldl Journal.printErr j).transcript)
    else
      match parseOptions {} arguments with
      | .help => (0, (printLines j helpLines).transcript)
      | .version => (0, (printLines j versionLines).transcript)
      | .refused message => (1, (j.printErr s!"Error: {message}").transcript)
      | .run options =>
        let (status, j) := runFiles options j files
        (status, j.transcript)

end LexFront.CommandLine
