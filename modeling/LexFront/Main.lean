import LexFront.CommandLine

/-!
# The program

The outer layer: it gathers the environment, the arguments and the files, hands them to
`CommandLine.run`, and prints what comes back.
-/

set_option autoImplicit false

namespace LexFront.Main

/-- The variables that the program looks at. -/
def variableNames : List String :=
  ["FRONTEND_LEXICAL_EAGER_TERMS", "FRONTEND_LEXICAL_TRACK_TERMINAL_COUNTS",
    "FRONTEND_SYNTAX_ECHO_DIAGNOSTICS", "FRONTEND_SYNTAX_LOG_EXPECTATIONS",
    "FRONTEND_LOGGING_USE_STRUCTURED", "FRONTEND_LOGGING_ENABLE_CONSOLE",
    "FRONTEND_LOGGING_MIN_LEVEL", "FRONTEND_LOGGING_CARGO_STYLE"]

/-- The variables that are set. -/
def environment : IO Environment :=
  variableNames.filterMapM fun name ↦ do return (← IO.getEnv name).map fun value ↦ (name, value)

/-- What a path leads to in the file system. -/
def lookup (path : String) : IO Lookup := do
  try
    let data ← IO.FS.readBinFile path
    return .file data.size (.ofBytes data.toList)
  catch
    | .noFileOrDirectory .. => return .missing
    | .permissionDenied .. => return .denied
    -- A directory can be opened but not read; only the failure to open names the path.
    | .inappropriateType none .. => return .notFile
    | .inappropriateType (some _) .. => return FileTree.notDirectory
    | .invalidArgument .. => return FileTree.nameTooLong
    | e => return .failed (toString e)

end LexFront.Main

open LexFront in
/-- Runs the program on the files among its arguments. -/
def main (arguments : List String) : IO UInt32 := do
  let found ← arguments.mapM fun path ↦ do return (path, ← LexFront.Main.lookup path)
  let (status, transcript) := CommandLine.run "frontend_core" (← LexFront.Main.environment)
    arguments fun path ↦ (found.lookup path).getD .missing
  (← IO.getStdout).putStr transcript.outText
  (← IO.getStderr).putStr transcript.errText
  return status.toUInt32
