import LexFront.Journal.Code

/-!
# Why a source cannot be read

One type for everything that can go wrong between a path and its characters, with the wording and
the code of each cause.
-/

set_option autoImplicit false

namespace LexFront

/-- A failure to open or to read a unit. -/
inductive SourceError where
  | notFound (path : String)
  | permissionDenied (path : String)
  | invalidPath (path : String)
  | unitTooLarge (size limit : Nat)
  | invalidEncoding (offset : Nat)
  | io (message : String)
  deriving DecidableEq, Repr

namespace SourceError

/-- The wording of a failure. -/
def message : SourceError → String
  | notFound path => s!"Source unit not found: {path}"
  | permissionDenied path => s!"Permission denied: {path}"
  | invalidPath path => s!"Invalid source path: {path}"
  | unitTooLarge size limit => s!"Source unit too large: {size} bytes (max: {limit})"
  | invalidEncoding offset => s!"Invalid UTF-8 at byte offset {offset}"
  | io message => s!"I/O error reading source: {message}"

/-- The code of a failure. -/
def code : SourceError → Code
  | notFound _ => .unitNotFound
  | permissionDenied _ => .permissionDenied
  | invalidPath _ => .invalidPath
  | unitTooLarge _ _ => .unitTooLarge
  | invalidEncoding _ => .invalidEncoding
  | io _ => .ioError

end SourceError

end LexFront
