import LexFront.Files.Path
import LexFront.Source.Error

/-!
# Languages

The language of a unit is named by the user or told from the name of its file. Names of languages,
file names and extensions are compared without regard to the case of ASCII letters.

Key facts:

* `ofName?_name`: the name of a language names it.
-/

set_option autoImplicit false

namespace LexFront

/-- The languages that there is a lexicon for. -/
inductive Language where
  | cmake
  | cpp
  deriving DecidableEq, Repr

namespace Language

/-- The name of a language. -/
def name : Language → String
  | cmake => "cmake"
  | cpp => "cpp"

/-- The extensions of C and C++ sources and headers. -/
def cppExtensions : List String :=
  ["c", "cc", "cpp", "cxx", "c++", "h", "hh", "hpp", "hxx", "ipp", "inl"]

/-- A text in lower case, as a string. -/
def folded (t : Text) : String := String.ofList (Text.lower t)

/-- The language of a file, as far as its name tells. -/
def ofPath? (path : String) : Option Language := do
  let fileName ← Path.fileName? path.toList
  if folded fileName = "cmakelists.txt" then some cmake
  else
    let extension ← Path.extension? path.toList
    if folded extension = "cmake" then some cmake
    else if cppExtensions.contains (folded extension) then some cpp
    else none

/-- The language with a name. -/
def ofName? (s : String) : Option Language :=
  match folded s.toList with
  | "cmake" => some cmake
  | "cpp" | "c++" | "cxx" => some cpp
  | _ => none

theorem ofName?_name (l : Language) : ofName? l.name = some l := by cases l <;> decide

end Language

/-- Why a unit cannot be worked on. -/
inductive PipelineError where
  | source (e : SourceError)
  | unknownLanguage (name : String)
  | languageNotInferred (path : String)
  deriving DecidableEq, Repr

namespace PipelineError

/-- The wording of a cause. -/
def message : PipelineError → String
  | source e => e.message
  | unknownLanguage name => s!"Unknown language '{name}' (expected 'cmake' or 'cpp')"
  | languageNotInferred path => s!"Cannot infer language for {path}; pass --lang"

/-- The code of a cause. -/
def code : PipelineError → Code
  | source e => e.code
  | _ => .internalError

end PipelineError

namespace Language

/-- The language with a name, or why there is none. -/
def named (s : String) : Except PipelineError Language :=
  match ofName? s with
  | some l => .ok l
  | none => .error (.unknownLanguage s)

/-- The language of a file: the one asked for, if any, else the one that its name tells. -/
def resolve (path : String) (asked : Option Language) : Except PipelineError Language :=
  match asked.or (ofPath? path) with
  | some l => .ok l
  | none => .error (.languageNotInferred path)

end Language

end LexFront
