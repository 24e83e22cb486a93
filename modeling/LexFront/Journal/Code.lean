/-!
# Codes and what is known about them

Every journal entry carries a code. Failures are registered with a category, a severity, whether
work on the unit can go on, a description and a recommended action; a code outside the register
gets the defaults of `Code.severity` and its neighbours.

Key fact: `find?_registry` finds each entry under its own code, so no entry hides another.
-/

set_option autoImplicit false

namespace LexFront

/-- The short name of a kind of journal entry. -/
structure Code where
  text : String
  deriving DecidableEq, Repr

/-- How bad a failure is. -/
inductive Severity where
  | critical
  | high
  | medium
  | low
  deriving DecidableEq, Repr

/-- The name of a severity. -/
def Severity.name : Severity → String
  | critical => "Critical"
  | high => "High"
  | medium => "Medium"
  | low => "Low"

namespace Code

/-! ### The codes in use -/

/-- A fault of the front end itself. -/
def internalError : Code := ⟨"ERR001"⟩

/-- A file that does not exist. -/
def unitNotFound : Code := ⟨"E005"⟩

/-- A unit above the size limit. -/
def unitTooLarge : Code := ⟨"E007"⟩

/-- A file that may not be read. -/
def permissionDenied : Code := ⟨"E009"⟩

/-- Bytes that are no UTF-8. -/
def invalidEncoding : Code := ⟨"E010"⟩

/-- A failed read. -/
def ioError : Code := ⟨"E011"⟩

/-- A path that names no regular file. -/
def invalidPath : Code := ⟨"E012"⟩

/-- Characters no rule of the lexicon matches. -/
def unrecognizedInput : Code := ⟨"E020"⟩

/-- A construct that is still open at the end of the unit. -/
def unterminatedConstruct : Code := ⟨"E021"⟩

/-- A physical line above its limit. -/
def lineTooLong : Code := ⟨"E023"⟩

/-- A token above its limit. -/
def tokenTooLong : Code := ⟨"E024"⟩

/-- More tokens than allowed. -/
def tooManyTokens : Code := ⟨"E027"⟩

/-- A source that failed while it was being classified. -/
def sourceFault : Code := ⟨"E028"⟩

/-- A token was expected and the input had ended. -/
def noMoreToken : Code := ⟨"E041"⟩

/-- A token was expected and another one came. -/
def unexpectedToken : Code := ⟨"E050"⟩

/-- An invalid token ended the parse. -/
def parseAborted : Code := ⟨"E051"⟩

/-- A grammar driver stopped consuming tokens. -/
def noProgress : Code := ⟨"E052"⟩

/-- The parse did not accept its unit. -/
def parseRejected : Code := ⟨"E053"⟩

/-- The journal is ready. -/
def journalReady : Code := ⟨"I004"⟩

/-- A file has been opened. -/
def unitOpened : Code := ⟨"I006"⟩

/-- All lines of a unit have been split off. -/
def splittingComplete : Code := ⟨"I010"⟩

/-- All tokens of a unit have been handed out. -/
def classificationComplete : Code := ⟨"I020"⟩

/-- The parse accepted its unit. -/
def parseAccepted : Code := ⟨"I040"⟩

/-- A warning without a code of its own. -/
def plainWarning : Code := ⟨"W000"⟩

/-- A piece of information without a code of its own. -/
def plainInfo : Code := ⟨"I000"⟩

/-- A debug entry. -/
def plainDebug : Code := ⟨"D000"⟩

end Code

/-! ### The register -/

/-- What the register says about a code. -/
structure CodeEntry where
  code : Code
  category : String
  severity : Severity
  recoverable : Bool
  description : String
  action : String
  deriving DecidableEq, Repr

/-- All registered codes. -/
def registry : List CodeEntry := [
  ⟨⟨"ERR001"⟩, "System", .critical, false,
    "Internal front-end error",
    "File a bug report with the input that triggered it"⟩,
  ⟨⟨"ERR002"⟩, "System", .critical, false,
    "Front-end initialization failure",
    "Check FRONTEND_* environment variables"⟩,
  ⟨⟨"E005"⟩, "Source", .medium, false,
    "Source unit not found at specified path",
    "Check the path and ensure the file exists"⟩,
  ⟨⟨"E007"⟩, "Source", .medium, false,
    "Source unit exceeds maximum size limit",
    "Split the unit or rebuild with a larger max_unit_size"⟩,
  ⟨⟨"E009"⟩, "Source", .medium, false,
    "Permission denied reading source unit",
    "Check file permissions"⟩,
  ⟨⟨"E010"⟩, "Source", .high, false,
    "Source unit is not valid UTF-8",
    "Re-encode the file as UTF-8"⟩,
  ⟨⟨"E011"⟩, "Source", .high, false,
    "I/O error while reading source unit",
    "Check the underlying device or stream"⟩,
  ⟨⟨"E012"⟩, "Source", .medium, false,
    "Path does not name a readable file",
    "Pass a regular file path"⟩,
  ⟨⟨"E020"⟩, "Lexical", .high, false,
    "Input matches no token pattern of the lexicon",
    "Remove or quote the offending characters"⟩,
  ⟨⟨"E021"⟩, "Lexical", .high, false,
    "Comment, string or bracket construct is not closed before end of input",
    "Add the missing closing delimiter"⟩,
  ⟨⟨"E023"⟩, "Lexical", .high, false,
    "Physical line exceeds maximum term length",
    "Break the line or rebuild with a larger max_term_length"⟩,
  ⟨⟨"E024"⟩, "Lexical", .high, false,
    "Token exceeds maximum token length",
    "Shorten the literal or comment"⟩,
  ⟨⟨"E027"⟩, "Lexical", .high, false,
    "Unit produces more tokens than allowed",
    "Split the unit or rebuild with a larger max_token_count"⟩,
  ⟨⟨"E028"⟩, "Lexical", .high, false,
    "Reading the source failed during classification",
    "See the underlying source error"⟩,
  ⟨⟨"E041"⟩, "Syntax", .low, true,
    "Grammar expected a token but input ended",
    "Complete the construct at end of input"⟩,
  ⟨⟨"E050"⟩, "Syntax", .medium, true,
    "Token does not match what the grammar expects",
    "Check the syntax near the reported location"⟩,
  ⟨⟨"E051"⟩, "Syntax", .high, false,
    "Parse aborted on an invalid token",
    "Fix the lexical error first"⟩,
  ⟨⟨"E052"⟩, "Syntax", .high, false,
    "Grammar driver stopped consuming tokens",
    "Fix the driver so every step consumes input"⟩,
  ⟨⟨"E053"⟩, "Syntax", .medium, true,
    "Unit rejected by the parser",
    "Inspect the reported diagnostics"⟩]

namespace Code

/-- The entry of a code. -/
def metadata? (c : Code) : Option CodeEntry := registry.find? (·.code == c)

/-- An unregistered code is of medium severity. -/
def severity (c : Code) : Severity := (c.metadata?.map (·.severity)).getD .medium

/-- An unregistered code is recoverable. -/
def isRecoverable (c : Code) : Bool := (c.metadata?.map (·.recoverable)).getD true

/-- What the code stands for. -/
def description (c : Code) : String := (c.metadata?.map (·.description)).getD "Unknown error"

/-- The advice for a code without any. -/
def noAction : String := "No specific action available"

/-- What to do about it. -/
def action (c : Code) : String := (c.metadata?.map (·.action)).getD noAction

/-- The category of a code. Outside the register a code that starts with `I` tells of a success. -/
def category (c : Code) : String :=
  match c.metadata? with
  | some e => e.category
  | none => if c.text.toList.head? == some 'I' then "Success" else "Unknown"

end Code

theorem find?_registry : ∀ e ∈ registry, e.code.metadata? = some e := by decide +kernel

end LexFront
