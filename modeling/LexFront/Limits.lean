/-!
# Limits

The sizes at which the front end stops. They are fixed for a build and named once, here.
-/

set_option autoImplicit false

namespace LexFront.Limits

/-- The most bytes of one unit. -/
def unitSize : Nat := 16777216

/-- The most bytes of one physical line, its line break left out. -/
def lineLength : Nat := 65536

/-- The most bytes of one token. -/
def tokenLength : Nat := 1048576

/-- The most tokens of one unit. -/
def tokenCount : Nat := 2000000

/-- The most diagnostics that are kept for one unit. -/
def diagnostics : Nat := 1000

/-- The most tokens that are consumed on behalf of an idle grammar driver. -/
def skippedTokens : Nat := 100000

/-- The most journal entries that are kept in memory. -/
def journalEntries : Nat := 10000

/-- The most journal entries that are kept for one unit. -/
def entriesPerUnit : Nat := 500

/-- The limits on one line. -/
def summary : String :=
  s!"unit <= {unitSize} bytes, term <= {lineLength} bytes, token <= {tokenLength} bytes, " ++
    s!"<= {tokenCount} tokens, <= {diagnostics} diagnostics retained"

end LexFront.Limits
