import LexFront.Line.Basic

/-!
# Lexemes

What the lexer hands out: a token of the lexicon, a stretch of input it gave up on, or the end of
the input. Every lexicon brings its own type of terminals and only has to name them and to sort
them into categories.
-/

set_option autoImplicit false

namespace LexFront

/-- The sorts of terminals. -/
inductive Category where
  | whitespace
  | comment
  | keyword
  | identifier
  | literal
  | operator
  | punctuation
  deriving DecidableEq, Repr

namespace Category

/-- The name of a category. -/
def name : Category → String
  | whitespace => "whitespace"
  | comment => "comment"
  | keyword => "keyword"
  | identifier => "identifier"
  | literal => "literal"
  | operator => "operator"
  | punctuation => "punctuation"

/-- The parser skips whitespace and comments. -/
def isTrivia : Category → Bool
  | whitespace | comment => true
  | _ => false

end Category

/-- The kinds of tokens of one lexicon. -/
class Terminal (T : Type) where
  name : T → String
  category : T → Category

/-- Whether tokens of this kind carry no meaning for a grammar. -/
def Terminal.isTrivia {T : Type} [Terminal T] (t : T) : Bool := (Terminal.category t).isTrivia

/-- A classified stretch of text. -/
structure Token (T : Type) where
  terminal : T
  /-- The characters as they stand in the unit. -/
  text : Text
  /-- What they mean: quotes taken off, escapes decoded, case folded. -/
  value : Text
  span : Span
  deriving DecidableEq, Repr

namespace Token

variable {T : Type}

/-- The token with some text that starts at a location. -/
def covering (terminal : T) (text value : Text) (start : Location) : Token T :=
  ⟨terminal, text, value, Span.covering start text⟩

/-- Whether a token carries no meaning for a grammar. -/
def isTrivia [Terminal T] (t : Token T) : Bool := Terminal.isTrivia t.terminal

/-- Name, quoted text and place of a token. -/
def render [Terminal T] (t : Token T) : String :=
  s!"{Terminal.name t.terminal} {Text.quoted t.text} at {t.span.render}"

end Token

/-- Why a stretch of input has no terminal. -/
inductive LexicalError where
  | unrecognizedInput
  | unterminated (construct : String)
  | tokenTooLong (limit : Nat)
  | tooManyTokens (limit : Nat)
  | split (e : SplitError)
  deriving DecidableEq, Repr

namespace LexicalError

/-- The wording of a cause. -/
def message : LexicalError → String
  | unrecognizedInput => "Unrecognized input"
  | unterminated construct => s!"Unterminated {construct}"
  | tokenTooLong limit => s!"Token exceeds maximum length of {limit} bytes"
  | tooManyTokens limit => s!"Too many tokens (max {limit})"
  | split e => e.message

/-- The code of a cause. A source that fails while it is being classified has one code, whatever
the failure. -/
def code : LexicalError → Code
  | unrecognizedInput => .unrecognizedInput
  | unterminated _ => .unterminatedConstruct
  | tokenTooLong _ => .tokenTooLong
  | tooManyTokens _ => .tooManyTokens
  | split (.lineTooLong _ _) => .lineTooLong
  | split (.source _) => .sourceFault

end LexicalError

/-- A stretch of input that the lexer gave up on; its text is empty if the source itself failed. -/
structure InvalidToken where
  text : Text
  span : Span
  error : LexicalError
  deriving DecidableEq, Repr

/-- Cause, quoted text and place of an invalid token. -/
def InvalidToken.render (i : InvalidToken) : String :=
  s!"{i.error.message} {Text.quoted i.text} at {i.span.render}"

/-- One answer of the lexer. -/
inductive Lexeme (T : Type) where
  | endOfInput
  | invalid (i : InvalidToken)
  | valid (t : Token T)
  deriving DecidableEq, Repr

namespace Lexeme

variable {T : Type}

/-- Whether the input has ended. -/
def isEnd : Lexeme T → Bool
  | endOfInput => true
  | _ => false

/-- Whether the lexer gave up here. -/
def isInvalid : Lexeme T → Bool
  | invalid _ => true
  | _ => false

/-- Whether this is a token that carries no meaning for a grammar. -/
def isTrivia [Terminal T] : Lexeme T → Bool
  | valid t => t.isTrivia
  | _ => false

/-- The terminal of a valid token. -/
def terminal? : Lexeme T → Option T
  | valid t => some t.terminal
  | _ => none

/-- The place of a lexeme; the end of the input has none. -/
def span? : Lexeme T → Option Span
  | endOfInput => none
  | invalid i => some i.span
  | valid t => some t.span

/-- The characters of a lexeme. -/
def text : Lexeme T → Text
  | endOfInput => []
  | invalid i => i.text
  | valid t => t.text

/-- A lexeme in words; the end of the input has none. -/
def render? [Terminal T] : Lexeme T → Option String
  | endOfInput => none
  | invalid i => some i.render
  | valid t => some t.render

end Lexeme

end LexFront
