import LexFront.Lexicon.Delimited

/-!
# The CMake language

Scripts are made of command invocations: identifiers, parentheses, and arguments that are quoted,
bracketed or unquoted. A bracket opens with `[`, some equals signs and `[`, and is closed only by
`]`, as many equals signs and `]`, so that its content needs no escapes. The names of the flow
control commands are keywords in any case of letters.

Key facts:

* `level?_opener`: an opener is read with the level that it was made for.
* `decodeEscapes_eq_unescape`: only an escaped semicolon is decoded in another way than usual.
-/

set_option autoImplicit false

namespace LexFront.CMake

/-- The terminals of CMake. -/
inductive Kind where
  | whitespace
  | newline
  | lineComment
  | bracketComment
  | keyword
  | identifier
  | leftParen
  | rightParen
  | quotedArgument
  | bracketArgument
  | unquotedArgument
  deriving DecidableEq, Repr

namespace Kind

/-- The name of a terminal. -/
def name : Kind → String
  | whitespace => "whitespace"
  | newline => "newline"
  | lineComment => "line comment"
  | bracketComment => "bracket comment"
  | keyword => "keyword"
  | identifier => "identifier"
  | leftParen => "left paren"
  | rightParen => "right paren"
  | quotedArgument => "quoted argument"
  | bracketArgument => "bracket argument"
  | unquotedArgument => "unquoted argument"

/-- The category of a terminal: arguments are literals and parentheses punctuation. -/
def category : Kind → Category
  | whitespace | newline => .whitespace
  | lineComment | bracketComment => .comment
  | keyword => .keyword
  | identifier => .identifier
  | leftParen | rightParen => .punctuation
  | quotedArgument | bracketArgument | unquotedArgument => .literal

instance : Terminal Kind := ⟨name, category⟩

end Kind

/-- The commands that open, continue or close a block. -/
def keywords : List String :=
  ["if", "elseif", "else", "endif", "foreach", "endforeach", "while", "endwhile", "function",
    "endfunction", "macro", "endmacro", "break", "continue", "return", "block", "endblock"]

/-- Whether a word names a flow control command, whatever the case of its letters. -/
def isKeyword (word : Text) : Bool := keywords.contains (String.ofList (Text.lower word))

/-! ### Brackets -/

/-- The opening bracket with `n` equals signs. -/
def opener (n : Nat) : Text := '[' :: (List.replicate n '=' ++ ['['])

/-- The bracket that closes an `opener n`. -/
def closer (n : Nat) : Text := ']' :: (List.replicate n '=' ++ [']'])

/-- The number of equals signs of the opening bracket at the start of a text. -/
def level? : Text → Option Nat
  | '[' :: rest =>
    if (rest.dropWhile (· == '=')).head? = some '[' then some (rest.takeWhile (· == '=')).length
    else none
  | _ => none

theorem level?_opener (n : Nat) (rest : Text) : level? (opener n ++ rest) = some n := by
  have hd : ∀ n, (List.replicate n '=' ++ '[' :: rest).dropWhile (· == '=') = '[' :: rest := by
    intro n
    induction n with
    | zero => rfl
    | succ n ih => simp [List.replicate_succ]
  simp [opener, level?, hd]

/-- A bracket with its content, up to the closing bracket of the same level. -/
def scanBracket (t : Text) : Scan :=
  match level? t with
  | none => .noMatch
  | some n => (Scan.through (closer n) (t.drop (n + 2))).after (n + 2)

/-! ### Unquoted arguments -/

/-- The characters that end an unquoted argument. -/
def endsUnquoted (c : Char) : Bool :=
  c == ' ' || c == '\t' || c == '\r' || c == '\n' || c == '(' || c == ')' || c == '#' || c == '"'

mutual

/-- The size of the unquoted argument at the start of a text. A backslash takes the next character
with it unless that breaks the line. After its first character an argument may also hold quoted
segments that close on the same line, as in `-DNAME="a b"`. -/
def unquotedSize (started : Bool) : Text → Nat
  | [] => 0
  -- A segment that does not close is no part of the argument, which ends before its quote.
  | '"' :: rest => if started then (segmentSize rest).elim 0 (1 + ·) else 0
  | '\\' :: [] => 1
  | '\\' :: c :: rest =>
    if Text.isLineBreak c then 1 else 1 + c.utf8Size + unquotedSize true rest
  | c :: rest => if endsUnquoted c then 0 else c.utf8Size + unquotedSize true rest

/-- The size of what follows the opening quote of a segment: the segment and, after it, the rest of
the argument. There is none if the line ends before the closing quote. -/
def segmentSize : Text → Option Nat
  | [] => none
  | '"' :: rest => some (1 + unquotedSize true rest)
  | '\\' :: [] => none
  | '\\' :: c :: rest =>
    if Text.isLineBreak c then none else (segmentSize rest).map (1 + c.utf8Size + ·)
  | c :: rest =>
    if Text.isLineBreak c then none else (segmentSize rest).map (c.utf8Size + ·)

end

/-! ### Scanning -/

/-- A run of blanks and tabs. -/
def scanWhitespace (t : Text) : Scan :=
  .ofSize (Text.prefixSize (fun c ↦ c == ' ' || c == '\t') t)

/-- One line break. -/
def scanNewline (t : Text) : Scan := .ofSize (Text.lineBreakSize t)

/-- A number sign and the rest of the line, unless a bracket opens right behind the sign. -/
def scanLineComment : Text → Scan
  | '#' :: rest => if level? rest = none then .matched (1 + Text.restOfLineSize rest) else .noMatch
  | _ => .noMatch

/-- A number sign and a bracket. -/
def scanBracketComment : Text → Scan
  | '#' :: rest => (scanBracket rest).after 1
  | _ => .noMatch

/-- A word that is a keyword. -/
def scanKeyword (t : Text) : Scan :=
  let word := Text.identifier t
  if isKeyword word then .ofText word else .noMatch

/-- A word. -/
def scanIdentifier (t : Text) : Scan := .ofText (Text.identifier t)

/-- One given character. -/
def scanChar (expected : Char) : Text → Scan
  | c :: _ => if c = expected then .matched c.utf8Size else .noMatch
  | [] => .noMatch

/-- A quoted argument, which may run over several lines. -/
def scanQuoted : Text → Scan
  | '"' :: rest => (Scan.throughQuote '"' true rest).after 1
  | _ => .noMatch

/-- An unquoted argument. -/
def scanUnquoted (t : Text) : Scan := .ofSize (unquotedSize false t)

/-! ### Decoding -/

/-- Decodes escapes but keeps an escaped semicolon as it is written: it stands for a semicolon that
does not separate the elements of a list. -/
def decodeEscapes : Text → Text
  | [] => []
  | '\\' :: [] => ['\\']
  | '\\' :: ';' :: rest => '\\' :: ';' :: decodeEscapes rest
  | '\\' :: '\r' :: '\n' :: rest => decodeEscapes rest
  | '\\' :: c :: rest => Text.escapeValue c ++ decodeEscapes rest
  | c :: rest => c :: decodeEscapes rest

/-- What stands between the quotes, decoded. -/
def decodeQuoted (t : Text) : Text := decodeEscapes (Text.stripDelimiters ['"'] ['"'] t)

/-- What stands between the brackets, without a line break right after the opening one. -/
def decodeBracket (t : Text) : Text :=
  match level? t with
  | none => t
  | some n =>
    let inner := (Text.slice? (n + 2) (Text.size t - (n + 2)) t).getD []
    inner.drop (Text.lineBreakSize inner)

/-- An escaped semicolon somewhere in a text, as escapes are read from left to right. -/
def hasEscapedSemicolon : Text → Bool
  | '\\' :: c :: rest => c == ';' || hasEscapedSemicolon rest
  | _ :: rest => hasEscapedSemicolon rest
  | [] => false

theorem decodeEscapes_eq_unescape {t : Text} (h : hasEscapedSemicolon t = false) :
    decodeEscapes t = Text.unescape t := by
  fun_induction decodeEscapes t with
  | case1 => rfl
  | case2 => rfl
  | case3 rest ih => simp [hasEscapedSemicolon] at h
  | case4 rest ih => simpa [Text.unescape] using ih (by simpa [hasEscapedSemicolon] using h)
  | case5 c rest hs hr ih =>
    have hrest : hasEscapedSemicolon rest = false := by
      simp only [hasEscapedSemicolon, Bool.or_eq_false_iff] at h
      exact h.2
    rw [Text.unescape_escape hr, ih hrest]
  | case6 c rest _ _ _ hne ih =>
    have hc : c ≠ '\\' := by
      rintro rfl
      cases rest <;> simp_all
    rw [Text.unescape_cons hc, ih (by rw [hasEscapedSemicolon] at h <;> simp_all)]

/-! ### The lexicon -/

/-- The rules of CMake. A keyword comes before an identifier and that before an unquoted argument,
for the three may be equally long. -/
def lexicon : Lexicon Kind where
  name := "cmake"
  rules :=
    [⟨.whitespace, scanWhitespace, id⟩,
      ⟨.newline, scanNewline, id⟩,
      ⟨.lineComment, scanLineComment, id⟩,
      ⟨.bracketComment, scanBracketComment, id⟩,
      ⟨.keyword, scanKeyword, Text.lower⟩,
      ⟨.identifier, scanIdentifier, id⟩,
      ⟨.leftParen, scanChar '(', id⟩,
      ⟨.rightParen, scanChar ')', id⟩,
      ⟨.quotedArgument, scanQuoted, decodeQuoted⟩,
      ⟨.bracketArgument, scanBracket, decodeBracket⟩,
      ⟨.unquotedArgument, scanUnquoted, decodeEscapes⟩]

end LexFront.CMake
