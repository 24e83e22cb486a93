import LexFront.Cpp.Numeral
import LexFront.Cpp.Splice
import LexFront.Lexicon.Delimited

/-!
# The C++ language

Sources are read as they were written, splices included. Between tokens a splice is whitespace;
inside a token it is passed over, but raw strings keep theirs. Directives of the preprocessor come
as operators and identifiers like everything else.

Key facts:

* `rawCloser_injective`: raw strings with different delimiters close differently.
-/

set_option autoImplicit false

namespace LexFront.Cpp

/-- The terminals of C++. -/
inductive Kind where
  | whitespace
  | newline
  | lineComment
  | blockComment
  | keyword
  | identifier
  | integerLiteral
  | floatingLiteral
  | characterLiteral
  | stringLiteral
  | operator
  deriving DecidableEq, Repr

namespace Kind

/-- The name of a terminal. -/
def name : Kind → String
  | whitespace => "whitespace"
  | newline => "newline"
  | lineComment => "line comment"
  | blockComment => "block comment"
  | keyword => "keyword"
  | identifier => "identifier"
  | integerLiteral => "integer literal"
  | floatingLiteral => "floating literal"
  | characterLiteral => "character literal"
  | stringLiteral => "string literal"
  | operator => "operator"

/-- The category of a terminal. All punctuators are operators. -/
def category : Kind → Category
  | whitespace | newline => .whitespace
  | lineComment | blockComment => .comment
  | keyword => .keyword
  | identifier => .identifier
  | integerLiteral | floatingLiteral | characterLiteral | stringLiteral => .literal
  | operator => .operator

instance : Terminal Kind := ⟨name, category⟩

end Kind

/-- The keywords of C++20, the spelled-out operators among them. -/
def keywords : List String :=
  ["alignas", "alignof", "and", "and_eq", "asm", "auto", "bitand", "bitor", "bool", "break",
    "case", "catch", "char", "char8_t", "char16_t", "char32_t", "class", "compl", "concept",
    "const", "consteval", "constexpr", "constinit", "const_cast", "continue", "co_await",
    "co_return", "co_yield", "decltype", "default", "delete", "do", "double", "dynamic_cast",
    "else", "enum", "explicit", "export", "extern", "false", "float", "for", "friend", "goto",
    "if", "inline", "int", "long", "mutable", "namespace", "new", "noexcept", "not", "not_eq",
    "nullptr", "operator", "or", "or_eq", "private", "protected", "public", "register",
    "reinterpret_cast", "requires", "return", "short", "signed", "sizeof", "static",
    "static_assert", "static_cast", "struct", "switch", "template", "this", "thread_local",
    "throw", "true", "try", "typedef", "typeid", "typename", "union", "unsigned", "using",
    "virtual", "void", "volatile", "wchar_t", "while", "xor", "xor_eq"]

/-- The punctuators, digraphs among them. -/
def operators : List String :=
  ["%:%:", "...", "<=>", "->*", "<<=", ">>=", "::", "->", ".*", "++", "--", "<<", ">>", "<=",
    ">=", "==", "!=", "&&", "||", "+=", "-=", "*=", "/=", "%=", "&=", "|=", "^=", "##", "<:",
    ":>", "<%", "%>", "%:", "\x7b", "\x7d", "[", "]", "(", ")", ";", ":", "?", ".", "~", "!",
    "+", "-", "*", "/", "%", "^", "&", "|", "=", "<", ">", ",", "#"]

/-- Whether a word is a keyword, which depends on the case of its letters. -/
def isKeyword (word : Text) : Bool := keywords.contains (String.ofList word)

/-! ### Scanning -/

/-- Blanks, tabs and feeds. -/
def isBlank (c : Char) : Bool := c == ' ' || c == '\t' || c == '\x0b' || c == '\x0c'

/-- The size of the blanks and splices at the start of a text. -/
def blankSize : Text → Nat
  | '\\' :: '\r' :: '\n' :: rest => 3 + blankSize rest
  | '\\' :: '\r' :: rest => 2 + blankSize rest
  | '\\' :: '\n' :: rest => 2 + blankSize rest
  | c :: rest => if isBlank c then c.utf8Size + blankSize rest else 0
  | [] => 0

/-- A run of blanks and splices. -/
def scanWhitespace (t : Text) : Scan := .ofSize (blankSize t)

/-- One line break. -/
def scanNewline (t : Text) : Scan := .ofSize (Text.lineBreakSize t)

/-- Two slashes and the rest of the line. -/
def scanLineComment : Text → Scan
  | '/' :: '/' :: rest => .matched (2 + Text.restOfLineSize rest)
  | _ => .noMatch

/-- A comment between its delimiters. -/
def scanBlockComment : Text → Scan
  | '/' :: '*' :: rest => (Scan.through ['*', '/'] rest).after 2
  | _ => .noMatch

/-- A word that is a keyword. -/
def scanKeyword (t : Text) : Scan :=
  let word := Text.identifier t
  if isKeyword word then .ofText word else .noMatch

/-- A word. -/
def scanIdentifier (t : Text) : Scan := .ofText (Text.identifier t)

/-- The encoding prefixes of literals. -/
def encodings : List Text := [['u', '8'], ['u'], ['U'], ['L']]

/-- The size of the encoding prefix at the start of a text. -/
def encodingSize (t : Text) : Nat := (encodings.find? (·.isPrefixOf t)).elim 0 List.length

/-- A literal between quotes, with or without an encoding prefix. -/
def scanQuoted (quote : Char) (t : Text) : Scan :=
  let encoding := encodingSize t
  match t.drop encoding with
  | c :: rest =>
    if c = quote then (Scan.throughQuote quote false rest).after (encoding + c.utf8Size)
    else .noMatch
  | [] => .noMatch

/-- The characters that the delimiter of a raw string may have. -/
def isRawDelimiter (c : Char) : Bool :=
  !(c == '(' || c == ')' || c == '\\' || c == '"' || c == ' ' || c == '\t' || c == '\n' ||
    c == '\r')

/-- What closes a raw string with a given delimiter. -/
def rawCloser (delimiter : Text) : Text := ')' :: (delimiter ++ ['"'])

theorem rawCloser_injective {d e : Text} (h : rawCloser d = rawCloser e) : d = e := by
  simpa [rawCloser] using h

/-- What follows the opening quote of a raw string: a delimiter of at most 16 bytes, and the
content in parentheses. -/
def scanRawBody (t : Text) : Scan :=
  let delimiter := t.takeWhile isRawDelimiter
  match t.drop delimiter.length with
  | '(' :: content =>
    if Text.size delimiter ≤ 16 then
      (Scan.through (rawCloser delimiter) content).after (Text.size delimiter + 1)
    else .noMatch
  | _ => .noMatch

/-- The characters that a quoted literal starts with: its quote or those of an encoding. -/
def startsQuoted (quote c : Char) : Bool := c == quote || c == 'u' || c == 'U' || c == 'L'

/-- A string. The first characters of a raw string must stand together as they are, but any other
string may be broken up by splices. -/
def scanString (t : Text) : Scan :=
  let encoding := encodingSize t
  match t.drop encoding with
  -- There is no way back: a malformed raw string is no other string either.
  | 'R' :: '"' :: rest => (scanRawBody rest).after (encoding + 2)
  | _ => scanSpliced false (startsQuoted '"') (scanQuoted '"') t

/-- The first characters of the punctuators. -/
def operatorStarts : List Char := operators.filterMap (·.toList.head?)

/-- The longest punctuator. -/
def scanOperator (t : Text) : Scan :=
  .ofSize (((operators.map String.toList).filter (·.isPrefixOf t)).foldl
    (fun longest op ↦ max longest (Text.size op)) 0)

/-! ### Decoding -/

/-- A number without splices and separators. -/
def decodeNumber (t : Text) : Text := (unsplice t).filter (· != '\'')

/-- What stands between the quotes of a character literal, decoded. -/
def decodeCharacter (t : Text) : Text :=
  if t.contains '\'' then
    let start := Text.prefixSize (· != '\'') t + 1
    Text.unescape ((Text.slice? start (Text.size t - 1) t).getD [])
  else t

/-- What stands between the quotes of a string, decoded; the content of a raw string is kept. -/
def decodeString (t : Text) : Text :=
  let front := t.takeWhile (· != '"')
  match t.drop front.length with
  | '"' :: body =>
    if front.getLast? = some 'R' then
      if body.contains '(' then
        let start := Text.prefixSize (· != '(') body
        (Text.slice? (start + 1) (Text.size body - (start + 2)) body).getD []
      else t
    else Text.unescape (if body.getLast? = some '"' then body.dropLast else body)
  | _ => t

/-! ### The lexicon -/

/-- The rules of C++. A keyword comes before an identifier of the same length. -/
def lexicon : Lexicon Kind where
  name := "cpp"
  rules :=
    [⟨.whitespace, scanWhitespace, id⟩,
      ⟨.newline, scanNewline, id⟩,
      ⟨.lineComment, scanSpliced true (· == '/') scanLineComment, unsplice⟩,
      ⟨.blockComment, scanSpliced false (· == '/') scanBlockComment, unsplice⟩,
      ⟨.keyword, scanSpliced true Text.isIdentifierStart scanKeyword, unsplice⟩,
      ⟨.identifier, scanSpliced true Text.isIdentifierStart scanIdentifier, unsplice⟩,
      ⟨.integerLiteral, scanSpliced true Numeral.isStart (Numeral.scan false), decodeNumber⟩,
      ⟨.floatingLiteral, scanSpliced true Numeral.isStart (Numeral.scan true), decodeNumber⟩,
      ⟨.characterLiteral, scanSpliced false (startsQuoted '\'') (scanQuoted '\''), decodeCharacter⟩,
      ⟨.stringLiteral, scanString, decodeString⟩,
      ⟨.operator, scanSpliced true operatorStarts.contains scanOperator, unsplice⟩]

end LexFront.Cpp
