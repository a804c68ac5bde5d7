import Idl.Text.Place

/-!
Tokens. Keywords have no kind of their own: the grammar knows them as identifiers with a
certain text, so a keyword may still be used where a plain name is expected.
-/

namespace Idl

namespace Token

inductive Kind where
  | identifier
  | integer
  | real
  | string
  | delimiter
  | bracket
  | operator
  | relation
  | bitwise
  | arrow
  | comment
  | dot
  | asterisk
  | invalid
  deriving DecidableEq, Repr, Inhabited

namespace Kind

def all : List Kind :=
  [identifier, integer, real, string, delimiter, bracket, operator, relation, bitwise, arrow,
    comment, dot, asterisk, invalid]

def name : Kind → String
  | identifier => "Identifier"
  | integer => "IntegerLiteral"
  | real => "RealLiteral"
  | string => "StringLiteral"
  | delimiter => "Delimiter"
  | bracket => "Bracket"
  | operator => "Operator"
  | relation => "RelationalOperator"
  | bitwise => "BitwiseOperator"
  | arrow => "ArrowOperator"
  | comment => "Comment"
  | dot => "Dot"
  | asterisk => "Asterisk"
  | invalid => "Invalid"

def describe : Kind → String
  | identifier => "identifier"
  | integer => "integer literal"
  | real => "real literal"
  | string => "string literal"
  | delimiter => "delimiter"
  | bracket => "bracket"
  | operator => "operator"
  | relation => "relational operator"
  | bitwise => "bitwise operator"
  | arrow => "arrow"
  | comment => "comment"
  | dot => "dot"
  | asterisk => "asterisk"
  | invalid => "invalid token"

theorem mem_all (k : Kind) : k ∈ all := by
  cases k <;> decide

end Kind

end Token

/-- A token and the place of its first character. -/
structure Token where
  kind : Token.Kind
  text : String
  place : Text.Place
  deriving DecidableEq, Repr, Inhabited

namespace Token

def line (t : Token) : Nat :=
  t.place.line

def column (t : Token) : Nat :=
  t.place.column

def start (t : Token) : Nat :=
  t.place.offset

/-- Offset behind the last byte. -/
def stop (t : Token) : Nat :=
  t.place.offset + Text.byteCount t.text.toList

/-- The column behind the first line of the token. -/
def endColumn (t : Token) : Nat :=
  t.column + Text.byteCount ((Text.lines t.text.toList).headD [])

def is (t : Token) (kind : Kind) (text : String) : Bool :=
  t.kind == kind && t.text == text

def isKeyword (t : Token) (keyword : String) : Bool :=
  t.is .identifier keyword

def isComment (t : Token) : Bool :=
  t.kind == .comment

/-- The text of a string literal between its quotes, with the escapes replaced. A backslash
before any other character than `n`, `t` and `r` stands for that character. -/
def unescape : List Char → List Char
  | [] => []
  | ['\\'] => []
  | '\\' :: 'n' :: rest => '\n' :: unescape rest
  | '\\' :: 't' :: rest => '\t' :: unescape rest
  | '\\' :: 'r' :: rest => '\r' :: unescape rest
  | '\\' :: c :: rest => c :: unescape rest
  | c :: rest => c :: unescape rest

/-- What a literal stands for: a string loses its quotes and escapes, all else is as written. -/
def value (t : Token) : String :=
  match t.kind with
  | .string => String.ofList (unescape (t.text.toList.drop 1).dropLast)
  | _ => t.text

/-- A line of a block comment, without the asterisk that often leads it. -/
def blockCommentLine (line : List Char) : List Char :=
  match Text.trim line with
  | '*' :: rest => Text.trimStart rest
  | trimmed => trimmed

/-- The lines of a comment without its markers. Empty lines at the start and at the end of a
block comment are left out. -/
def commentLines (t : Token) : List String :=
  match t.kind, t.text.toList with
  | .comment, '/' :: '/' :: rest => [String.ofList (Text.trim rest)]
  | .comment, text =>
    let lines := (Text.lines ((text.drop 2).dropLast.dropLast)).map blockCommentLine
    let lines := (lines.dropWhile List.isEmpty).reverse.dropWhile List.isEmpty
    lines.reverse.map String.ofList
  | _, _ => []

def quoteChar : Char → List Char
  | '"' => ['\\', '"']
  | '\\' => ['\\', '\\']
  | '\n' => ['\\', 'n']
  | '\r' => ['\\', 'r']
  | '\t' => ['\\', 't']
  | '\x00' => ['\\', '0']
  | c => [c]

/-- The token as a listing shows it: kind, quoted text, line and column. -/
def display (t : Token) : String :=
  t.kind.name ++ "(\"" ++ String.ofList (t.text.toList.flatMap quoteChar) ++ "\")@" ++
    toString t.line ++ ":" ++ toString t.column

end Token

end Idl
