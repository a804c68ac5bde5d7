import Idl.Token.Lexer

/-!
A cursor over the tokens of one source. It moves forward only; to be at the end is a state,
not a failure. The end of the source, where a premature end is reported, is behind the last
token.
-/

namespace Idl

structure Cursor where
  rest : List Token
  endLine : Nat
  endColumn : Nat
  deriving DecidableEq, Repr, Inhabited

namespace Cursor

def ofTokens (tokens : List Token) : Cursor :=
  match tokens.getLast? with
  | some last => ⟨tokens, last.line, last.endColumn⟩
  | none => ⟨tokens, 1, 1⟩

def ofText (text : String) : Cursor :=
  ofTokens (Token.tokenize text)

def current (c : Cursor) : Option Token :=
  c.rest.head?

def peek (c : Cursor) : Option Token :=
  c.rest[1]?

def atEnd (c : Cursor) : Bool :=
  c.rest.isEmpty

/-- Past the current token; stays at the end. -/
def shift (c : Cursor) : Cursor :=
  { c with rest := c.rest.tail }

def skipComments (c : Cursor) : Cursor :=
  { c with rest := c.rest.dropWhile Token.isComment }

def isAt (c : Cursor) (kind : Token.Kind) : Bool :=
  c.current.any (·.kind == kind)

def isAtText (c : Cursor) (kind : Token.Kind) (text : String) : Bool :=
  c.current.any (·.is kind text)

def isAtKeyword (c : Cursor) (keyword : String) : Bool :=
  c.isAtText .identifier keyword

/-- Line and column of the current token, or of the end of the source. -/
def position (c : Cursor) : Nat × Nat :=
  match c.current with
  | some t => (t.line, t.column)
  | none => (c.endLine, c.endColumn)

theorem rest_ofTokens (tokens : List Token) : (ofTokens tokens).rest = tokens := by
  unfold ofTokens
  split <;> rfl

theorem skipComments_rest_length_le (c : Cursor) :
    c.skipComments.rest.length ≤ c.rest.length :=
  (List.dropWhile_sublist _).length_le

end Cursor

end Idl
