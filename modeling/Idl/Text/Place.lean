import Idl.Text.Blank

/-!
Places in a text. A place counts the bytes before it, lines from one, and columns from one in
bytes. A line index answers the same question for an offset without reading the text again;
its lines and columns count from zero.
-/

namespace Idl.Text

structure Place where
  offset : Nat := 0
  line : Nat := 1
  column : Nat := 1
  deriving DecidableEq, Repr, Inhabited

/-- The place behind one more character. -/
def Place.next (p : Place) (c : Char) : Place :=
  if c = '\n' then ⟨p.offset + 1, p.line + 1, 1⟩
  else ⟨p.offset + c.utf8Size, p.line, p.column + c.utf8Size⟩

/-- The place behind a text that starts at `p`. -/
def Place.after (p : Place) (text : List Char) : Place :=
  text.foldl Place.next p

theorem Place.after_append (p : Place) (a b : List Char) :
    p.after (a ++ b) = (p.after a).after b :=
  List.foldl_append

/-- A line and a column in bytes, both counted from zero. -/
structure LineColumn where
  line : Nat
  column : Nat
  deriving DecidableEq, Repr, Inhabited

namespace LineColumn

/-- From a line and a column counted from one; zero is read as one. -/
def ofOneBased (line column : Nat) : LineColumn :=
  ⟨line - 1, column - 1⟩

/-- Written with both numbers counted from one. -/
def display (p : LineColumn) : String :=
  toString (p.line + 1) ++ ":" ++ toString (p.column + 1)

end LineColumn

/-- The offsets at which the lines of a text start, and the size of the text. -/
structure LineIndex where
  starts : List Nat
  size : Nat
  deriving DecidableEq, Repr

namespace LineIndex

/-- Offsets behind the line feeds of a text that starts at `offset`. -/
def startsFrom (offset : Nat) : List Char → List Nat
  | [] => []
  | c :: rest =>
    let next := offset + c.utf8Size
    if c = '\n' then next :: startsFrom next rest else startsFrom next rest

def ofText (text : List Char) : LineIndex :=
  ⟨0 :: startsFrom 0 text, byteCount text⟩

/-- The position of an offset; one past the end of the text is taken for the end. -/
def lineColumn (index : LineIndex) (offset : Nat) : LineColumn :=
  let offset := min offset index.size
  let line := index.starts.countP (· ≤ offset) - 1
  ⟨line, offset - index.starts.getD line 0⟩

/-- The offset of a position in one of the lines; the column is not held against the line. -/
def offset (index : LineIndex) (p : LineColumn) : Option Nat :=
  index.starts[p.line]?.map (· + p.column)

/-- The number of lines; an empty text has one. -/
def lineCount (index : LineIndex) : Nat :=
  index.starts.length

def isEmpty (index : LineIndex) : Bool :=
  index.size == 0

end LineIndex

end Idl.Text
