import Idl.Session.Basic
import Idl.Token.Cursor

/-!
What a source is read with. A state is the session together with where the reading of one
source stands. A parser of the grammar may fail; it has then reported why, and the state it
leaves behind is kept, so that the reading can go on from there.
-/

namespace Idl.Grammar

/-- Where the reading of one source stands. -/
structure Reading where
  cursor : Cursor
  source : Option SourceId := none
  package : Option Package := none
  /-- Names that wait for their declaration, in the order they were read. -/
  pending : List Binding := []
  /-- Whether this is the root of the session. -/
  isMain : Bool := false
  deriving DecidableEq, Repr, Inhabited

structure State extends Session, Reading
  deriving Repr, Inhabited

/-- How a parser fails: what is wrong has been reported. -/
inductive Reported where
  | reported
  deriving DecidableEq, Repr, Inhabited

abbrev Parser :=
  EStateM Reported State

namespace State

def remaining (s : State) : Nat :=
  s.cursor.rest.length

def current (s : State) : Option Token :=
  s.cursor.current

def locationOf (s : State) (t : Token) : Location :=
  ⟨s.source, t.line, t.column⟩

def nameOf (s : State) (t : Token) : Name :=
  ⟨t.text, s.locationOf t⟩

/-- The location of the current token, or of the end of the source. -/
def here (s : State) : Location :=
  ⟨s.source, s.cursor.position.1, s.cursor.position.2⟩

def shift (s : State) : State :=
  { s with cursor := s.cursor.shift }

def skipComments (s : State) : State :=
  { s with cursor := s.cursor.skipComments }

/-- Past the current token and the comments behind it. -/
def advance (s : State) : State :=
  s.shift.skipComments

def report (s : State) (m : Message) : State :=
  { s with toSession := s.toSession.report m }

def ask (s : State) (t : Option DataType) (defaults : List Default) : State :=
  { s with toSession := s.toSession.ask t defaults }

def modifyDocument (s : State) (f : Document → Document) : State :=
  { s with toSession := s.toSession.modifyDocument f }

/-- Lets a name wait for its declaration. -/
def await (s : State) (name : TypeName) (classifier : String) (scope : Option StructureId)
    (slot : Slot) : State :=
  { s with
    pending := s.pending ++
      [{ name, classifier, scope, slot, package := s.package, source := s.source }] }

/-- Binds what can be bound of the names that wait. -/
def settle (s : State) (f : Session → List Binding → Session × List Binding) : State :=
  let (session, pending) := f s.toSession s.pending
  { s with toSession := session, pending }

def find? (s : State) (scope : Option StructureId) (name : TypeName) : Option DataType :=
  s.document.findType? s.package name.path scope name.last.text

end State

def fail {α : Type} (m : Message) : Parser α := do
  modify (·.report m)
  throw .reported

def failHere {α : Type} (kind : Message.Kind) (params : List (Message.Param × String) := []) :
    Parser α := do
  fail (.of kind (← get).here params)

def failAt {α : Type} (t : Token) (kind : Message.Kind)
    (params : List (Message.Param × String) := []) : Parser α := do
  fail (.of kind ((← get).locationOf t) params)

def isAt (kind : Token.Kind) (text : String) : Parser Bool := do
  return (← get).cursor.isAtText kind text

def isAtKeyword (keyword : String) : Parser Bool :=
  isAt .identifier keyword

def advance : Parser Unit :=
  modify State.advance

/-- The current token, which has to be an accepted one. -/
def demand (accept : Token → Bool) (kind : Message.Kind)
    (params : List (Message.Param × String) := []) : Parser Token := do
  match (← get).current.filter accept with
  | some t => return t
  | none => failHere kind params

/-- Reads an accepted token and the comments behind it. -/
def expect (accept : Token → Bool) (kind : Message.Kind)
    (params : List (Message.Param × String) := []) : Parser Token := do
  let t ← demand accept kind params
  advance
  return t

def expectKeyword (keyword : String) : Parser Token :=
  expect (·.isKeyword keyword) .expectKeyword [(.keyword, keyword)]

def expectToken (kind : Token.Kind) (text : String) : Parser Token :=
  expect (·.is kind text) .expectToken [(.token, text)]

def expectName (statement : String) : Parser Name := do
  let t ← expect (·.kind == .identifier) .expectStatementName [(.statement, statement)]
  return (← get).nameOf t

def isSemicolon (t : Token) : Bool :=
  t.is .delimiter ";"

def isOpening (t : Token) : Bool :=
  t.is .bracket "\x7b"

def isClosing (t : Token) : Bool :=
  t.is .bracket "\x7d"

/-- Reads the end of a statement. Comments behind it belong to what follows. -/
def expectSemicolon : Parser Unit := do
  let _ ← demand isSemicolon .expectSemicolon
  modify State.shift

/-- Reads the start of a body. Comments behind it belong to what follows. -/
def openBody (statement : String) : Parser Unit := do
  let _ ← demand isOpening .expectStatementBody [(.statement, statement)]
  modify State.shift

/-- Fails at a token that cannot stand here, or at the end of the source. -/
def unexpected {α : Type} (statement : String) : Parser α := do
  match (← get).current with
  | some t => failAt t .unexpectedToken [(.token, t.text)]
  | none => failHere .unexpectedEndOfInput [(.statement, statement)]

/-- Fails at a token that starts none of the statements that can stand here. -/
def unknownStatement {α : Type} (t : Token) (context options : String) : Parser α :=
  failAt t .unknownStatement [(.context, context), (.options, options)]

/-- Fails at a token that says something else than what is wanted here. -/
def inappropriate {α : Type} (t : Token) (classifier options : String) : Parser α :=
  failAt t .expectAppropriateType [(.classifier, classifier), (.options, options)]

def modifyDocument (f : Document → Document) : Parser Unit :=
  modify (·.modifyDocument f)

/-- Lets a name wait for its declaration, if there is one that has to. -/
def await (name : Option TypeName) (classifier : String) (scope : Option StructureId)
    (slot : Slot) : Parser Unit :=
  match name with
  | some name => modify (·.await name classifier scope slot)
  | none => pure ()

end Idl.Grammar
