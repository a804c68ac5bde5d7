import Idl.Grammar.Factory
import Idl.Grammar.Interface
import Idl.Grammar.Structure
import Idl.Grammar.Value

/-!
Declarations at the top of a source. A declaration that was read is checked. If it passes it is
registered, and the names that wait for its type are bound; if not, nothing of it stays.
-/

namespace Idl.Grammar

inductive DeclarationForm where
  | struct
  | interface
  | enum
  | specimen
  | identifier
  | factory
  deriving DecidableEq, Repr

namespace DeclarationForm

def all : List DeclarationForm :=
  [struct, interface, enum, specimen, identifier, factory]

def keyword : DeclarationForm → String
  | struct => "structure"
  | interface => "interface"
  | enum => "enum"
  | specimen => "specimen"
  | identifier => "identifier"
  | factory => "factory"

def ofKeyword? (word : String) : Option DeclarationForm :=
  all.find? (·.keyword == word)

/-- The keywords as a message names them. -/
def options : String :=
  "structure, interface, enum, specimen, identifier or factory"

def groups : DeclarationForm → List (List String)
  | struct => structureModifiers
  | interface => []
  | enum => enumerationModifiers
  | specimen | identifier => valueModifiers
  | factory => factoryModifiers

end DeclarationForm

def declarationModifiers : List String :=
  Trait.all.map Trait.keyword ++ castWords ++ ["flags", "function"] ++ factoryWords

def declaration (checks : List Check) (comment : Option Comment) : Parser Declaration := do
  let taken ← modifiers declarationModifiers
  match (← get).current.bind fun t => DeclarationForm.ofKeyword? t.text with
  | none =>
    failHere .unknownStatement
      [(.context, "source"), (.options, DeclarationForm.options)]
  | some form =>
    let x ←
      match form with
      | .struct => .struct <$> structureDeclaration checks comment taken
      | .interface => .interface <$> interface comment
      | .enum => .enum <$> enumeration comment taken none
      | .specimen => .specimen <$> specimen comment taken
      | .identifier => .identifier <$> identifier comment taken
      | .factory => .factory <$> factory comment taken
    reportModifiers (leftOver taken form.groups)
    return x

namespace State

/-- Makes a declaration visible, and binds the names that wait for its type. -/
def register (checks : List Check) (x : Declaration) (s : State) : State :=
  let s := s.modifyDocument (·.register x)
  match x.type? with
  | some t => s.settle fun session pending => session.settleRegistered checks t pending
  | none => s

/-- Registers a declaration that passes the checks. -/
def acceptDeclaration (checks : List Check) (x : Declaration) (s : State) : Bool × State :=
  let (passed, session) := s.toSession.visit checks (.declaration x) false
  let s := { s with toSession := session }
  if passed then (true, s.register checks x) else (false, s)

/-- Skips the rest of a broken declaration and the closing brackets that are left over. -/
def recoverOutside (s : State) : State :=
  let s := s.recover
  { s with cursor := { s.cursor with rest := s.cursor.rest.dropWhile isClosing } }

/-- Reads a declaration and takes it in, or skips it if it is broken. -/
def declare (checks : List Check) (comment : Option Comment) (s : State) : State :=
  s.construct (declaration checks comment) (acceptDeclaration checks) recoverOutside

/-- Reports a token that starts no statement, and skips it with all that follow until there is
a word or a comment. -/
def skipGarbage (first : Token) (s : State) : State :=
  let s := s.report (.of .unexpectedToken (s.locationOf first) [(.token, first.text)])
  let startsNothing (t : Token) := !(t.kind == .identifier || t.kind == .comment)
  { s with cursor := { s.cursor with rest := s.cursor.rest.tail.dropWhile startsNothing } }

end State

end Idl.Grammar
