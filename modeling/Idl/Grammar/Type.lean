import Idl.Grammar.Body

/-!
Types and defaults as they are written. A type that is not declared yet is read as well; its
name then waits for the declaration.
-/

namespace Idl.Grammar

/-- A type that was read: known, or the name of a type that is not declared yet. -/
inductive TypeUse where
  | known (t : DataType)
  | awaited (name : TypeName)
  deriving DecidableEq, Repr

namespace TypeUse

def type? : TypeUse → Option DataType
  | known t => some t
  | awaited _ => none

def name? : TypeUse → Option TypeName
  | known _ => none
  | awaited name => some name

end TypeUse

/-- Reads `segment.segment.name`. -/
def typeName (classifier : String) : Parser TypeName :=
  iterate (fun (path, first) => do
    let t ← expect (·.kind == .identifier) .expectType [(.classifier, classifier)]
    let first := first.getD t
    if ← isAt .dot "." then
      advance
      return .again (path ++ [t.text], some first)
    else return .done ⟨path, first, t⟩) ([], none)

def unknownType {α : Type} (name : TypeName) (classifier : String) : Parser α :=
  failAt name.first .unknownClassifierType [(.classifier, classifier), (.type, name.display)]

/-- Reads the name of a type that has to be declared already. -/
def declaredType (classifier : String) : Parser (TypeName × DataType) := do
  let name ← typeName classifier
  match (← get).find? none name with
  | some t => return (name, t)
  | none => unknownType name classifier

def TypeName.template? (name : TypeName) : Option Template :=
  if name.path.isEmpty then Template.ofKeyword? name.last.text else none

/-- Reads templates up to the name they are applied to; the innermost template comes first. -/
def templates (classifier : String) : Parser (List Template × TypeName) :=
  iterate (fun outer => do
    let name ← typeName classifier
    match TypeName.template? name with
    | some template =>
      let _ ← expectToken .relation "<"
      return .again (template :: outer)
    | none => return .done (outer, name)) []

/-- Puts a type into a new or a shared instance. -/
def instantiate (template : Template) (argument : Option DataType) (weak : Bool) :
    Parser TemplateId :=
  modifyGet fun s =>
    let (id, d) := s.document.instantiate template argument weak
    (id, s.modifyDocument fun _ => d)

/-- Reads the ends of templates, the innermost first. Only the outermost one is weak. -/
def closeTemplates (classifier : String) (scope : Option StructureId) (weak : Bool) :
    List Template → TypeUse → Parser TypeUse
  | [], t => return t
  | template :: outer, argument => do
    let _ ← expectToken .relation ">"
    let id ← instantiate template argument.type? (weak && outer.isEmpty)
    await argument.name? classifier scope (.templateArgument id)
    closeTemplates classifier scope weak outer (.known (.template id))

/-- Reads a type: a name, or templates around one. -/
def typeUse (classifier : String) (scope : Option StructureId) (weak : Bool) :
    Parser TypeUse := do
  let (outer, name) ← templates classifier
  let core :=
    match (← get).find? scope name with
    | some t => TypeUse.known t
    | none => TypeUse.awaited name
  closeTemplates classifier scope weak outer core

/-- Reads a type between angle brackets, if there is one. -/
def typeParameter (classifier : String) (scope : Option StructureId) :
    Parser (Option TypeUse) := do
  if ← isAt .relation "<" then
    advance
    let t ← typeUse classifier scope false
    let _ ← expectToken .relation ">"
    return some t
  else return none

def isLiteral (t : Token) : Bool :=
  t.kind == .identifier || t.kind == .integer || t.kind == .real || t.kind == .string

/-- Reads a default: `optional` or a literal. -/
def defaultValue (statement : String) : Parser Default := do
  let t ← expect isLiteral .expectValue [(.type, "literal"), (.statement, statement)]
  let location := (← get).locationOf t
  if t.isKeyword "optional" then return .optional location
  else return .literal t.value t.kind location

/-- Fails if a default is no value of the type. A type that is not known has any value. -/
def checkDefault (t : Option DataType) (default : Default) (statement : String) :
    Parser Unit := do
  modify (·.ask t [default])
  let d := (← get).document
  match t.bind fun t => d.defaultFault? t statement default with
  | some fault => fail fault
  | none => pure ()

end Idl.Grammar
