import Idl.Grammar.Type

/-!
Interfaces: `interface Name { method name { -->|<--|<-> type name; } }`.
-/

namespace Idl.Grammar

/-- Reads a parameter of the method at a position, `direction type name;`. -/
def parameter (id : InterfaceId) (method : Nat) (comment : Option Comment) (arrow : Token) :
    Parser Unit := do
  advance
  let type ← typeUse "parameter" none false
  let name ← expectName "parameter"
  expectSemicolon
  let s ← get
  let count := do
    let i ← s.document.interfaces.get? id
    let m ← i.methods[method]?
    return m.parameters.length
  let parameter : Parameter :=
    { name
      location := s.locationOf arrow
      comment
      direction := (Direction.ofArrow? arrow.text).getD .input
      type := type.type? }
  modifyDocument (·.modifyInterface id (·.addParameter method parameter))
  await type.name? "parameter" none (.methodParameter id method (count.getD 0))

def methodItem (id : InterfaceId) (method : Nat) : Item :=
  fun comment first s => s.salvage
    (if first.kind == .arrow then parameter id method comment first
    else unknownStatement first "method" "-->, <-- or <->")

/-- Reads a method up to its parameters. It is a method of the interface before they are read;
the result is its position there. -/
def methodHeader (id : InterfaceId) (comment : Option Comment) : Parser Nat := do
  let keyword ← expectKeyword "method"
  let name ← expectName "method"
  openBody "method"
  let s ← get
  let position := ((s.document.interfaces.get? id).map (·.methods.length)).getD 0
  let method : Method := { name, location := s.locationOf keyword, comment }
  modifyDocument (·.modifyInterface id (·.addMethod method))
  return position

/-- Reads a method. -/
def method (id : InterfaceId) (comment : Option Comment) : Parser Unit := do
  let position ← methodHeader id comment
  items "method" (methodItem id position)

def interfaceItem (id : InterfaceId) : Item :=
  fun comment first s => s.salvage
    (if first.isKeyword "method" then method id comment
    else unknownStatement first "interface" "method")

/-- Reads an interface up to its body. -/
def interfaceHeader (comment : Option Comment) : Parser InterfaceId := do
  let keyword ← expectKeyword "interface"
  let name ← expectName "interface"
  let s ← get
  let id := s.document.interfaces.next
  let header : Interface :=
    { name, location := s.locationOf keyword, comment, package := s.package }
  modifyDocument (·.insertInterface header)
  return id

/-- Reads an interface. -/
def interface (comment : Option Comment) : Parser InterfaceId := do
  let id ← interfaceHeader comment
  body "interface" (interfaceItem id)
  return id

end Idl.Grammar
