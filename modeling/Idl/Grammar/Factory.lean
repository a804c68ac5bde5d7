import Idl.Grammar.Modifier
import Idl.Grammar.Type

/-!
Factories:
`[function] hierarchy|object|plugin factory <type> Name { filter field with method; }`.
-/

namespace Idl.Grammar

def factoryWords : List String :=
  Factory.Kind.all.map Factory.Kind.keyword

def factoryModifiers : List (List String) :=
  [factoryWords, ["function"]]

/-- The kind of a factory, which has to be among its modifiers. -/
def factoryKind (keyword : Token) (modifiers : List Token) : Parser Factory.Kind :=
  match modifiers.findSome? fun t => Factory.Kind.ofKeyword? t.text with
  | some kind => return kind
  | none => inappropriate keyword "factory" "hierarchy, object or plugin"

/-- Whether the objects of a factory are made by a function; only object factories have one. -/
def factoryFunction (kind : Factory.Kind) (modifiers : List Token) : Parser Bool :=
  match taken? modifiers ["function"] with
  | some t => if kind == .object then return true else failAt t .functionInNonObjectFactory
  | none => return false

/-- Reads `filter field with method;`. A filter needs an object factory whose objects are known
to be structures. -/
def filter (id : FactoryId) (comment : Option Comment) (keyword : Token) : Parser Unit := do
  let _ ← expectKeyword "filter"
  let s ← get
  let factory := s.document.factories.get? id
  if !factory.any (·.kind == .object) then failAt keyword .filterInNonObjectFactory
  match (factory.bind (·.parameter)).bind DataType.asStructure? with
  | none => failAt keyword .filterInFactoryForNonStructure
  | some owner =>
    let name ← expectName "filter field"
    match s.document.findField? owner name.value with
    | none =>
      fail (.of .unknownField name.location
        [(.name, name.value), (.type, s.document.nameText (.struct owner))])
    | some field =>
      let _ ← expectKeyword "with"
      let method ← expectName "filter method"
      expectSemicolon
      let filter : Filter := { field, method, location := s.locationOf keyword, comment }
      modifyDocument (·.modifyFactory id (·.addFilter filter))

def factoryItem (id : FactoryId) : Item :=
  fun comment first s => s.salvage
    (if first.isKeyword "filter" then filter id comment first
    else unknownStatement first "factory" "filter")

def factoryHeader (comment : Option Comment) (modifiers : List Token) : Parser FactoryId := do
  let keyword ← expectKeyword "factory"
  let kind ← factoryKind keyword modifiers
  let function ← factoryFunction kind modifiers
  match ← typeParameter "factory parameter" none with
  | none => failHere .expectToken [(.token, "<")]
  | some parameter =>
    let name ← expectName "factory"
    let s ← get
    let id := s.document.factories.next
    let header : Factory :=
      { name
        location := s.locationOf keyword
        comment
        package := s.package
        kind
        function
        parameter := parameter.type? }
    modifyDocument (·.insertFactory header)
    await parameter.name? "factory parameter" none (.factoryParameter id)
    return id

def factory (comment : Option Comment) (modifiers : List Token) : Parser FactoryId := do
  let id ← factoryHeader comment modifiers
  body "factory" (factoryItem id)
  return id

end Idl.Grammar
