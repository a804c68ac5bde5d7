import Idl.Document.Lookup
import Idl.Token.Lexer

/-!
Names that wait for their declaration. Where a type is used before it is declared, its slot
stays empty and a binding remembers the name, the slot, and how the name is to be understood:
the package and the source it was written in and the structure around it.
-/

namespace Idl

/-- A type name as it is written: qualifying segments and the name itself. -/
structure TypeName where
  path : List String
  /-- The first segment; what is said about the whole name is said here. -/
  first : Token
  /-- The last segment, the name that is looked up. -/
  last : Token
  deriving DecidableEq, Repr, Inhabited

def TypeName.display (n : TypeName) : String :=
  Package.dotted (n.path ++ [n.last.text])

/-- Where a type belongs that is not known yet. -/
inductive Slot where
  | field (f : FieldRef)
  | enumerationParameter (id : EnumerationId)
  | identifierParameter (id : IdentifierId)
  | specimenParameter (id : SpecimenId)
  | factoryParameter (id : FactoryId)
  | templateArgument (id : TemplateId)
  | methodParameter (id : InterfaceId) (method parameter : Nat)
  deriving DecidableEq, Repr, Inhabited

structure Binding where
  name : TypeName
  /-- What the type is wanted for. -/
  classifier : String
  /-- The structure whose nested enumerations the name can mean. -/
  scope : Option StructureId
  package : Option Package
  source : Option SourceId
  slot : Slot
  deriving DecidableEq, Repr, Inhabited

namespace Binding

/-- Whether a type of this name in this package is what the binding waits for. -/
def accepts (b : Binding) (name : String) (package : Option Package) : Bool :=
  b.name.last.text == name && (b.name.path.isEmpty || package.any (·.isNamed b.name.path))

/-- Whether a type of this package may be bound while more declarations can follow. A qualified
name may always be; an unqualified one only means a type of its own package until nothing else
can be declared. -/
def bindsEarly (b : Binding) (package : Option Package) : Bool :=
  !b.name.path.isEmpty || Package.same b.package package

/-- The declaration whose checks hang on the slot. -/
def owner? (b : Binding) : Option Declaration :=
  match b.slot with
  | .field f => some (.struct f.owner)
  | .enumerationParameter id => some (.enum id)
  | .identifierParameter id => some (.identifier id)
  | .specimenParameter id => some (.specimen id)
  | .factoryParameter id => some (.factory id)
  | .templateArgument _ => b.scope.map .struct
  | .methodParameter id _ _ => some (.interface id)

/-- What the name means in the document as it is. -/
def find? (b : Binding) (d : Document) : Option DataType :=
  d.findType? b.package b.name.path b.scope b.name.last.text

end Binding

def Parameter.setType (t : DataType) (p : Parameter) : Parameter :=
  { p with type := some t }

def Method.modifyParameter (position : Nat) (f : Parameter → Parameter) (m : Method) : Method :=
  { m with parameters := m.parameters.modify position f }

def Document.fill (d : Document) (slot : Slot) (t : DataType) : Document :=
  match slot with
  | .field f =>
    d.modifyStructure f.owner fun s =>
      s.modifyField f.member fun field => { field with type := some t }
  | .enumerationParameter id => d.modifyEnumeration id fun e => { e with parameter := some t }
  | .identifierParameter id => d.modifyIdentifier id fun i => { i with parameter := some t }
  | .specimenParameter id => d.modifySpecimen id fun s => { s with parameter := some t }
  | .factoryParameter id => d.modifyFactory id fun f => { f with parameter := some t }
  | .templateArgument id => d.modifyTemplate id fun i => { i with argument := some t }
  | .methodParameter id method parameter =>
    d.modifyInterface id fun i =>
      { i with
        methods := i.methods.modify method fun m =>
          m.modifyParameter parameter fun p => p.setType t }

end Idl
