import Idl.Document.Declaration

/-!
The document: the nodes of all sources that were read together. A node that stands in an arena
is not yet visible; only registered declarations are listed and found by their names. An extent
says how far the arenas reach, so that what was inserted since can be taken away again.
-/

namespace Idl

structure Document where
  /-- The name of the root source without its extension. -/
  name : Option String := none
  source : Option SourceId := none
  /-- Where the root source starts. -/
  mainFile : Option Location := none
  /-- The package of the root source. -/
  package : Option Package := none
  /-- The imports of all sources, in the order they were read. -/
  imports : List Import := []
  structures : Arena .struct Structure := {}
  enumerations : Arena .enum Enumeration := {}
  identifiers : Arena .identifier Identifier := {}
  specimens : Arena .specimen Specimen := {}
  interfaces : Arena .interface Interface := {}
  factories : Arena .factory Factory := {}
  templates : Arena .template Instance := {}
  /-- The registered declarations, in the order of registration. -/
  declarations : List Declaration := []
  /-- The registered types under their names, in the order of registration. -/
  typeNames : List (String × DataType) := []
  /-- The instances that are used again for the same template, argument and weakness. -/
  shared : List ((Template × DataType × Bool) × TemplateId) := []
  deriving DecidableEq, Repr, Inhabited

/-- The sizes of the arenas. -/
structure Document.Extent where
  structures : Nat
  enumerations : Nat
  identifiers : Nat
  specimens : Nat
  interfaces : Nat
  factories : Nat
  templates : Nat
  deriving DecidableEq, Repr, Inhabited

namespace Document

/-- Notes which source is the root. -/
def setMain (d : Document) (source : Option SourceId) : Document :=
  { d with
    name := source.map fun id => SourceId.stem id.requested
    source
    mainFile := some ⟨source, 1, 1⟩ }

def addImport (d : Document) (i : Import) : Document :=
  { d with imports := d.imports ++ [i] }

def extent (d : Document) : Extent where
  structures := d.structures.size
  enumerations := d.enumerations.size
  identifiers := d.identifiers.size
  specimens := d.specimens.size
  interfaces := d.interfaces.size
  factories := d.factories.size
  templates := d.templates.size

def insertStructure (d : Document) (x : Structure) : Document :=
  { d with structures := d.structures.insert x }

def insertEnumeration (d : Document) (e : Enumeration) : Document :=
  { d with enumerations := d.enumerations.insert e }

def insertIdentifier (d : Document) (i : Identifier) : Document :=
  { d with identifiers := d.identifiers.insert i }

def insertSpecimen (d : Document) (s : Specimen) : Document :=
  { d with specimens := d.specimens.insert s }

def insertInterface (d : Document) (i : Interface) : Document :=
  { d with interfaces := d.interfaces.insert i }

def insertFactory (d : Document) (f : Factory) : Document :=
  { d with factories := d.factories.insert f }

def modifyStructure (d : Document) (id : StructureId) (f : Structure → Structure) : Document :=
  { d with structures := d.structures.modify id f }

def modifyEnumeration (d : Document) (id : EnumerationId) (f : Enumeration → Enumeration) :
    Document :=
  { d with enumerations := d.enumerations.modify id f }

def modifyIdentifier (d : Document) (id : IdentifierId) (f : Identifier → Identifier) :
    Document :=
  { d with identifiers := d.identifiers.modify id f }

def modifySpecimen (d : Document) (id : SpecimenId) (f : Specimen → Specimen) : Document :=
  { d with specimens := d.specimens.modify id f }

def modifyInterface (d : Document) (id : InterfaceId) (f : Interface → Interface) : Document :=
  { d with interfaces := d.interfaces.modify id f }

def modifyFactory (d : Document) (id : FactoryId) (f : Factory → Factory) : Document :=
  { d with factories := d.factories.modify id f }

def modifyTemplate (d : Document) (id : TemplateId) (f : Instance → Instance) : Document :=
  { d with templates := d.templates.modify id f }

/-- Takes away the nodes inserted since the arenas had this extent. They are not registered. -/
def restore (d : Document) (e : Extent) : Document :=
  { d with
    structures := d.structures.truncate e.structures
    enumerations := d.enumerations.truncate e.enumerations
    identifiers := d.identifiers.truncate e.identifiers
    specimens := d.specimens.truncate e.specimens
    interfaces := d.interfaces.truncate e.interfaces
    factories := d.factories.truncate e.factories
    templates := d.templates.truncate e.templates
    shared := d.shared.filter (·.2.index < e.templates) }

def heading? (d : Document) : Declaration → Option Heading
  | .struct id => (d.structures.get? id).map (·.toHeading)
  | .enum id => (d.enumerations.get? id).map (·.toHeading)
  | .identifier id => (d.identifiers.get? id).map (·.toHeading)
  | .specimen id => (d.specimens.get? id).map (·.toHeading)
  | .interface id => (d.interfaces.get? id).map (·.toHeading)
  | .factory id => (d.factories.get? id).map (·.toHeading)

def name? (d : Document) (x : Declaration) : Option Name :=
  (d.heading? x).map (·.name)

def nameText (d : Document) (x : Declaration) : String :=
  match d.name? x with
  | some name => name.value
  | none => ""

def package? (d : Document) (x : Declaration) : Option Package :=
  (d.heading? x).bind (·.package)

/-- Makes a declaration visible. Whether its name is free is not asked here. -/
def register (d : Document) (x : Declaration) : Document :=
  { d with
    declarations := d.declarations ++ [x]
    typeNames :=
      match x.type? with
      | some t => d.typeNames ++ [(d.nameText x, t)]
      | none => d.typeNames }

/-- Hides a declaration again. Its node stays, so what refers to it remains as it is. -/
def withdraw (d : Document) (x : Declaration) : Document :=
  { d with
    declarations := d.declarations.filter (· != x)
    typeNames := d.typeNames.filter fun entry => some entry.2 != x.type? }

def isRegistered (d : Document) (x : Declaration) : Bool :=
  d.declarations.contains x

def registeredStructures (d : Document) : List StructureId :=
  d.declarations.filterMap fun
    | .struct id => some id
    | _ => none

def registeredEnumerations (d : Document) : List EnumerationId :=
  d.declarations.filterMap fun
    | .enum id => some id
    | _ => none

def registeredInterfaces (d : Document) : List InterfaceId :=
  d.declarations.filterMap fun
    | .interface id => some id
    | _ => none

def registeredFactories (d : Document) : List FactoryId :=
  d.declarations.filterMap fun
    | .factory id => some id
    | _ => none

def findDeclaration? (d : Document) (name : String) : Option Declaration :=
  d.declarations.find? fun x => (d.name? x).any (·.value == name)

def findStructure? (d : Document) (name : String) : Option StructureId :=
  d.registeredStructures.find? fun id => (d.name? (.struct id)).any (·.value == name)

def findEnumeration? (d : Document) (name : String) : Option EnumerationId :=
  d.registeredEnumerations.find? fun id => (d.name? (.enum id)).any (·.value == name)

/-- Puts an instance into the document. One with an argument is shared from now on. -/
def insertInstance (d : Document) (i : Instance) : Document :=
  { d with
    templates := d.templates.insert i
    shared :=
      match i.argument with
      | some t => d.shared ++ [((i.template, t, i.weak), d.templates.next)]
      | none => d.shared }

/-- An instance of a template, and the document that holds it. With an argument the same
instance is given out again; without one each instance waits for an argument of its own. -/
def instantiate (d : Document) (template : Template) (argument : Option DataType)
    (weak : Bool) : TemplateId × Document :=
  match argument.bind fun t => d.shared.lookup (template, t, weak) with
  | some id => (id, d)
  | none => (d.templates.next, d.insertInstance ⟨template, argument, weak⟩)

end Document

end Idl
