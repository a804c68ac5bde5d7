import Idl.Document.Enumeration
import Idl.Document.Structure

/-!
The other declarations: interfaces, identifiers, specimens and factories. Imports are kept as
they were written, with the source they turned out to mean.
-/

namespace Idl

/-- Which way a method passes a parameter. -/
inductive Direction where
  | input
  | output
  | both
  deriving DecidableEq, Repr, Inhabited

namespace Direction

def arrow : Direction → String
  | input => "-->"
  | output => "<--"
  | both => "<->"

def name : Direction → String
  | input => "in"
  | output => "out"
  | both => "inout"

def ofArrow? (text : String) : Option Direction :=
  [input, output, both].find? (·.arrow == text)

end Direction

structure Parameter where
  name : Name
  location : Location
  comment : Option Comment := none
  direction : Direction
  type : Option DataType
  deriving DecidableEq, Repr, Inhabited

structure Method where
  name : Name
  location : Location
  comment : Option Comment := none
  parameters : List Parameter := []
  deriving DecidableEq, Repr, Inhabited

def Method.parameter? (m : Method) (name : String) : Option Parameter :=
  m.parameters.find? (·.name.value == name)

structure Interface extends Heading where
  methods : List Method := []
  deriving DecidableEq, Repr, Inhabited

def Interface.addMethod (i : Interface) (m : Method) : Interface :=
  { i with methods := i.methods ++ [m] }

/-- Adds a parameter to the method at a position. -/
def Interface.addParameter (i : Interface) (method : Nat) (p : Parameter) : Interface :=
  { i with
    methods := i.methods.modify method fun m => { m with parameters := m.parameters ++ [p] } }

def Interface.method? (i : Interface) (name : String) : Option Method :=
  i.methods.find? (·.name.value == name)

/-- A typed key. -/
structure Identifier extends Heading where
  parameter : Option DataType
  cast : Cast
  deriving DecidableEq, Repr, Inhabited

/-- A constrained type of values. -/
structure Specimen extends Heading where
  parameter : Option DataType
  base : Option SpecimenId := none
  cast : Cast
  deriving DecidableEq, Repr, Inhabited

inductive Factory.Kind where
  | hierarchy
  | object
  | plugin
  deriving DecidableEq, Repr, Inhabited

namespace Factory.Kind

def keyword : Kind → String
  | hierarchy => "hierarchy"
  | object => "object"
  | plugin => "plugin"

def all : List Kind :=
  [hierarchy, object, plugin]

def ofKeyword? (word : String) : Option Kind :=
  all.find? (·.keyword == word)

end Factory.Kind

/-- A method that finds objects by a field. -/
structure Filter where
  field : FieldRef
  method : Name
  location : Location
  comment : Option Comment := none
  deriving DecidableEq, Repr, Inhabited

structure Factory extends Heading where
  kind : Factory.Kind
  /-- Objects are made by a function. -/
  function : Bool
  parameter : Option DataType
  filters : List Filter := []
  deriving DecidableEq, Repr, Inhabited

def Factory.addFilter (f : Factory) (filter : Filter) : Factory :=
  { f with filters := f.filters ++ [filter] }

structure Import where
  source : String
  location : Location
  comment : Option Comment := none
  resolved : Option SourceId := none
  deriving DecidableEq, Repr, Inhabited

inductive Declaration where
  | struct (id : StructureId)
  | enum (id : EnumerationId)
  | identifier (id : IdentifierId)
  | specimen (id : SpecimenId)
  | interface (id : InterfaceId)
  | factory (id : FactoryId)
  deriving DecidableEq, Repr, Inhabited

namespace Declaration

/-- The type a declaration introduces; interfaces and factories are no types. -/
def type? : Declaration → Option DataType
  | struct id => some (.struct id)
  | enum id => some (.enum id)
  | identifier id => some (.identifier id)
  | specimen id => some (.specimen id)
  | interface _ | factory _ => none

theorem eq_of_type? {a b : Declaration} {t : DataType} (ha : a.type? = some t)
    (hb : b.type? = some t) : a = b := by
  cases a <;> cases b <;> simp_all [type?] <;> subst t <;> simp_all

end Declaration

end Idl
