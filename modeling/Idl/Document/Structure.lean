import Idl.Document.DataType
import Idl.Document.Heading
import Idl.Token

/-!
Structures and their members. A member is known by the structure it stands in and its position
there, so members of a finished structure are never moved.
-/

namespace Idl

inductive Trait where
  | abstract
  | controlled
  | immutable
  | incomplete
  | sharable
  | streamable
  deriving DecidableEq, Repr, Inhabited

namespace Trait

def all : List Trait :=
  [abstract, controlled, immutable, incomplete, sharable, streamable]

def keyword : Trait → String
  | abstract => "abstract"
  | controlled => "controlled"
  | immutable => "immutable"
  | incomplete => "partial"
  | sharable => "sharable"
  | streamable => "streamable"

def ofKeyword? (word : String) : Option Trait :=
  all.find? (·.keyword == word)

end Trait

/-- The default of a field: it may be left unset, or it has a literal, kept with the kind of
its token. -/
inductive Default where
  | optional (location : Location)
  | literal (value : String) (kind : Token.Kind) (location : Location)
  deriving DecidableEq, Repr, Inhabited

def Default.location : Default → Location
  | optional location | literal _ _ location => location

/-- A field by the structure and the member it is. -/
structure FieldRef where
  owner : StructureId
  member : Nat
  deriving DecidableEq, Repr, Inhabited

structure Field where
  name : Name
  location : Location
  comment : Option Comment := none
  /-- The type, once it is known. -/
  type : Option DataType
  bitmask : Nat
  default : Option Default := none
  owner : StructureId
  deriving DecidableEq, Repr, Inhabited

/-- Another default for a field of the base. -/
structure Alter where
  field : FieldRef
  name : Name
  default : Default
  location : Location
  deriving DecidableEq, Repr, Inhabited

inductive Identification.Kind where
  | runtime
  | inproc
  deriving DecidableEq, Repr, Inhabited

def Identification.Kind.keyword : Identification.Kind → String
  | runtime => "runtime"
  | inproc => "inproc"

structure Identification where
  kind : Identification.Kind
  location : Location
  comment : Option Comment := none
  owner : StructureId
  deriving DecidableEq, Repr, Inhabited

/-- A structure can be copied from one of its bases. -/
structure Upcopy where
  base : StructureId
  location : Location
  comment : Option Comment := none
  owner : StructureId
  deriving DecidableEq, Repr, Inhabited

inductive Operator.Action where
  | equalTo
  | lessThan
  deriving DecidableEq, Repr, Inhabited

namespace Operator.Action

def symbol : Action → String
  | equalTo => "=="
  | lessThan => "<"

def ofSymbol? (text : String) : Option Action :=
  [equalTo, lessThan].find? (·.symbol == text)

end Operator.Action

/-- How an operator is provided: generated, by a function, or by an object of its own. -/
inductive Operator.Form where
  | native
  | function
  | functor
  deriving DecidableEq, Repr, Inhabited

namespace Operator.Form

def keyword : Form → String
  | native => "native"
  | function => "function"
  | functor => "functor"

def all : List Form :=
  [native, function, functor]

def ofKeyword? (word : String) : Option Form :=
  all.find? (·.keyword == word)

def isMember : Form → Bool
  | functor => false
  | _ => true

end Operator.Form

structure Operator where
  action : Operator.Action
  form : Operator.Form
  location : Location
  comment : Option Comment := none
  owner : StructureId
  deriving DecidableEq, Repr, Inhabited

inductive Member where
  | field (field : Field)
  | override (field : Field) (overridden : FieldRef)
  | alter (alter : Alter)
  | enumeration (id : EnumerationId)
  | identification (identification : Identification)
  | upcopy (upcopy : Upcopy)
  | operator (operator : Operator)
  deriving DecidableEq, Repr, Inhabited

namespace Member

/-- The field a member declares, newly or in the place of a field of the base. -/
def field? : Member → Option Field
  | field f | override f _ => some f
  | _ => none

def modifyField (g : Field → Field) : Member → Member
  | field f => field (g f)
  | override f overridden => override (g f) overridden
  | m => m

def enumeration? : Member → Option EnumerationId
  | enumeration id => some id
  | _ => none

def alter? : Member → Option Alter
  | alter a => some a
  | _ => none

def identification? : Member → Option Identification
  | identification i => some i
  | _ => none

def operator? : Member → Option Operator
  | operator o => some o
  | _ => none

end Member

structure Structure extends Heading where
  base : Option StructureId := none
  /-- In the order of `Trait.all`. -/
  traits : List Trait := []
  members : List Member := []
  deriving DecidableEq, Repr, Inhabited

namespace Structure

def has (s : Structure) (t : Trait) : Bool :=
  s.traits.contains t

/-- Own fields and the positions of their members. -/
def fields (s : Structure) : List (Nat × Field) :=
  s.members.zipIdx.filterMap fun (m, position) => m.field?.map (position, ·)

def field? (s : Structure) (position : Nat) : Option Field :=
  s.members[position]?.bind Member.field?

/-- Position of the first own field of a name. -/
def findField? (s : Structure) (name : String) : Option Nat :=
  (s.fields.find? (·.2.name.value == name)).map (·.1)

def alters (s : Structure) : List Alter :=
  s.members.filterMap Member.alter?

def nestedEnumerations (s : Structure) : List EnumerationId :=
  s.members.filterMap Member.enumeration?

/-- The bit of the next own field. -/
def nextBitmask (s : Structure) : Nat :=
  s.fields.length

def isBuildable (s : Structure) : Bool :=
  !s.has .abstract

def addMember (s : Structure) (m : Member) : Structure :=
  { s with members := s.members ++ [m] }

def modifyField (s : Structure) (position : Nat) (g : Field → Field) : Structure :=
  { s with members := s.members.modify position (Member.modifyField g) }

end Structure

end Idl
