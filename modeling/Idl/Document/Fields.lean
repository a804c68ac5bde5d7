import Idl.Document.Basic

/-!
Fields along a chain of bases. A structure only ever has an earlier structure as its base, so
the chain ends. A field is looked for from the structure towards its root; the combined fields
are put together from the root towards the structure.
-/

namespace Idl

/-- A field that is visible in a structure, where it is declared, and the default it has there. -/
structure CombinedField where
  field : Field
  owner : FieldRef
  default : Option Default
  deriving DecidableEq, Repr, Inhabited

namespace Document

/-- The bases of a structure, the direct base first. -/
def ancestors (d : Document) (id : StructureId) : List StructureId :=
  match (d.structures.get? id).bind (·.base) with
  | some base => if base.index < id.index then base :: d.ancestors base else []
  | none => []
  termination_by id.index

/-- A structure and its bases. -/
def lineage (d : Document) (id : StructureId) : List StructureId :=
  id :: d.ancestors id

def field? (d : Document) (f : FieldRef) : Option Field :=
  (d.structures.get? f.owner).bind (·.field? f.member)

/-- The field of a name in the structure nearest to `id` that declares one. -/
def findField? (d : Document) (id : StructureId) (name : String) : Option FieldRef :=
  (d.lineage id).findSome? fun owner =>
    ((d.structures.get? owner).bind (·.findField? name)).map (⟨owner, ·⟩)

/-- Puts the first entry of an owner in the place of another, or behind all entries. -/
def CombinedField.replace (owner : FieldRef) (entry : CombinedField) :
    List CombinedField → List CombinedField
  | [] => [entry]
  | c :: rest => if c.owner == owner then entry :: rest else c :: replace owner entry rest

/-- Sets the default of the first entry of an owner. -/
def CombinedField.setDefault (owner : FieldRef) (default : Default) :
    List CombinedField → List CombinedField
  | [] => []
  | c :: rest =>
    if c.owner == owner then { c with default := some default } :: rest
    else c :: setDefault owner default rest

/-- The fields after one more member. -/
def combineMember (owner : StructureId) (combined : List CombinedField) :
    Member × Nat → List CombinedField
  | (.field f, position) => combined ++ [⟨f, ⟨owner, position⟩, f.default⟩]
  | (.override f overridden, position) =>
    CombinedField.replace overridden ⟨f, ⟨owner, position⟩, f.default⟩ combined
  | (.alter a, _) => CombinedField.setDefault a.field a.default combined
  | _ => combined

def combineStructure (d : Document) (combined : List CombinedField) (id : StructureId) :
    List CombinedField :=
  match d.structures.get? id with
  | some s => s.members.zipIdx.foldl (combineMember id) combined
  | none => combined

/-- All fields that are visible in a structure, those of its root first. An overriding field
takes the place of the overridden one, an alter replaces the default. -/
def combinedFields (d : Document) (id : StructureId) : List CombinedField :=
  (d.lineage id).reverse.foldl d.combineStructure []

/-- Whether a structure is the other one or derives from it. -/
def inherits (d : Document) (id base : StructureId) : Bool :=
  (d.lineage id).contains base

def isRelated (d : Document) (a b : StructureId) : Bool :=
  d.inherits a b || d.inherits b a

/-- Whether a structure overrides the field by one of its own. -/
def overrides (d : Document) (id : StructureId) (f : FieldRef) : Bool :=
  (d.structures.get? id).any fun s => s.members.any fun
    | .override _ overridden => overridden == f
    | _ => false

def hasOperator (d : Document) (id : StructureId) (action : Operator.Action) : Bool :=
  (d.structures.get? id).any fun s => s.members.any fun m => m.operator?.any (·.action == action)

/-- The identification of a structure or of its nearest base that declares one. -/
def identification? (d : Document) (id : StructureId) : Option Identification :=
  (d.lineage id).findSome? fun owner =>
    (d.structures.get? owner).bind fun s => s.members.findSome? Member.identification?

def hasRuntimeIdentification (d : Document) (id : StructureId) : Bool :=
  (d.identification? id).any (·.kind == .runtime)

end Document

end Idl
