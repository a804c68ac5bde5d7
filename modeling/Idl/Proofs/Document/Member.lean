import Idl.Proofs.Document.Field
import Idl.Proofs.Session.Settle

/-!
What is asked of a member when it is written into a structure. What it says about a field of the
base, it says of the field that the base has under that name. A default is a value of the type
it is given for, as far as that is known. The type of a field is what a name means, or a
template. Fields are numbered, the base that is copied from is one of the bases, and an
enumeration was declared inside.
-/

namespace Idl

namespace Document

/-- A literal is a value of the type, if the type is known. -/
def Admits (d : Document) (t? : Option DataType) : Default → Prop
  | .optional _ => True
  | .literal value kind _ => ∀ t, t? = some t → d.accepts t kind value = some true

theorem admits_iff {d : Document} {t? : Option DataType} {default : Default} (statement : String) :
    d.Admits t? default ↔ ∀ t, t? = some t → d.defaultFault? t statement default = none := by
  cases default with
  | optional location => exact ⟨fun _ _ _ => rfl, fun _ => trivial⟩
  | literal value kind location =>
    refine forall₂_congr fun t _ => ?_
    by_cases h : d.accepts t kind value = some true <;> simp [defaultFault?, h]

/-- The field of a name that the base of a structure has. -/
def IsBaseField (d : Document) (id : StructureId) (name : String) (f : FieldRef) : Prop :=
  ∃ base, d.HasBase id base ∧ d.findField? base name = some f

theorem HasBase.addMember {d : Document} {id base : StructureId} (h : d.HasBase id base)
    (o : StructureId) (m : Member) : (d.modifyStructure o (·.addMember m)).HasBase id base := by
  obtain ⟨x, hx, hb⟩ := Option.bind_eq_some_iff.1 h
  rw [HasBase, modifyStructure, Arena.get?_modify, hx]
  split <;> exact hb

/-- The enumeration has a value at the position. -/
def HasValue (d : Document) (id : EnumerationId) (position : Nat) : Prop :=
  ∃ e, d.enumerations.get? id = some e ∧ position < e.values.length

/-- A template, or what some name means. -/
def IsSpelled (d : Document) (t : DataType) : Prop :=
  (∃ id, t = .template id) ∨ d.Means t

end Document

namespace Member

variable (d : Document)

/-- The field of the base that the member replaces or alters is the one of its name. -/
def Rooted (base : Option StructureId) : Member → Prop
  | .override f overridden =>
    ∃ b, base = some b ∧ d.findField? b f.name.value = some overridden
  | .alter a => ∃ b, base = some b ∧ d.findField? b a.name.value = some a.field
  | _ => True

def Admitted : Member → Prop
  | .field f | .override f _ => ∀ default, f.default = some default → d.Admits f.type default
  | .alter a => d.Admits ((d.field? a.field).bind (·.type)) a.default
  | _ => True

/-- What the member says of its own structure, as it was before the member, is right. -/
def Placed (id : StructureId) (x : Structure) : Member → Prop
  | .field f | .override f _ => f.bitmask = x.nextBitmask
  | .upcopy u => u.base ∈ d.ancestors id
  | .enumeration e => d.HasOwner e (some id)
  | _ => True

/-- The member can be written into a structure with this base. -/
structure Suits (base : Option StructureId) (m : Member) : Prop where
  rooted : m.Rooted d base
  admitted : m.Admitted d
  spelled : ∀ f t, m.field? = some f → f.type = some t → d.IsSpelled t

/-- A nested enumeration can be written into any structure. -/
theorem suits_enumeration (base : Option StructureId) (id : EnumerationId) :
    (Member.enumeration id).Suits d base :=
  ⟨trivial, trivial, fun _ _ hf => by cases hf⟩

end Member

end Idl
