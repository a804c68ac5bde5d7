import Idl.Proofs.Document.Heading

/-!
What the grammar writes to a document: a node without parts, a part of a node, the numbers of an
enumeration, a base, an instance. Each time the heading and the locations that are written are
known; a message that is reported later about a node or one of its parts points at one of them.
What is registered stays as it was.
-/

namespace Idl

variable {L : Location → Prop}

/-- Where a message about the member can point. -/
def Member.locations : Member → List Location
  | field f | override f _ => f.location :: (f.default.map Default.location).toList
  | alter a => [a.default.location]
  | identification i => [i.location]
  | operator o => [o.location]
  | enumeration _ | upcopy _ => []

namespace Document

/-- No instance is shared that could be given out in place of this one. -/
def Lacks (d : Document) (i : Instance) : Prop :=
  (i.argument.bind fun t => d.shared.lookup (i.template, t, i.weak)) = none

/-- What a routine of the grammar writes at once, at locations that satisfy `L` and with headings
that satisfy `H`. -/
inductive Write (L : Location → Prop) (H : Heading → Prop) (d : Document) : Document → Prop
  | struct (x : Structure) (h : H x.toHeading) (hm : x.members = []) :
      Write L H d (d.insertStructure x)
  | base (id base : StructureId) :
      Write L H d (d.modifyStructure id fun x => { x with base := some base })
  | member (id : StructureId) (m : Member) (h : ∀ l ∈ m.locations, L l) :
      Write L H d (d.modifyStructure id (·.addMember m))
  | enum (x : Enumeration) (h : H x.toHeading) (hv : x.values = []) :
      Write L H d (d.insertEnumeration x)
  | value (id : EnumerationId) (v : EnumerationValue) (h : L v.location) :
      Write L H d (d.modifyEnumeration id (·.addValue v))
  | numbers (id : EnumerationId) : Write L H d (d.modifyEnumeration id Enumeration.assignValues)
  | identifier (x : Identifier) (h : H x.toHeading) : Write L H d (d.insertIdentifier x)
  | specimen (x : Specimen) (h : H x.toHeading) : Write L H d (d.insertSpecimen x)
  | interface (x : Interface) (h : H x.toHeading) : Write L H d (d.insertInterface x)
  | method (id : InterfaceId) (m : Method) : Write L H d (d.modifyInterface id (·.addMethod m))
  | parameter (id : InterfaceId) (method : Nat) (p : Parameter) :
      Write L H d (d.modifyInterface id (·.addParameter method p))
  | factory (x : Factory) (h : H x.toHeading) : Write L H d (d.insertFactory x)
  | filter (id : FactoryId) (f : Filter) : Write L H d (d.modifyFactory id (·.addFilter f))
  | instance (i : Instance) (h : d.Lacks i) : Write L H d (d.insertInstance i)

/-- All that is registered is still there as it was, and nothing more is registered. -/
structure Remembers (d d' : Document) : Prop where
  extent : d.extent ≤ d'.extent
  typeNames : d'.typeNames = d.typeNames
  heading : ∀ x : Declaration, x.Below d.extent → d'.heading? x = d.heading? x

namespace Remembers

variable {d d' d'' : Document}

theorem refl (d : Document) : d.Remembers d :=
  ⟨Extent.le_refl _, rfl, fun _ _ => rfl⟩

theorem trans (h : d.Remembers d') (h' : d'.Remembers d'') : d.Remembers d'' where
  extent := Extent.le_trans h.extent h'.extent
  typeNames := h'.typeNames.trans h.typeNames
  heading x hx := (h'.heading x (hx.mono h.extent)).trans (h.heading x hx)

theorem of_agreeBelow (h : AgreeBelow d.extent d d') (he : d.extent ≤ d'.extent) :
    d.Remembers d' :=
  ⟨he, h.typeNames_eq, fun _ hx => h.heading?_eq hx⟩

theorem of_heading (he : d'.extent = d.extent) (ht : d'.typeNames = d.typeNames)
    (h : ∀ x, d'.heading? x = d.heading? x) : d.Remembers d' :=
  ⟨he ▸ Extent.le_refl _, ht, fun x _ => h x⟩

theorem restore (h : d.Remembers d') {e : Extent} (he : d.extent ≤ e) :
    d.Remembers (d'.restore e) where
  extent := le_extent_restore he h.extent
  typeNames := h.typeNames
  heading x hx := by
    have hagree : AgreeBelow d.extent d' (d'.restore e) := d'.restore_restore he
    exact (hagree.heading?_eq hx).trans (h.heading x hx)

end Remembers

theorem Write.remembers {d d' : Document} (h : d.Write L H d') : d.Remembers d' := by
  have hd := Extent.le_refl d.extent
  cases h with
  | struct x =>
    refine .of_agreeBelow (d.agreeBelow_insertStructure hd x) ?_
    simp [Extent.le_iff, extent, insertStructure]
  | enum x =>
    refine .of_agreeBelow (d.agreeBelow_insertEnumeration hd x) ?_
    simp [Extent.le_iff, extent, insertEnumeration]
  | identifier x =>
    refine .of_agreeBelow (d.agreeBelow_insertIdentifier hd x) ?_
    simp [Extent.le_iff, extent, insertIdentifier]
  | specimen x =>
    refine .of_agreeBelow (d.agreeBelow_insertSpecimen hd x) ?_
    simp [Extent.le_iff, extent, insertSpecimen]
  | interface x =>
    refine .of_agreeBelow (d.agreeBelow_insertInterface hd x) ?_
    simp [Extent.le_iff, extent, insertInterface]
  | factory x =>
    refine .of_agreeBelow (d.agreeBelow_insertFactory hd x) ?_
    simp [Extent.le_iff, extent, insertFactory]
  | «instance» i =>
    refine .of_agreeBelow (d.agreeBelow_insertInstance hd i) ?_
    simp [Extent.le_iff, extent, insertInstance]
  | base | member =>
    refine .of_heading ?_ rfl fun x => heading?_modifyStructure x fun _ => rfl
    simp [extent, modifyStructure]
  | value | numbers =>
    refine .of_heading ?_ rfl fun x => heading?_modifyEnumeration x fun _ => rfl
    simp [extent, modifyEnumeration]
  | method | parameter =>
    refine .of_heading ?_ rfl fun x => heading?_modifyInterface x fun _ => rfl
    simp [extent, modifyInterface]
  | filter =>
    refine .of_heading ?_ rfl fun x => heading?_modifyFactory x fun _ => rfl
    simp [extent, modifyFactory]

/-- A heading was there before, or it is the one that is written. -/
theorem Write.heading? {H : Heading → Prop} {d d' : Document} (hw : d.Write L H d')
    {x : Declaration} {heading : Heading} (hx : d'.heading? x = some heading) :
    d.heading? x = some heading ∨ H heading := by
  have hinsert {header : Heading} (h : H header)
      (hx : d.heading? x = some heading ∨ heading = header) :
      d.heading? x = some heading ∨ H heading :=
    hx.imp_right (by rintro rfl; exact h)
  have hmodify (h : d'.heading? x = d.heading? x) : d.heading? x = some heading ∨ H heading :=
    .inl (h.symm.trans hx)
  cases hw with
  | struct y h => exact hinsert h (heading?_insertStructure hx)
  | enum y h => exact hinsert h (heading?_insertEnumeration hx)
  | identifier y h => exact hinsert h (heading?_insertIdentifier hx)
  | specimen y h => exact hinsert h (heading?_insertSpecimen hx)
  | interface y h => exact hinsert h (heading?_insertInterface hx)
  | factory y h => exact hinsert h (heading?_insertFactory hx)
  | base | member => exact hmodify (heading?_modifyStructure x fun _ => rfl)
  | value | numbers => exact hmodify (heading?_modifyEnumeration x fun _ => rfl)
  | method | parameter => exact hmodify (heading?_modifyInterface x fun _ => rfl)
  | filter => exact hmodify (heading?_modifyFactory x fun _ => rfl)
  | «instance» i => exact hmodify (by cases x <;> rfl)

end Document

end Idl
