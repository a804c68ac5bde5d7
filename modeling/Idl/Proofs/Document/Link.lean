import Idl.Proofs.Document.Extent
import Idl.Proofs.Document.Slot

/-!
Links of documents. A link leads to a node of an arena, or to a member that is a field. Links
are stated between two documents, the one that holds them and the one they lead into, so that
a document that only grows keeps all of them. A structure or a specimen links to an earlier
base, and an instance to an earlier instance.
-/

namespace Idl

namespace DataType

/-- The type is a builtin, or its node lies below the extent. -/
def Below (e : Document.Extent) : DataType → Prop
  | .builtin _ => True
  | .struct id => id.index < e.structures
  | .enum id => id.index < e.enumerations
  | .identifier id => id.index < e.identifiers
  | .specimen id => id.index < e.specimens
  | .template id => id.index < e.templates

theorem Below.mono {e e' : Document.Extent} {t : DataType} (h : t.Below e) (he : e ≤ e') :
    t.Below e' := by
  rw [Document.Extent.le_iff] at he
  cases t <;> simp only [Below] at * <;> omega

end DataType

namespace Declaration

/-- The node of the declaration lies below the extent. -/
def Below (e : Document.Extent) : Declaration → Prop
  | .struct id => id.index < e.structures
  | .enum id => id.index < e.enumerations
  | .identifier id => id.index < e.identifiers
  | .specimen id => id.index < e.specimens
  | .interface id => id.index < e.interfaces
  | .factory id => id.index < e.factories

/-- The node of the declaration lies above the extent. -/
def Above (e : Document.Extent) : Declaration → Prop
  | .struct id => e.structures ≤ id.index
  | .enum id => e.enumerations ≤ id.index
  | .identifier id => e.identifiers ≤ id.index
  | .specimen id => e.specimens ≤ id.index
  | .interface id => e.interfaces ≤ id.index
  | .factory id => e.factories ≤ id.index

theorem Below.mono {e e' : Document.Extent} {x : Declaration} (h : x.Below e) (he : e ≤ e') :
    x.Below e' := by
  rw [Document.Extent.le_iff] at he
  cases x <;> simp only [Below] at * <;> omega

theorem Below.ne_of_above {e : Document.Extent} {x y : Declaration} (hx : x.Below e)
    (hy : y.Above e) : x ≠ y := by
  rintro rfl
  cases x <;> simp only [Below, Above] at * <;> omega

theorem below_of_type? {e : Document.Extent} {x : Declaration} {t : DataType}
    (h : x.type? = some t) : t.Below e ↔ x.Below e := by
  cases x <;> simp only [type?, Option.some.injEq, reduceCtorEq] at h <;> subst h <;> rfl

end Declaration

/-- The slot belongs to a node that lies above the extent. -/
def Slot.Above (e : Document.Extent) : Slot → Prop
  | .field f => e.structures ≤ f.owner.index
  | .enumerationParameter id => e.enumerations ≤ id.index
  | .identifierParameter id => e.identifiers ≤ id.index
  | .specimenParameter id => e.specimens ≤ id.index
  | .factoryParameter id => e.factories ≤ id.index
  | .templateArgument id => e.templates ≤ id.index
  | .methodParameter id _ _ => e.interfaces ≤ id.index

/-- The declaration whose node the slot belongs to. -/
def Slot.holder? : Slot → Option Declaration
  | .field f => some (.struct f.owner)
  | .enumerationParameter id => some (.enum id)
  | .identifierParameter id => some (.identifier id)
  | .specimenParameter id => some (.specimen id)
  | .factoryParameter id => some (.factory id)
  | .templateArgument _ => none
  | .methodParameter id _ _ => some (.interface id)

theorem Slot.not_above_of_holder? {e : Document.Extent} {slot : Slot} {x : Declaration}
    (h : slot.holder? = some x) (hx : x.Below e) : ¬ slot.Above e := by
  cases slot <;> cases h <;> exact Nat.not_le_of_lt hx

/-- Whether all nodes of an arena have a property. -/
def Arena.All {family : Family} {α : Type} (a : Arena family α) (p : Id family → α → Prop) :
    Prop :=
  ∀ id node, a.get? id = some node → p id node

namespace Arena.All

variable {family : Family} {α : Type} {a : Arena family α} {p q : Id family → α → Prop}

theorem mono (h : a.All p) (hpq : ∀ id node, p id node → q id node) : a.All q :=
  fun id node hn => hpq id node (h id node hn)

theorem insert (h : a.All p) {node : α} (hn : p a.next node) : (a.insert node).All p := by
  intro id other ho
  rw [Arena.get?_insert] at ho
  split at ho
  · rename_i hid
    cases ho
    exact hid ▸ hn
  · exact h id other ho

theorem modify (h : a.All p) {id : Id family} {f : α → α}
    (hf : ∀ node, a.get? id = some node → p id (f node)) : (a.modify id f).All p := by
  intro o other ho
  rw [Arena.get?_modify] at ho
  split at ho
  · rename_i hid
    subst hid
    obtain ⟨node, hn, rfl⟩ := Option.map_eq_some_iff.1 ho
    exact hf node hn
  · exact h o other ho

end Arena.All

theorem Structure.mem_nestedEnumerations {s : Structure} {id : EnumerationId} :
    id ∈ s.nestedEnumerations ↔ .enumeration id ∈ s.members := by
  rw [nestedEnumerations, List.mem_filterMap]
  constructor
  · rintro ⟨m, hm, he⟩
    cases m with
    | enumeration id' =>
      cases he
      exact hm
    | _ => cases he
  · exact fun hm => ⟨_, hm, rfl⟩

theorem Structure.mem_alters {s : Structure} {a : Alter} :
    a ∈ s.alters ↔ .alter a ∈ s.members := by
  rw [alters, List.mem_filterMap]
  constructor
  · rintro ⟨m, hm, halter⟩
    cases m with
    | alter a' =>
      cases halter
      exact hm
    | _ => cases halter
  · exact fun hm => ⟨_, hm, rfl⟩

namespace Document

/-- The interfaces have all methods they had. -/
def KeepsMethods (d d' : Document) : Prop :=
  ∀ id i, d.interfaces.get? id = some i →
    ∃ i', d'.interfaces.get? id = some i' ∧ i.methods.length ≤ i'.methods.length

theorem keepsMethods_of_eq {d d' : Document} (h : d'.interfaces = d.interfaces) :
    KeepsMethods d d' :=
  fun _ i hi => ⟨i, h ▸ hi, Nat.le_refl _⟩

/-- The enumerations stay nested where they are. -/
def KeepsOwners (d d' : Document) : Prop :=
  ∀ id e, d.enumerations.get? id = some e →
    ∃ e', d'.enumerations.get? id = some e' ∧ e'.owner = e.owner

theorem keepsOwners_of_eq {d d' : Document} (h : d'.enumerations = d.enumerations) :
    KeepsOwners d d' :=
  fun _ e he => ⟨e, h ▸ he, rfl⟩

theorem keepsOwners_modifyEnumeration (d : Document) (id : EnumerationId)
    {f : Enumeration → Enumeration} (hf : ∀ e, (f e).owner = e.owner) :
    KeepsOwners d (d.modifyEnumeration id f) := by
  intro o e he
  rw [modifyEnumeration, Arena.get?_modify, he]
  split
  · exact ⟨f e, rfl, hf e⟩
  · exact ⟨e, rfl, rfl⟩

/-- A document that holds all that another one holds: no node, no slot and no type in a slot
gets lost. -/
structure Grows (d d' : Document) : Prop where
  extent : d.extent ≤ d'.extent
  slots : ∀ slot, (d.slot? slot).isSome → (d'.slot? slot).isSome
  filled : ∀ slot t, d.slot? slot = some (some t) → d'.slot? slot = some (some t)
  instances : ∀ id i, d.templates.get? id = some i →
    ∃ i', d'.templates.get? id = some i' ∧ i'.template = i.template ∧ i'.weak = i.weak
  methods : KeepsMethods d d'
  owners : KeepsOwners d d'

namespace Grows

variable {d d' d'' : Document}

theorem refl (d : Document) : Grows d d where
  extent := Extent.le_refl _
  slots _ h := h
  filled _ _ h := h
  instances _ i h := ⟨i, h, rfl, rfl⟩
  methods := keepsMethods_of_eq rfl
  owners := keepsOwners_of_eq rfl

theorem trans (h : Grows d d') (h' : Grows d' d'') : Grows d d'' where
  extent := Extent.le_trans h.extent h'.extent
  slots slot hs := h'.slots slot (h.slots slot hs)
  filled slot t hs := h'.filled slot t (h.filled slot t hs)
  instances id i hi := by
    obtain ⟨i', hi', ht, hw⟩ := h.instances id i hi
    obtain ⟨i'', hi'', ht', hw'⟩ := h'.instances id i' hi'
    exact ⟨i'', hi'', ht'.trans ht, hw'.trans hw⟩
  methods id i hi := by
    obtain ⟨i', hi', hl⟩ := h.methods id i hi
    obtain ⟨i'', hi'', hl'⟩ := h'.methods id i' hi'
    exact ⟨i'', hi'', Nat.le_trans hl hl'⟩
  owners id e he := by
    obtain ⟨e', he', ho⟩ := h.owners id e he
    obtain ⟨e'', he'', ho'⟩ := h'.owners id e' he'
    exact ⟨e'', he'', ho'.trans ho⟩

theorem of_eq (he : d'.extent = d.extent) (hs : ∀ slot, d'.slot? slot = d.slot? slot)
    (ht : d'.templates = d.templates) (hi : d'.interfaces = d.interfaces)
    (hn : d'.enumerations = d.enumerations) : Grows d d' where
  extent := he ▸ Extent.le_refl _
  slots slot h := by rwa [hs]
  filled slot t h := by rwa [hs]
  instances _ i h := ⟨i, ht ▸ h, rfl, rfl⟩
  methods := keepsMethods_of_eq hi
  owners := keepsOwners_of_eq hn

/-- An instance with an argument stays exactly as it is. -/
theorem instance_eq (h : Grows d d') {id : TemplateId} {i : Instance}
    (hi : d.templates.get? id = some i) (ha : i.argument.isSome) :
    d'.templates.get? id = some i := by
  obtain ⟨t, ht⟩ := Option.isSome_iff_exists.1 ha
  obtain ⟨i', hi', htemplate, hweak⟩ := h.instances id i hi
  have hf := h.filled (.templateArgument id) t (by simp [slot?, hi, ht])
  have harg : i'.argument = some t := by simpa [slot?, hi'] using hf
  rw [hi']
  cases i; cases i'
  simp_all

end Grows

/-- The enumeration was declared inside the structure, or outside of all. -/
def HasOwner (d : Document) (id : EnumerationId) (owner : Option StructureId) : Prop :=
  (d.enumerations.get? id).map (·.owner) = some owner

theorem HasOwner.index_lt {d : Document} {id : EnumerationId} {owner : Option StructureId}
    (h : d.HasOwner id owner) : id.index < d.enumerations.size := by
  obtain ⟨e, he, _⟩ := Option.map_eq_some_iff.1 h
  exact (d.enumerations.get?_isSome_iff id).1 (he ▸ rfl)

theorem HasOwner.mono {d d' : Document} {id : EnumerationId} {owner : Option StructureId}
    (h : d.HasOwner id owner) (g : KeepsOwners d d') : d'.HasOwner id owner := by
  obtain ⟨e, he, ho⟩ := Option.map_eq_some_iff.1 h
  obtain ⟨e', he', ho'⟩ := g id e he
  rw [HasOwner, he', Option.map_some, ho', ho]

/-- The field is there. -/
def HoldsField (d : Document) (f : FieldRef) : Prop :=
  (d.field? f).isSome

theorem holdsField_iff {d : Document} {f : FieldRef} :
    d.HoldsField f ↔ (d.slot? (.field f)).isSome := by
  simp [HoldsField, slot?]

theorem HoldsField.mono {d d' : Document} {f : FieldRef} (h : d.HoldsField f)
    (g : Grows d d') : d'.HoldsField f :=
  holdsField_iff.2 (g.slots _ (holdsField_iff.1 h))

end Document

section Linked

variable (world : Document)

/-- The type of a slot, if it is known, is there. -/
def TypeLinked (t? : Option DataType) : Prop :=
  ∀ t, t? = some t → t.Below world.extent

def Member.Linked (id : StructureId) : Member → Prop
  | .field f => f.owner = id ∧ TypeLinked world f.type
  | .override f overridden =>
    f.owner = id ∧ TypeLinked world f.type ∧ world.HoldsField overridden
  | .alter a => world.HoldsField a.field
  | .enumeration e => e.index < world.enumerations.size
  | .identification i => i.owner = id
  | .upcopy u => u.owner = id ∧ u.base.index < id.index
  | .operator o => o.owner = id

theorem Member.Linked.owner_of_field? {world : Document} {id : StructureId} {m : Member}
    {f : Field} (h : m.Linked world id) (hf : m.field? = some f) : f.owner = id := by
  cases m <;> cases hf <;> exact h.1

structure Structure.Linked (id : StructureId) (s : Structure) : Prop where
  base : ∀ b, s.base = some b → b.index < id.index
  members : ∀ m ∈ s.members, m.Linked world id

namespace Structure.Linked

variable {world} {id : StructureId} {s : Structure}

theorem addMember (h : s.Linked world id) {m : Member} (hm : m.Linked world id) :
    (s.addMember m).Linked world id := by
  refine ⟨h.base, fun m' hm' => ?_⟩
  rcases List.mem_append.1 hm' with hm' | hm'
  · exact h.members m' hm'
  · rw [List.mem_singleton.1 hm']
    exact hm

theorem modifyField (h : s.Linked world id) (position : Nat) {g : Field → Field}
    (ho : ∀ f, (g f).owner = f.owner)
    (ht : ∀ f, TypeLinked world f.type → TypeLinked world (g f).type) :
    (s.modifyField position g).Linked world id := by
  refine ⟨h.base, fun m hm => ?_⟩
  obtain ⟨i, hi⟩ := List.getElem?_of_mem hm
  simp only [Structure.modifyField, List.getElem?_modify, Option.map_eq_map,
    Option.map_eq_some_iff] at hi
  obtain ⟨m', hm', rfl⟩ := hi
  have hl := h.members m' (List.mem_of_getElem? hm')
  split
  · cases m' with
    | field f => exact ⟨(ho f).trans hl.1, ht f hl.2⟩
    | override f overridden => exact ⟨(ho f).trans hl.1, ht f hl.2.1, hl.2.2⟩
    | alter _ | enumeration _ | identification _ | upcopy _ | operator _ => exact hl
  · exact hl

end Structure.Linked

structure Enumeration.Linked (id : EnumerationId) (e : Enumeration) : Prop where
  parameter : TypeLinked world e.parameter
  owner : ∀ o, e.owner = some o → o.index < world.structures.size
  values : ∀ v ∈ e.values, v.enumeration = id

def Identifier.Linked (i : Identifier) : Prop :=
  TypeLinked world i.parameter

structure Specimen.Linked (id : SpecimenId) (s : Specimen) : Prop where
  parameter : TypeLinked world s.parameter
  base : ∀ b, s.base = some b → b.index < id.index

def Interface.Linked (i : Interface) : Prop :=
  ∀ m ∈ i.methods, ∀ p ∈ m.parameters, TypeLinked world p.type

structure Factory.Linked (f : Factory) : Prop where
  parameter : TypeLinked world f.parameter
  filters : ∀ x ∈ f.filters, world.HoldsField x.field

structure Instance.Linked (id : TemplateId) (i : Instance) : Prop where
  argument : TypeLinked world i.argument
  inner : ∀ o, i.argument = some (.template o) → o.index < id.index

end Linked

namespace Document

/-- Every link of a document leads to a node or a field of `world`. -/
structure LinksInto (d world : Document) : Prop where
  structures : d.structures.All (Structure.Linked world)
  enumerations : d.enumerations.All (Enumeration.Linked world)
  identifiers : d.identifiers.All fun _ => Identifier.Linked world
  specimens : d.specimens.All (Specimen.Linked world)
  interfaces : d.interfaces.All fun _ => Interface.Linked world
  factories : d.factories.All fun _ => Factory.Linked world
  templates : d.templates.All (Instance.Linked world)
  declarations : ∀ x ∈ d.declarations, x.Below world.extent
  /-- What is found by a name is a declared type. -/
  typeNames : ∀ entry ∈ d.typeNames,
    ∃ x : Declaration, x.type? = some entry.2 ∧ x.Below world.extent
  /-- What is shared is the instance that was asked for. -/
  shared : ∀ entry ∈ d.shared, entry.1.2.1.Below world.extent ∧
    world.templates.get? entry.2 = some ⟨entry.1.1, some entry.1.2.1, entry.1.2.2⟩

/-- All links of a document lead to its own nodes and fields. -/
def Linked (d : Document) : Prop :=
  d.LinksInto d

/-- A type that is known somewhere is there. -/
theorem Linked.below_of_slot? {d : Document} (hd : d.Linked) {slot : Slot} {t : DataType}
    (h : d.slot? slot = some (some t)) : t.Below d.extent := by
  cases slot with
  | field f =>
    obtain ⟨own, hf, ht⟩ := Option.map_eq_some_iff.1 h
    obtain ⟨x, hx, hf⟩ := Option.bind_eq_some_iff.1 hf
    obtain ⟨m, hm, hf⟩ := Option.bind_eq_some_iff.1 hf
    have hl := (hd.structures f.owner x hx).members m (List.mem_of_getElem? hm)
    cases m with
    | field _ =>
      cases hf
      exact hl.2 t ht
    | override _ _ =>
      cases hf
      exact hl.2.1 t ht
    | _ => cases hf
  | enumerationParameter id =>
    obtain ⟨e, he, ht⟩ := Option.map_eq_some_iff.1 h
    exact (hd.enumerations id e he).parameter t ht
  | identifierParameter id =>
    obtain ⟨i, hi, ht⟩ := Option.map_eq_some_iff.1 h
    exact hd.identifiers id i hi t ht
  | specimenParameter id =>
    obtain ⟨s, hs, ht⟩ := Option.map_eq_some_iff.1 h
    exact (hd.specimens id s hs).parameter t ht
  | factoryParameter id =>
    obtain ⟨f, hf, ht⟩ := Option.map_eq_some_iff.1 h
    exact (hd.factories id f hf).parameter t ht
  | templateArgument id =>
    obtain ⟨i, hi, ht⟩ := Option.map_eq_some_iff.1 h
    exact (hd.templates id i hi).argument t ht
  | methodParameter id method parameter =>
    obtain ⟨p, hp, ht⟩ := Option.map_eq_some_iff.1 h
    obtain ⟨i, hi, hp⟩ := Option.bind_eq_some_iff.1 hp
    obtain ⟨m, hm, hp⟩ := Option.bind_eq_some_iff.1 hp
    exact hd.interfaces id i hi m (List.mem_of_getElem? hm) p (List.mem_of_getElem? hp) t ht

section Mono

variable {world world' : Document} (g : Grows world world')

include g

theorem typeLinked_mono {t? : Option DataType} (h : TypeLinked world t?) :
    TypeLinked world' t? :=
  fun t ht => (h t ht).mono g.extent

theorem memberLinked_mono {id : StructureId} {m : Member} (h : m.Linked world id) :
    m.Linked world' id := by
  cases m with
  | field f => exact ⟨h.1, typeLinked_mono g h.2⟩
  | override f overridden => exact ⟨h.1, typeLinked_mono g h.2.1, h.2.2.mono g⟩
  | alter a => exact HoldsField.mono h g
  | enumeration e => exact Nat.lt_of_lt_of_le h g.extent.2.1
  | identification _ | upcopy _ | operator _ => exact h

theorem LinksInto.mono {d : Document} (h : d.LinksInto world) : d.LinksInto world' where
  structures := h.structures.mono fun _ _ hs =>
    ⟨hs.base, fun m hm => memberLinked_mono g (hs.members m hm)⟩
  enumerations := h.enumerations.mono fun _ _ he =>
    ⟨typeLinked_mono g he.parameter,
      fun o ho => Nat.lt_of_lt_of_le (he.owner o ho) g.extent.1, he.values⟩
  identifiers := h.identifiers.mono fun _ _ hi => typeLinked_mono g hi
  specimens := h.specimens.mono fun _ _ hs => ⟨typeLinked_mono g hs.parameter, hs.base⟩
  interfaces := h.interfaces.mono fun _ _ hi m hm p hp => typeLinked_mono g (hi m hm p hp)
  factories := h.factories.mono fun _ _ hf =>
    ⟨typeLinked_mono g hf.parameter, fun x hx => (hf.filters x hx).mono g⟩
  templates := h.templates.mono fun _ _ hi => ⟨typeLinked_mono g hi.argument, hi.inner⟩
  declarations x hx := (h.declarations x hx).mono g.extent
  typeNames entry he := by
    obtain ⟨x, hx, hb⟩ := h.typeNames entry he
    exact ⟨x, hx, hb.mono g.extent⟩
  shared entry he :=
    ⟨(h.shared entry he).1.mono g.extent, g.instance_eq (h.shared entry he).2 rfl⟩

end Mono

end Document

end Idl
