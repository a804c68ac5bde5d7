import Idl.Session.Basic

/-!
Documents without their comments. Taking the comments away goes past whatever is done to a
document, and no question that is asked of a document while sources are read depends on them.
-/

namespace Idl

namespace Arena

variable {family : Family} {α β : Type}

def map (g : α → β) (a : Arena family α) : Arena family β :=
  ⟨a.nodes.map g⟩

variable (g : α → β) (a : Arena family α)

@[simp] theorem size_map : (a.map g).size = a.size :=
  Array.size_map

@[simp] theorem next_map : (a.map g).next = a.next :=
  congrArg Id.mk (a.size_map g)

@[simp] theorem get?_map (id : Id family) : (a.map g).get? id = (a.get? id).map g :=
  Array.getElem?_map

theorem map_insert (node : α) : (a.insert node).map g = (a.map g).insert (g node) :=
  congrArg Arena.mk Array.map_push

theorem map_truncate (size : Nat) : (a.truncate size).map g = (a.map g).truncate size := by
  refine ext' fun i => ?_
  simp only [get?_map, get?_truncate]
  split <;> rfl

theorem map_modify {g : α → β} {f : α → α} {f' : β → β} (hf : ∀ x, g (f x) = f' (g x))
    (a : Arena family α) (id : Id family) : (a.modify id f).map g = (a.map g).modify id f' := by
  refine ext' fun i => ?_
  simp only [get?_map, get?_modify]
  split
  · simp only [Option.map_map, Function.comp_def, hf]
  · rfl

end Arena

section Nodes

def Field.bare (f : Field) : Field :=
  { f with comment := none }

def Member.bare : Member → Member
  | field f => field f.bare
  | override f overridden => override f.bare overridden
  | identification i => identification { i with comment := none }
  | upcopy u => upcopy { u with comment := none }
  | operator o => operator { o with comment := none }
  | m => m

def Structure.bare (s : Structure) : Structure :=
  { s with comment := none, members := s.members.map Member.bare }

def EnumerationValue.bare (v : EnumerationValue) : EnumerationValue :=
  { v with comment := none }

def Enumeration.bare (e : Enumeration) : Enumeration :=
  { e with comment := none, values := e.values.map EnumerationValue.bare }

def Identifier.bare (i : Identifier) : Identifier :=
  { i with comment := none }

def Specimen.bare (s : Specimen) : Specimen :=
  { s with comment := none }

def Parameter.bare (p : Parameter) : Parameter :=
  { p with comment := none }

def Method.bare (m : Method) : Method :=
  { m with comment := none, parameters := m.parameters.map Parameter.bare }

def Interface.bare (i : Interface) : Interface :=
  { i with comment := none, methods := i.methods.map Method.bare }

def Filter.bare (f : Filter) : Filter :=
  { f with comment := none }

def Factory.bare (f : Factory) : Factory :=
  { f with comment := none, filters := f.filters.map Filter.bare }

def Import.bare (i : Import) : Import :=
  { i with comment := none }

end Nodes

/-- The document without the comments of its nodes and imports. -/
def Document.bare (d : Document) : Document :=
  { d with
    imports := d.imports.map Import.bare
    structures := d.structures.map Structure.bare
    enumerations := d.enumerations.map Enumeration.bare
    identifiers := d.identifiers.map Identifier.bare
    specimens := d.specimens.map Specimen.bare
    interfaces := d.interfaces.map Interface.bare
    factories := d.factories.map Factory.bare }

section Questions

@[simp] theorem Member.field?_bare (m : Member) : m.bare.field? = m.field?.map Field.bare := by
  cases m <;> rfl

@[simp] theorem Member.alter?_bare (m : Member) : m.bare.alter? = m.alter? := by
  cases m <;> rfl

@[simp] theorem Member.enumeration?_bare (m : Member) : m.bare.enumeration? = m.enumeration? := by
  cases m <;> rfl

@[simp] theorem Member.isSome_identification?_bare (m : Member) :
    m.bare.identification?.isSome = m.identification?.isSome := by
  cases m <;> rfl

theorem Member.any_operator?_bare (m : Member) (action : Operator.Action) :
    m.bare.operator?.any (·.action == action) = m.operator?.any (·.action == action) := by
  cases m <;> rfl

namespace Structure

variable (s : Structure)

@[simp] theorem field?_bare (position : Nat) :
    s.bare.field? position = (s.field? position).map Field.bare := by
  simp only [field?, bare, List.getElem?_map]
  cases s.members[position]? with
  | none => rfl
  | some m => exact m.field?_bare

@[simp] theorem fields_bare :
    s.bare.fields = s.fields.map fun (position, f) => (position, f.bare) := by
  simp only [fields, bare, List.zipIdx_map, List.filterMap_map, List.map_filterMap]
  congr 1
  funext (m, position)
  cases m <;> rfl

@[simp] theorem findField?_bare (name : String) : s.bare.findField? name = s.findField? name := by
  simp only [findField?, fields_bare, List.find?_map, Option.map_map]
  rfl

@[simp] theorem alters_bare : s.bare.alters = s.alters := by
  simp only [alters, bare, List.filterMap_map, Function.comp_def, Member.alter?_bare]

@[simp] theorem nestedEnumerations_bare : s.bare.nestedEnumerations = s.nestedEnumerations := by
  simp only [nestedEnumerations, bare, List.filterMap_map, Function.comp_def,
    Member.enumeration?_bare]

@[simp] theorem nextBitmask_bare : s.bare.nextBitmask = s.nextBitmask := by
  simp only [nextBitmask, fields_bare, List.length_map]

@[simp] theorem length_members_bare : s.bare.members.length = s.members.length :=
  List.length_map Member.bare

end Structure

namespace Enumeration

variable (e : Enumeration)

@[simp] theorem position?_bare (name : String) : e.bare.position? name = e.position? name := by
  simp only [position?, bare, List.findIdx?_map]
  rfl

@[simp] theorem value?_bare (name : String) :
    e.bare.value? name = (e.value? name).map EnumerationValue.bare := by
  simp only [value?, bare, List.find?_map]
  rfl

end Enumeration

namespace Document

variable (d : Document)

@[simp] theorem heading?_bare (x : Declaration) :
    d.bare.heading? x = (d.heading? x).map fun h => { h with comment := none } := by
  cases x <;> simp only [heading?, bare, Arena.get?_map, Option.map_map] <;> rfl

@[simp] theorem name?_bare (x : Declaration) : d.bare.name? x = d.name? x := by
  simp only [name?, heading?_bare, Option.map_map]
  rfl

@[simp] theorem nameText_bare (x : Declaration) : d.bare.nameText x = d.nameText x := by
  simp only [nameText, name?_bare]

@[simp] theorem package?_bare (x : Declaration) : d.bare.package? x = d.package? x := by
  simp only [package?, heading?_bare, Option.bind_map]
  rfl

@[simp] theorem packageOf?_bare (t : DataType) : d.bare.packageOf? t = d.packageOf? t := by
  cases t <;> simp only [packageOf?, package?_bare]

@[simp] theorem extent_bare : d.bare.extent = d.extent := by
  simp only [extent, bare, Arena.size_map]

@[simp] theorem typesNamed_bare (name : String) : d.bare.typesNamed name = d.typesNamed name :=
  rfl

@[simp] theorem findNested?_bare (owner : StructureId) (name : String) :
    d.bare.findNested? owner name = d.findNested? owner name := by
  have hnested : (d.bare.structures.get? owner).map Structure.nestedEnumerations =
      (d.structures.get? owner).map Structure.nestedEnumerations := by
    simp only [bare, Arena.get?_map, Option.map_map, Function.comp_def,
      Structure.nestedEnumerations_bare]
  simp only [findNested?, hnested, name?_bare]

@[simp] theorem findUnqualified?_bare (package : Option Package) (scope : Option StructureId)
    (name : String) :
    d.bare.findUnqualified? package scope name = d.findUnqualified? package scope name := by
  simp only [findUnqualified?, findNested?_bare, typesNamed_bare, packageOf?_bare]

@[simp] theorem findBehind?_bare (package : Option Package) (scope : Option StructureId)
    (name : String) (path : List String) :
    d.bare.findBehind? package scope name path = d.findBehind? package scope name path := by
  induction path generalizing scope name with
  | nil => simp only [findBehind?, findUnqualified?_bare]
  | cons outer more ih =>
    simp only [findBehind?, ih, typesNamed_bare, packageOf?_bare, findNested?_bare]

@[simp] theorem findType?_bare (package : Option Package) (path : List String)
    (scope : Option StructureId) (name : String) :
    d.bare.findType? package path scope name = d.findType? package path scope name :=
  d.findBehind?_bare package scope name path.reverse

@[simp] theorem coreName_bare (t : DataType) : d.bare.coreName t = d.coreName t := by
  cases t <;> simp only [coreName, nameText_bare]

@[simp] theorem layersOf_bare (id : TemplateId) : d.bare.layersOf id = d.layersOf id := by
  fun_induction layersOf d id with
  | case1 id h =>
    rw [layersOf]
    simp only [bare, h]
  | case2 id i h inner harg hlt layers ih =>
    rw [layersOf]
    simp only [bare] at ih ⊢
    simp only [h, harg, hlt, if_true, ih]
    rfl
  | case3 id i h inner harg hlt =>
    rw [layersOf]
    simp only [bare, h, harg, hlt, if_false]
  | case4 id i h hcore =>
    rw [layersOf]
    simp only [bare, h]

@[simp] theorem layers_bare (t : DataType) : d.bare.layers t = d.layers t := by
  cases t <;> simp only [layers, layersOf_bare]

@[simp] theorem typeName_bare (t : DataType) : d.bare.typeName t = d.typeName t := by
  have hcore : d.bare.coreName = d.coreName := funext d.coreName_bare
  simp only [typeName, layers_bare, hcore]

@[simp] theorem representation?_bare (t : DataType) :
    d.bare.representation? t = d.representation? t := by
  cases t with
  | identifier id =>
    simp only [representation?, bare, Arena.get?_map, Option.bind_map]
    rfl
  | specimen id =>
    simp only [representation?, bare, Arena.get?_map, Option.bind_map]
    rfl
  | _ => rfl

@[simp] theorem literalWithin_bare (steps : Nat) (t : DataType) :
    d.bare.literalWithin steps t = d.literalWithin steps t := by
  induction steps generalizing t with
  | zero => cases t with
    | _ => rfl
  | succ steps ih => cases t with
    | identifier id | specimen id => simp only [literalWithin, representation?_bare, ih]
    | _ => rfl

@[simp] theorem literal?_bare (t : DataType) : d.bare.literal? t = d.literal? t := by
  rw [literal?, literalWithin_bare]
  simp only [bare, Arena.size_map, literal?]

@[simp] theorem accepts_bare (t : DataType) (kind : Token.Kind) (value : String) :
    d.bare.accepts t kind value = d.accepts t kind value := by
  have hvalue (id : EnumerationId) :
      ((d.bare.enumerations.get? id).any fun e => (e.value? value).isSome) =
        (d.enumerations.get? id).any fun e => (e.value? value).isSome := by
    simp only [bare, Arena.get?_map, Option.any_map, Enumeration.value?_bare, Option.isSome_map]
  simp only [accepts, literal?_bare, hvalue]

@[simp] theorem defaultFault?_bare (t : DataType) (statement : String) (default : Default) :
    d.bare.defaultFault? t statement default = d.defaultFault? t statement default := by
  cases default <;> simp only [defaultFault?, accepts_bare, literal?_bare]

@[simp] theorem base_bare (id : StructureId) :
    (d.bare.structures.get? id).bind (·.base) = (d.structures.get? id).bind (·.base) := by
  simp only [bare, Arena.get?_map, Option.bind_map]
  rfl

@[simp] theorem ancestors_bare (id : StructureId) : d.bare.ancestors id = d.ancestors id := by
  fun_induction ancestors d id with
  | case1 id base h hlt ih =>
    rw [ancestors, base_bare, h]
    simp only [hlt, if_true, ih]
  | case2 id base h hlt =>
    rw [ancestors, base_bare, h]
    simp only [hlt, if_false]
  | case3 id h =>
    rw [ancestors, base_bare, h]

@[simp] theorem lineage_bare (id : StructureId) : d.bare.lineage id = d.lineage id :=
  congrArg (id :: ·) (d.ancestors_bare id)

@[simp] theorem inherits_bare (id base : StructureId) :
    d.bare.inherits id base = d.inherits id base := by
  simp only [inherits, lineage_bare]

@[simp] theorem field?_bare (f : FieldRef) : d.bare.field? f = (d.field? f).map Field.bare := by
  simp only [field?, bare, Arena.get?_map, Option.bind_map]
  cases d.structures.get? f.owner with
  | none => rfl
  | some s => exact s.field?_bare f.member

@[simp] theorem findField?_bare (id : StructureId) (name : String) :
    d.bare.findField? id name = d.findField? id name := by
  have howner (owner : StructureId) :
      (d.bare.structures.get? owner).bind (·.findField? name) =
        (d.structures.get? owner).bind (·.findField? name) := by
    simp only [bare, Arena.get?_map, Option.bind_map, Function.comp_def,
      Structure.findField?_bare]
  simp only [findField?, lineage_bare, howner]

@[simp] theorem isEndless_bare (t : DataType) (default : Default) :
    d.bare.isEndless t default = d.isEndless t default := by
  cases default with
  | optional _ => rfl
  | literal value kind location => simp only [isEndless, accepts_bare]

@[simp] theorem altersOf_bare (f : FieldRef) : d.bare.altersOf f = d.altersOf f := by
  have halters (id : StructureId) :
      (d.bare.structures.get? id).map Structure.alters =
        (d.structures.get? id).map Structure.alters := by
    simp only [bare, Arena.get?_map, Option.map_map, Function.comp_def, Structure.alters_bare]
  simp only [altersOf, halters]
  rfl

@[simp] theorem alterFaults_bare (f : FieldRef) (t : DataType) :
    d.bare.alterFaults f t = d.alterFaults f t := by
  simp only [alterFaults, altersOf_bare, defaultFault?_bare]

end Document

theorem Binding.find?_bare (b : Binding) (d : Document) : b.find? d.bare = b.find? d :=
  d.findType?_bare b.package b.name.path b.scope b.name.last.text

end Questions

section Changes

theorem map_modify_of_commute {α β : Type} (g : α → β) (f : α → α) (f' : β → β)
    (hf : ∀ x, g (f x) = f' (g x)) (items : List α) (position : Nat) :
    (items.modify position f).map g = (items.map g).modify position f' := by
  refine List.ext_getElem? fun i => ?_
  simp only [List.getElem?_map, List.getElem?_modify]
  cases items[i]? with
  | none => rfl
  | some x =>
    change some (g (if position = i then f x else x)) =
      some (if position = i then f' (g x) else g x)
    split
    · rw [hf]
    · rfl

namespace Structure

@[simp] theorem bare_addMember (s : Structure) (m : Member) :
    (s.addMember m).bare = s.bare.addMember m.bare := by
  simp only [addMember, bare, List.map_append, List.map_cons, List.map_nil]

theorem bare_modifyField (s : Structure) (position : Nat) {g : Field → Field}
    (hg : ∀ f, (g f).bare = g f.bare) :
    (s.modifyField position g).bare = s.bare.modifyField position g := by
  have hm (m : Member) : (m.modifyField g).bare = m.bare.modifyField g := by
    cases m <;> simp only [Member.modifyField, Member.bare, hg]
  simp only [modifyField, bare, map_modify_of_commute _ _ _ hm]

end Structure

namespace Enumeration

@[simp] theorem bare_addValue (e : Enumeration) (v : EnumerationValue) :
    (e.addValue v).bare = e.bare.addValue v.bare := by
  simp only [addValue, bare, List.map_append, List.map_cons, List.map_nil]

theorem number_bare (next : Nat) (values : List EnumerationValue) :
    number next (values.map EnumerationValue.bare) =
      (number next values).map EnumerationValue.bare := by
  induction values generalizing next with
  | nil => rfl
  | cons v values ih =>
    have habsolute : v.bare.isAbsolute = v.isAbsolute := rfl
    simp only [List.map_cons, number, habsolute, ih]
    split <;> rfl

theorem compose_bare (before : List Nat) (values : List EnumerationValue) :
    compose before (values.map EnumerationValue.bare) =
      (compose before values).map EnumerationValue.bare := by
  induction values generalizing before with
  | nil => rfl
  | cons v values ih =>
    have hparts : v.bare.parts = v.parts := rfl
    simp only [List.map_cons, compose, hparts, ih]
    cases v.parts <;> rfl

@[simp] theorem bare_assignValues (e : Enumeration) :
    e.assignValues.bare = e.bare.assignValues := by
  have hfirst : e.bare.firstNumber = e.firstNumber := rfl
  simp only [assignValues, hfirst]
  simp only [bare, number_bare, compose_bare]

end Enumeration

namespace Interface

@[simp] theorem bare_addMethod (i : Interface) (m : Method) :
    (i.addMethod m).bare = i.bare.addMethod m.bare := by
  simp only [addMethod, bare, List.map_append, List.map_cons, List.map_nil]

@[simp] theorem bare_addParameter (i : Interface) (method : Nat) (p : Parameter) :
    (i.addParameter method p).bare = i.bare.addParameter method p.bare := by
  have hmethods := map_modify_of_commute Method.bare
    (fun m => { m with parameters := m.parameters ++ [p] })
    (fun m => { m with parameters := m.parameters ++ [p.bare] })
    (fun m => by simp only [Method.bare, List.map_append, List.map_cons, List.map_nil])
    i.methods method
  simp only [addParameter, bare, hmethods]

end Interface

@[simp] theorem Factory.bare_addFilter (f : Factory) (filter : Filter) :
    (f.addFilter filter).bare = f.bare.addFilter filter.bare := by
  simp only [addFilter, bare, List.map_append, List.map_cons, List.map_nil]

namespace Document

variable (d : Document)

@[simp] theorem bare_insertStructure (s : Structure) :
    (d.insertStructure s).bare = d.bare.insertStructure s.bare := by
  simp only [insertStructure, bare, Arena.map_insert]

@[simp] theorem bare_insertEnumeration (e : Enumeration) :
    (d.insertEnumeration e).bare = d.bare.insertEnumeration e.bare := by
  simp only [insertEnumeration, bare, Arena.map_insert]

@[simp] theorem bare_insertIdentifier (i : Identifier) :
    (d.insertIdentifier i).bare = d.bare.insertIdentifier i.bare := by
  simp only [insertIdentifier, bare, Arena.map_insert]

@[simp] theorem bare_insertSpecimen (s : Specimen) :
    (d.insertSpecimen s).bare = d.bare.insertSpecimen s.bare := by
  simp only [insertSpecimen, bare, Arena.map_insert]

@[simp] theorem bare_insertInterface (i : Interface) :
    (d.insertInterface i).bare = d.bare.insertInterface i.bare := by
  simp only [insertInterface, bare, Arena.map_insert]

@[simp] theorem bare_insertFactory (f : Factory) :
    (d.insertFactory f).bare = d.bare.insertFactory f.bare := by
  simp only [insertFactory, bare, Arena.map_insert]

@[simp] theorem bare_addImport (i : Import) : (d.addImport i).bare = d.bare.addImport i.bare := by
  simp only [addImport, bare, List.map_append, List.map_cons, List.map_nil]

theorem instantiate_bare (template : Template) (argument : Option DataType) (weak : Bool) :
    d.bare.instantiate template argument weak =
      ((d.instantiate template argument weak).1,
        (d.instantiate template argument weak).2.bare) := by
  have hshared : d.bare.shared = d.shared := rfl
  simp only [instantiate, hshared]
  cases argument.bind fun t => d.shared.lookup (template, t, weak) <;> rfl

theorem bare_modifyStructure {f f' : Structure → Structure} (hf : ∀ s, (f s).bare = f' s.bare)
    (id : StructureId) : (d.modifyStructure id f).bare = d.bare.modifyStructure id f' := by
  simp only [modifyStructure, bare, Arena.map_modify hf]

theorem bare_modifyEnumeration {f f' : Enumeration → Enumeration}
    (hf : ∀ e, (f e).bare = f' e.bare) (id : EnumerationId) :
    (d.modifyEnumeration id f).bare = d.bare.modifyEnumeration id f' := by
  simp only [modifyEnumeration, bare, Arena.map_modify hf]

theorem bare_modifyIdentifier {f f' : Identifier → Identifier}
    (hf : ∀ i, (f i).bare = f' i.bare) (id : IdentifierId) :
    (d.modifyIdentifier id f).bare = d.bare.modifyIdentifier id f' := by
  simp only [modifyIdentifier, bare, Arena.map_modify hf]

theorem bare_modifySpecimen {f f' : Specimen → Specimen} (hf : ∀ s, (f s).bare = f' s.bare)
    (id : SpecimenId) : (d.modifySpecimen id f).bare = d.bare.modifySpecimen id f' := by
  simp only [modifySpecimen, bare, Arena.map_modify hf]

theorem bare_modifyInterface {f f' : Interface → Interface} (hf : ∀ i, (f i).bare = f' i.bare)
    (id : InterfaceId) : (d.modifyInterface id f).bare = d.bare.modifyInterface id f' := by
  simp only [modifyInterface, bare, Arena.map_modify hf]

theorem bare_modifyFactory {f f' : Factory → Factory} (hf : ∀ x, (f x).bare = f' x.bare)
    (id : FactoryId) : (d.modifyFactory id f).bare = d.bare.modifyFactory id f' := by
  simp only [modifyFactory, bare, Arena.map_modify hf]

@[simp] theorem bare_fill (slot : Slot) (t : DataType) :
    (d.fill slot t).bare = d.bare.fill slot t := by
  cases slot with
  | field f =>
    refine d.bare_modifyStructure (fun s => ?_) f.owner
    exact s.bare_modifyField f.member (g := fun field => { field with type := some t }) fun _ => rfl
  | enumerationParameter id =>
    exact d.bare_modifyEnumeration (f := fun e => { e with parameter := some t }) (fun _ => rfl) id
  | identifierParameter id =>
    exact d.bare_modifyIdentifier (f := fun i => { i with parameter := some t }) (fun _ => rfl) id
  | specimenParameter id =>
    exact d.bare_modifySpecimen (f := fun s => { s with parameter := some t }) (fun _ => rfl) id
  | factoryParameter id =>
    exact d.bare_modifyFactory (f := fun f => { f with parameter := some t }) (fun _ => rfl) id
  | templateArgument id => rfl
  | methodParameter id method parameter =>
    refine d.bare_modifyInterface (fun i => ?_) id
    have hm (m : Method) : (m.modifyParameter parameter fun p => p.setType t).bare =
        m.bare.modifyParameter parameter fun p => p.setType t := by
      have hparameters := map_modify_of_commute Parameter.bare (Parameter.setType t)
        (Parameter.setType t) (fun _ => rfl) m.parameters parameter
      exact congrArg (fun ps => ({ m.bare with parameters := ps } : Method)) hparameters
    simp only [Interface.bare, map_modify_of_commute _ _ _ hm]

@[simp] theorem bare_dropDefault (f : FieldRef) :
    (d.dropDefault f).bare = d.bare.dropDefault f :=
  d.bare_modifyStructure (fun s => s.bare_modifyField f.member
    (g := fun field => { field with default := none }) fun _ => rfl) f.owner

@[simp] theorem bare_restore (e : Extent) : (d.restore e).bare = d.bare.restore e := by
  simp only [restore, bare, Arena.map_truncate]

@[simp] theorem bare_register (x : Declaration) : (d.register x).bare = d.bare.register x := by
  rw [register, register, nameText_bare]
  rfl

@[simp] theorem bare_withdraw (x : Declaration) : (d.withdraw x).bare = d.bare.withdraw x :=
  rfl

end Document

end Changes

end Idl
