import Mathlib.Data.List.Nodup
import Idl.Proofs.Check.Standard

/-!
What the standard checks do not see. Distinct names hang on no type; allowed types hang on the
types of the own slots, on the cores of these types, and on the traits of structures. So a
declaration that has passed goes on to pass while other slots are filled, while defaults and
registrations are shed, and while nodes are added.
-/

namespace Idl

def Field.untyped (f : Field) : Field :=
  { f with type := none, default := none }

namespace Structure

/-- The structure without the types and defaults of its fields. -/
def untyped (s : Structure) : Structure :=
  { s with members := s.members.map (Member.modifyField Field.untyped) }

variable {s s' : Structure}

theorem filterMap_untyped {β : Type} {g : Member → Option β}
    (hg : ∀ m : Member, g (m.modifyField Field.untyped) = g m) :
    s.untyped.members.filterMap g = s.members.filterMap g := by
  rw [untyped, List.filterMap_map]
  exact congrArg (fun h => s.members.filterMap h) (funext hg)

theorem fieldNames_untyped : s.untyped.fieldNames = s.fieldNames := by
  simp only [fieldNames, List.map_filterMap]
  refine filterMap_untyped fun m => ?_
  cases m <;> rfl

theorem plainNames_untyped : s.untyped.plainNames = s.plainNames := by
  refine filterMap_untyped fun m => ?_
  cases m <;> rfl

theorem identifications_untyped : s.untyped.members.filterMap Member.identification? =
    s.members.filterMap Member.identification? := by
  refine filterMap_untyped fun m => ?_
  cases m <;> rfl

theorem operators_untyped :
    s.untyped.members.filterMap Member.operator? = s.members.filterMap Member.operator? := by
  refine filterMap_untyped fun m => ?_
  cases m <;> rfl

theorem fields_untyped : s.untyped.fields = s.fields.map fun x => (x.1, x.2.untyped) := by
  rw [fields, untyped, List.zipIdx_map, List.filterMap_map, fields, List.map_filterMap]
  refine congrArg (fun h => s.members.zipIdx.filterMap h) (funext fun x => ?_)
  obtain ⟨m, position⟩ := x
  cases m <;> rfl

theorem findField?_untyped (name : String) : s.untyped.findField? name = s.findField? name := by
  rw [findField?, fields_untyped, List.find?_map, Option.map_map, findField?]
  rfl

theorem untyped_modifyField {position : Nat} {g : Field → Field}
    (hg : ∀ f, (g f).untyped = f.untyped) : (s.modifyField position g).untyped = s.untyped := by
  have hmember (m : Member) :
      (m.modifyField g).modifyField Field.untyped = m.modifyField Field.untyped := by
    cases m <;> simp [Member.modifyField, hg]
  have hmembers : (s.members.modify position (Member.modifyField g)).map
      (Member.modifyField Field.untyped) = s.members.map (Member.modifyField Field.untyped) := by
    refine List.ext_getElem? fun i => ?_
    simp only [List.getElem?_map, List.getElem?_modify]
    cases s.members[i]? with
    | none => rfl
    | some m => split <;> simp [hmember]
  simp only [untyped, modifyField, hmembers]

theorem base_eq (h : s'.untyped = s.untyped) : s'.base = s.base :=
  have hb : s'.untyped.base = s.untyped.base := congrArg Structure.base h
  hb

theorem has_eq (h : s'.untyped = s.untyped) (t : Trait) : s'.has t = s.has t :=
  have ht : s'.untyped.has t = s.untyped.has t := congrArg (·.has t) h
  ht

variable {d d' : Document}

/-- Distinct members stay distinct if the names along the bases stay as they are. -/
theorem Distinct.congr (h : s.Distinct d) (hu : s'.untyped = s.untyped)
    (hb : ∀ base name, s.base = some base → d'.findField? base name = d.findField? base name) :
    s'.Distinct d' where
  fields := by
    rw [← fieldNames_untyped, hu, fieldNames_untyped]
    exact h.fields
  plain name hname base hbase := by
    rw [← plainNames_untyped, hu, plainNames_untyped] at hname
    rw [base_eq hu] at hbase
    rw [hb base name hbase]
    exact h.plain name hname base hbase
  identifications := by
    rw [← identifications_untyped, hu, identifications_untyped]
    exact h.identifications
  operators := by
    rw [← operators_untyped, hu, operators_untyped]
    exact h.operators

end Structure

namespace Document

/-- The structure is the same in both documents but for types and defaults of its fields. -/
def Resembles (d d' : Document) (id : StructureId) : Prop :=
  (d'.structures.get? id).map Structure.untyped = (d.structures.get? id).map Structure.untyped

namespace Resembles

variable {d d' d'' : Document} {id : StructureId}

theorem of_eq (h : d'.structures.get? id = d.structures.get? id) : Resembles d d' id :=
  congrArg (Option.map Structure.untyped) h

theorem trans (h : Resembles d d' id) (h' : Resembles d' d'' id) : Resembles d d'' id :=
  Eq.trans h' h

theorem symm (h : Resembles d d' id) : Resembles d' d id :=
  Eq.symm h

theorem exists_eq (h : Resembles d d' id) {s' : Structure}
    (hs : d'.structures.get? id = some s') :
    ∃ s, d.structures.get? id = some s ∧ s'.untyped = s.untyped := by
  rw [Resembles, hs] at h
  obtain ⟨s, hs, hu⟩ := Option.map_eq_some_iff.1 h.symm
  exact ⟨s, hs, hu.symm⟩

theorem base_eq (h : Resembles d d' id) :
    (d'.structures.get? id).bind (·.base) = (d.structures.get? id).bind (·.base) := by
  have hb := congrArg (Option.bind · Structure.base) h
  simp only [Option.bind_map] at hb
  exact hb

theorem findField?_eq (h : Resembles d d' id) (name : String) :
    (d'.structures.get? id).bind (·.findField? name) =
      (d.structures.get? id).bind (·.findField? name) := by
  have hf := congrArg (Option.bind · (·.findField? name)) h
  simpa only [Option.bind_map, Function.comp_def, Structure.findField?_untyped] using hf

end Resembles

section Chain

variable {d d' : Document} {n : Nat} (h : ∀ id : StructureId, id.index < n → Resembles d d' id)

include h

theorem ancestors_of_resembles {id : StructureId} (hid : id.index < n) :
    d'.ancestors id = d.ancestors id := by
  induction hi : id.index using Nat.strongRecOn generalizing id with
  | ind i ih =>
    rw [ancestors, (h id hid).base_eq]
    rw [ancestors.eq_def d id]
    cases (d.structures.get? id).bind (·.base) with
    | none => rfl
    | some base =>
      by_cases hlt : base.index < id.index
      · simp only [hlt, if_true, ih base.index (hi ▸ hlt) (Nat.lt_trans hlt hid) rfl]
      · simp only [hlt, if_false]

/-- What is found by a name along the bases hangs on no type. -/
theorem findField?_of_resembles {id : StructureId} (hid : id.index < n) (name : String) :
    d'.findField? id name = d.findField? id name := by
  have hlineage (owners : List StructureId) (ho : ∀ owner ∈ owners, owner.index < n) :
      (owners.findSome? fun owner =>
        ((d'.structures.get? owner).bind (·.findField? name)).map (FieldRef.mk owner)) =
      owners.findSome? fun owner =>
        ((d.structures.get? owner).bind (·.findField? name)).map (FieldRef.mk owner) := by
    induction owners with
    | nil => rfl
    | cons owner rest ih =>
      rw [List.findSome?_cons, List.findSome?_cons,
        (h owner (ho owner List.mem_cons_self)).findField?_eq,
        ih fun o hm => ho o (List.mem_cons_of_mem _ hm)]
  rw [findField?, lineage, ancestors_of_resembles h hid]
  refine hlineage _ fun owner ho => ?_
  rcases List.mem_cons.1 ho with rfl | ho
  · exact hid
  · exact Nat.lt_trans (index_lt_of_mem_ancestors ho) hid

end Chain

section Alike

variable {d d' : Document} {x : Declaration}
  (hr : ∀ id : StructureId, id.index < d.structures.size → Resembles d d' id)

include hr

/-- Names stay distinct if no name in the document changes. -/
theorem NamesDistinct.congr (hd : d.Linked) (hx : x.Below d.extent) (h : d.NamesDistinct x)
    (hv : ∀ id, x = .enum id → (d'.enumerations.get? id).map (·.values) =
      (d.enumerations.get? id).map (·.values)) : d'.NamesDistinct x := by
  cases x with
  | struct id =>
    intro s' hs'
    obtain ⟨s, hs, hu⟩ := (hr id hx).exists_eq hs'
    refine (h s hs).congr hu fun base name hb => ?_
    exact findField?_of_resembles hr (Nat.lt_trans ((hd.structures id s hs).base base hb) hx) name
  | enum id =>
    intro e' he'
    have hvalues := hv id rfl
    rw [he', Option.map_some] at hvalues
    obtain ⟨e, he, hvalues⟩ := Option.map_eq_some_iff.1 hvalues.symm
    rw [← hvalues]
    exact h e he
  | identifier _ | specimen _ | interface _ | factory _ => trivial

/-- Types stay allowed if no slot of the declaration is filled, and nothing on the way to the core
of a type in its fields. -/
theorem TypesAllowed.congr (hd : d.Linked) (hx : x.Below d.extent) (h : d.TypesAllowed x)
    (hs : ∀ slot t, slot.holder? = some x → d'.slot? slot = some (some t) →
      d.slot? slot = some (some t))
    (hc : ∀ f t, x = .struct f.owner → d.slot? (.field f) = some (some t) →
      d'.core? t = d.core? t) : d'.TypesAllowed x := by
  cases x with
  | struct id =>
    intro s' hs'
    obtain ⟨s, hstructure, hu⟩ := (hr id hx).exists_eq hs'
    have hshares := h s hstructure
    constructor
    · intro hsharable position f t hf hft o ho
      rw [Structure.has_eq hu] at hsharable
      have hslot : d.slot? (.field ⟨id, position⟩) = some (some t) :=
        hs _ t rfl (by simp [slot?, field?, hs', hf, hft])
      rw [hc _ t rfl hslot] at ho
      have hbelow := hd.core?_below (hd.below_of_slot? hslot) ho
      obtain ⟨g, hg, hgt⟩ := Option.map_eq_some_iff.1 hslot
      rw [field?, hstructure, Option.bind_some] at hg
      obtain ⟨y, hy, hys⟩ := hshares.fields hsharable position g t hg hgt o ho
      obtain ⟨y', hy', hu'⟩ := (hr o hbelow).symm.exists_eq hy
      exact ⟨y', hy', Structure.has_eq hu'.symm _ ▸ hys⟩
    · intro base y' hb hy' hsharable
      rw [Structure.base_eq hu] at hb
      have hbelow := Nat.lt_trans ((hd.structures id s hstructure).base base hb) hx
      obtain ⟨y, hy, hu'⟩ := (hr base hbelow).exists_eq hy'
      rw [Structure.has_eq hu'] at hsharable
      rw [Structure.has_eq hu]
      exact hshares.derived base y hb hy hsharable
  | enum id =>
    intro e' t he' hp
    have hslot : d.slot? (.enumerationParameter id) = some (some t) :=
      hs _ t rfl (by simp [slot?, he', hp])
    obtain ⟨e, he, hp⟩ := Option.map_eq_some_iff.1 hslot
    exact h e t he hp
  | identifier id =>
    intro i' t hi' hp
    have hslot : d.slot? (.identifierParameter id) = some (some t) :=
      hs _ t rfl (by simp [slot?, hi', hp])
    obtain ⟨i, hi, hp⟩ := Option.map_eq_some_iff.1 hslot
    exact h i t hi hp
  | specimen _ | interface _ | factory _ => trivial

end Alike

/-- What lies below an extent stays valid when the documents agree there. -/
theorem AgreeBelow.isValid {d d' : Document} (h : AgreeBelow d.extent d d') (hd : d.Linked)
    {x : Declaration} (hx : x.Below d.extent) (hv : d.IsValid x) : d'.IsValid x := by
  have hr (o : StructureId) (ho : o.index < d.structures.size) : Resembles d d' o :=
    .of_eq (h.structure_eq ho)
  refine ⟨hv.names.congr hr hd hx ?_, hv.types.congr hr hd hx (fun slot t hs ht => ?_)
    fun f t _ ht => h.core?_eq hd (hd.below_of_slot? ht)⟩
  · rintro id rfl
    rw [h.enumeration_eq hx]
  · rwa [h.slot?_eq (Slot.not_above_of_holder? hs hx)] at ht

/-- Validity hangs on the nodes of a document, not on what is registered or imported in it. -/
theorem IsValid.of_nodes_eq {d d' : Document} {x : Declaration} (h : d.IsValid x) (hd : d.Linked)
    (hx : x.Below d.extent) (hs : d'.structures = d.structures)
    (he : d'.enumerations = d.enumerations) (ht : d'.templates = d.templates)
    (hslot : ∀ slot, d'.slot? slot = d.slot? slot) : d'.IsValid x := by
  have hr (o : StructureId) (_ : o.index < d.structures.size) : Resembles d d' o :=
    .of_eq (by rw [hs])
  exact ⟨h.names.congr hr hd hx fun id _ => by rw [he],
    h.types.congr hr hd hx (fun slot _ _ hu => hslot slot ▸ hu)
      fun _ t _ _ => core?_of_templates_eq ht t⟩

theorem resembles_modifyField (d : Document) (f : FieldRef) (g : Field → Field)
    (hg : ∀ own, (g own).untyped = own.untyped) (id : StructureId) :
    Resembles d (d.modifyStructure f.owner (·.modifyField f.member g)) id := by
  rw [Resembles, modifyStructure, Arena.get?_modify]
  split
  · simp [Option.map_map, Function.comp_def, Structure.untyped_modifyField hg]
  · rfl

namespace Sheds

variable {d d' : Document}

theorem resembles (h : d.Sheds d') (id : StructureId) : Resembles d d' id := by
  induction h with
  | refl => exact .of_eq rfl
  | @dropDefault d' f _ ih =>
    exact ih.trans (d'.resembles_modifyField f ({ · with default := none }) (fun _ => rfl) id)
  | withdraw x _ ih => exact ih

variable {x : Declaration} (h : d.Sheds d') (hd : d.Linked) (hx : x.Below d.extent)

include h hd hx

theorem namesDistinct (hn : d.NamesDistinct x) : d'.NamesDistinct x :=
  hn.congr (fun id _ => h.resembles id) hd hx fun id _ => by rw [h.enumerations]

theorem typesAllowed (ht : d.TypesAllowed x) : d'.TypesAllowed x :=
  ht.congr (fun id _ => h.resembles id) hd hx (fun slot _ _ hs => h.slot? slot ▸ hs)
    fun _ t _ _ => core?_of_templates_eq h.templates t

end Sheds

section Fill

variable {d : Document}

/-- Nothing is registered when a name is bound. -/
theorem mem_declarations_of_bind {s : Session} {checks : List Check} {b : Binding} {t : DataType}
    {x : Declaration} (h : x ∈ (s.bind checks b t).document.declarations) :
    x ∈ s.document.declarations := by
  rw [← s.document.declarations_fill b.slot t]
  exact (s.sheds_bind checks b t).declarations x h

theorem resembles_fill (d : Document) (slot : Slot) (t : DataType) (id : StructureId) :
    Resembles d (d.fill slot t) id := by
  cases slot with
  | field f => exact d.resembles_modifyField f ({ · with type := some t }) (fun _ => rfl) id
  | _ => exact .of_eq rfl

theorem values_fill (d : Document) (slot : Slot) (t : DataType) (id : EnumerationId) :
    ((d.fill slot t).enumerations.get? id).map (·.values) =
      (d.enumerations.get? id).map (·.values) := by
  cases slot with
  | enumerationParameter o =>
    rw [fill, modifyEnumeration, Arena.get?_modify]
    split
    · simp [Option.map_map, Function.comp_def]
    · rfl
  | _ => rfl

theorem NamesDistinct.fill {x : Declaration} (h : d.NamesDistinct x) (hd : d.Linked)
    (hx : x.Below d.extent) (slot : Slot) (t : DataType) : (d.fill slot t).NamesDistinct x :=
  h.congr (fun id _ => d.resembles_fill slot t id) hd hx fun id _ => d.values_fill slot t id

theorem owner?_of_holder? {b : Binding} {x : Declaration} (h : b.slot.holder? = some x) :
    b.owner? = some x := by
  unfold Binding.owner?
  cases hs : b.slot <;> rw [hs] at h <;> first | exact h | cases h

/-- The types in a declaration stay allowed when a name is bound that another one owns. -/
theorem TypesAllowed.fill {x : Declaration} {b : Binding} {ws : List Binding}
    (h : d.TypesAllowed x) (hd : d.Sound (b :: ws)) (hx : x.Below d.extent)
    (hb : b.owner? ≠ some x) (t : DataType) : (d.fill b.slot t).TypesAllowed x := by
  have hopen : d.IsOpen b.slot := (hd.waiting.slots b.slot).1 List.mem_cons_self
  refine h.congr (fun id _ => d.resembles_fill b.slot t id) hd.linked hx
    (fun slot u hs hu => ?_) fun f u hxf hu => ?_
  · rw [slot?_fill d t hopen.isSome] at hu
    split at hu
    · rename_i hslot
      exact absurd (owner?_of_holder? (hslot ▸ hs)) hb
    · exact hu
  · cases hslot : b.slot with
    | templateArgument o =>
      rw [hslot] at hopen
      refine core?_fill hopen t fun ho => hb ?_
      -- the name that waits for the instance was read inside the structure of the field
      obtain ⟨b', hb', hslot', hscope⟩ := (hd.fields f u hu).waits o ho
      have heq : b' = b := List.inj_on_of_nodup_map hd.waiting.distinct hb' List.mem_cons_self
        (hslot'.trans hslot.symm)
      rw [Binding.owner?, hslot, ← heq, hscope, hxf]
      rfl
    | _ =>
      apply core?_of_templates_eq
      rfl

end Fill

end Document

end Idl
