import Idl.Proofs.Document.Member
import Idl.Proofs.Document.Number

/-!
Changes above an extent: all that the reading of a construct does to a document. A node is
inserted, or something is added to a node above the extent. A change makes at most one slot.
If the slot is left open and a name waits for it, a sound document stays sound; and below the
extent nothing is seen of the change.
-/

namespace Idl

/-- The slot, if there is no type to put into it. -/
def Slot.opened (slot : Slot) : Option DataType → List Slot
  | none => [slot]
  | some _ => []

namespace Enumeration

/-- Numbered values are values of the same enumeration. -/
theorem assignValues_enumeration (e : Enumeration) {id : EnumerationId}
    (h : ∀ v ∈ e.values, v.enumeration = id) : ∀ v ∈ e.assignValues.values, v.enumeration = id := by
  intro v hv
  have hm : v.enumeration ∈ e.assignValues.values.map (·.enumeration) :=
    List.mem_map_of_mem hv
  rw [map_assignValues _ fun _ _ => rfl] at hm
  obtain ⟨w, hw, he⟩ := List.mem_map.1 hm
  exact he ▸ h w hw

end Enumeration

namespace Document

/-- The changes above `e` to a document with the names `ws` waiting, each with the slots it
opens. -/
inductive Change (e : Extent) (ws : List Binding) (d : Document) : List Slot → Document → Prop where
  | instantiate (i : Instance) (hl : TypeLinked d i.argument) :
      Change e ws d (Slot.opened (.templateArgument d.templates.next) i.argument)
        (d.insertInstance i)
  | struct (x : Structure) (hb : x.base = none) (hm : x.members = []) :
      Change e ws d [] (d.insertStructure x)
  | base {id b : StructureId} (hid : e.structures ≤ id.index) (hb : b.index < id.index)
      (hm : ∀ x, d.structures.get? id = some x → x.members = []) (hl : d.IsListed (.struct b)) :
      Change e ws d [] (d.modifyStructure id fun x => { x with base := some b })
  | member {id : StructureId} {m : Member} (hid : e.structures ≤ id.index)
      (hm : m.field? = none) (hl : m.Linked d id)
      (hs : ∀ x, d.structures.get? id = some x → m.Suits d x.base)
      (hp : ∀ x, d.structures.get? id = some x → m.Placed d id x) :
      Change e ws d [] (d.modifyStructure id (·.addMember m))
  | field {id : StructureId} {x : Structure} {m : Member} {f : Field}
      (hid : e.structures ≤ id.index) (hx : d.structures.get? id = some x)
      (hm : m.field? = some f) (hl : m.Linked d id) (hs : m.Suits d x.base)
      (hp : m.Placed d id x) (hu : ∀ t, f.type = some t → d.Usable ws (some id) t) :
      Change e ws d (Slot.opened (.field ⟨id, x.members.length⟩) f.type)
        (d.modifyStructure id (·.addMember m))
  | enum (x : Enumeration) (hv : x.values = []) (hl : TypeLinked d x.parameter)
      (ho : ∀ o, x.owner = some o → o.index < d.structures.size) :
      Change e ws d (Slot.opened (.enumerationParameter d.enumerations.next) x.parameter)
        (d.insertEnumeration x)
  | value {id : EnumerationId} {v : EnumerationValue} (hid : e.enumerations ≤ id.index)
      (hv : v.enumeration = id)
      (hp : ∀ parts, v.parts = some parts → ∀ position ∈ parts, d.HasValue id position) :
      Change e ws d [] (d.modifyEnumeration id (·.addValue v))
  | assignValues {id : EnumerationId} (hid : e.enumerations ≤ id.index) :
      Change e ws d [] (d.modifyEnumeration id Enumeration.assignValues)
  | identifier (x : Identifier) (hl : TypeLinked d x.parameter) :
      Change e ws d (Slot.opened (.identifierParameter d.identifiers.next) x.parameter)
        (d.insertIdentifier x)
  | specimen (x : Specimen) (hl : TypeLinked d x.parameter)
      (hb : ∀ b, x.base = some b → b.index < d.specimens.size) :
      Change e ws d (Slot.opened (.specimenParameter d.specimens.next) x.parameter)
        (d.insertSpecimen x)
  | interface (x : Interface) (hm : x.methods = []) :
      Change e ws d [] (d.insertInterface x)
  | method {id : InterfaceId} {m : Method} (hid : e.interfaces ≤ id.index)
      (hm : m.parameters = []) :
      Change e ws d [] (d.modifyInterface id (·.addMethod m))
  | parameter {id : InterfaceId} {i : Interface} {method : Nat} {m : Method} {p : Parameter}
      (hid : e.interfaces ≤ id.index) (hi : d.interfaces.get? id = some i)
      (hm : i.methods[method]? = some m) (hl : TypeLinked d p.type) :
      Change e ws d (Slot.opened (.methodParameter id method m.parameters.length) p.type)
        (d.modifyInterface id (·.addParameter method p))
  | factory (x : Factory) (hf : x.filters = []) (hl : TypeLinked d x.parameter) :
      Change e ws d (Slot.opened (.factoryParameter d.factories.next) x.parameter)
        (d.insertFactory x)
  | filter {id : FactoryId} {x : Filter} (hid : e.factories ≤ id.index)
      (hx : d.HoldsField x.field) :
      Change e ws d [] (d.modifyFactory id (·.addFilter x))

/-- What all changes have in common. -/
structure Adds (e : Extent) (ws : List Binding) (d : Document) (opened : List Slot)
    (d' : Document) : Prop where
  grows : d.Grows d'
  distinct : opened.Nodup
  opens : ∀ slot, d'.IsOpen slot ↔ d.IsOpen slot ∨ slot ∈ opened
  new : ∀ slot ∈ opened, d.slot? slot = none
  above : ∀ slot ∈ opened, slot.Above e
  hangs : ∀ t o, t.Below d.extent → d'.HangsOn t o → d.HangsOn t o
  fields : ∀ f t, d'.slot? (.field f) = some (some t) →
    d.slot? (.field f) = some (some t) ∨ d.Usable ws (some f.owner) t

section Adds

variable {e : Extent} {ws : List Binding} {d d' : Document}

theorem keepsOwners_insertEnumeration (d : Document) (x : Enumeration) :
    KeepsOwners d (d.insertEnumeration x) := by
  intro id e he
  have hne : id ≠ d.enumerations.next := by
    rintro rfl
    simp [get?_next] at he
  refine ⟨e, ?_, rfl⟩
  simp only [insertEnumeration, Arena.get?_insert, if_neg hne, he]

/-- A change that makes no slot. -/
theorem Adds.of_same (he : d.extent ≤ d'.extent) (ht : d'.templates = d.templates)
    (hm : KeepsMethods d d') (ho : KeepsOwners d d') (hs : ∀ slot, d'.slot? slot = d.slot? slot) :
    Adds e ws d [] d' where
  grows :=
    ⟨he, fun slot h => by rwa [hs], fun slot t h => by rwa [hs],
      fun _ i hi => ⟨i, ht ▸ hi, rfl, rfl⟩, hm, ho⟩
  distinct := List.nodup_nil
  opens slot := by simp [IsOpen, hs]
  new := nofun
  above := nofun
  hangs _ _ _ h := h.congr ht
  fields f t h := .inl (hs _ ▸ h)

/-- A change that makes one slot. -/
theorem Adds.of_made {made : Slot} {t? : Option DataType} (he : d.extent ≤ d'.extent)
    (hi : ∀ id i, d.templates.get? id = some i → d'.templates.get? id = some i)
    (hh : ∀ t o, t.Below d.extent → d'.HangsOn t o → d.HangsOn t o) (hm : KeepsMethods d d')
    (ho : KeepsOwners d d')
    (hs : ∀ slot, d'.slot? slot = if slot = made then some t? else d.slot? slot)
    (hn : d.slot? made = none) (ha : made.Above e)
    (hu : ∀ f t, made = .field f → t? = some t → d.Usable ws (some f.owner) t) :
    Adds e ws d (made.opened t?) d' where
  grows := by
    have hne {slot : Slot} (h : (d.slot? slot).isSome) : slot ≠ made := by
      rintro rfl
      simp [hn] at h
    refine ⟨he, fun slot h => ?_, fun slot t h => ?_, fun id i h => ⟨i, hi id i h, rfl, rfl⟩, hm,
      ho⟩
    · rwa [hs, if_neg (hne h)]
    · rwa [hs, if_neg (hne (h ▸ rfl))]
  distinct := by cases t? <;> simp [Slot.opened]
  opens slot := by
    rw [IsOpen, hs]
    by_cases h : slot = made
    · subst h
      cases t? <;> simp [Slot.opened, IsOpen, hn]
    · cases t? <;> simp [Slot.opened, IsOpen, h]
  new slot h := by
    cases t? with
    | none => rwa [List.mem_singleton.1 h]
    | some t => cases h
  above slot h := by
    cases t? with
    | none => rwa [List.mem_singleton.1 h]
    | some t => cases h
  hangs := hh
  fields f t h := by
    rw [hs] at h
    split at h
    · rename_i hf
      exact .inr (hu f t hf.symm (Option.some.inj h))
    · exact .inl h

/-- What hangs on what is not changed by an instance that nothing is built on yet. -/
theorem hangsOn_insertInstance (hd : d.Linked) (i : Instance) {t : DataType} {o : TemplateId}
    (ht : t.Below d.extent) (h : (d.insertInstance i).HangsOn t o) : d.HangsOn t o := by
  have old {id : TemplateId} (hid : id.index < d.templates.size) :
      (d.insertInstance i).templates.get? id = d.templates.get? id := by
    have hne : id ≠ d.templates.next := by
      rintro rfl
      exact Nat.lt_irrefl _ hid
    simp only [insertInstance, Arena.get?_insert, if_neg hne]
  induction h with
  | here hi ha => exact .here (old ht ▸ hi) ha
  | inside hi ha _ ih =>
    have hi' := old ht ▸ hi
    exact .inside hi' ha (ih ((hd.templates _ _ hi').argument _ ha))

end Adds

namespace Change

variable {e : Extent} {ws : List Binding} {d d' : Document} {opened : List Slot}

theorem linked (h : Change e ws d opened d') (hd : d.Linked) (g : d.Grows d') : d'.Linked := by
  have hl := hd.mono g
  cases h with
  | instantiate i hi =>
    have inner (o : TemplateId) (ho : i.argument = some (.template o)) :
        o.index < d.templates.next.index :=
      hi _ ho
    refine { hl with
      templates := hl.templates.insert ⟨typeLinked_mono g hi, inner⟩
      shared := fun entry he => ?_ }
    simp only [insertInstance] at he
    split at he
    · rename_i t ht
      rcases List.mem_append.1 he with he | he
      · exact hl.shared entry he
      · rw [List.mem_singleton.1 he]
        refine ⟨(hi t ht).mono g.extent, ?_⟩
        simp only [insertInstance, Arena.get?_insert, if_true]
        cases i
        simp_all
    · exact hl.shared entry he
  | struct x hb hm =>
    have base (b : StructureId) (h : x.base = some b) : b.index < d.structures.next.index := by
      simp [hb] at h
    have members (m : Member) (h : m ∈ x.members) :
        m.Linked (d.insertStructure x) d.structures.next := by
      simp [hm] at h
    exact { hl with structures := hl.structures.insert ⟨base, members⟩ }
  | base hid hb _ _ =>
    refine { hl with structures := hl.structures.modify fun x hx => ?_ }
    refine ⟨fun b h => ?_, (hl.structures _ x hx).members⟩
    cases h
    exact hb
  | @member id m hid hm hml _ _ =>
    exact { hl with structures := hl.structures.modify fun x hx =>
      (hl.structures _ x hx).addMember (memberLinked_mono g hml) }
  | field hid hx hm hml _ _ hu =>
    exact { hl with structures := hl.structures.modify fun x hx =>
      (hl.structures _ x hx).addMember (memberLinked_mono g hml) }
  | enum x hv hp ho =>
    have owner (o : StructureId) (h : x.owner = some o) :
        o.index < (d.insertEnumeration x).structures.size :=
      Nat.lt_of_lt_of_le (ho o h) g.extent.1
    have values (v : EnumerationValue) (h : v ∈ x.values) :
        v.enumeration = d.enumerations.next := by
      simp [hv] at h
    exact { hl with
      enumerations := hl.enumerations.insert ⟨typeLinked_mono g hp, owner, values⟩ }
  | value hid hv _ =>
    refine { hl with enumerations := hl.enumerations.modify fun x hx => ?_ }
    have hx' := hl.enumerations _ x hx
    refine ⟨hx'.parameter, hx'.owner, fun v' h => ?_⟩
    rcases List.mem_append.1 h with h | h
    · exact hx'.values v' h
    · rw [List.mem_singleton.1 h]
      exact hv
  | assignValues hid =>
    refine { hl with enumerations := hl.enumerations.modify fun x hx => ?_ }
    have hx' := hl.enumerations _ x hx
    exact ⟨hx'.parameter, hx'.owner, x.assignValues_enumeration hx'.values⟩
  | identifier x hp =>
    exact { hl with identifiers := hl.identifiers.insert (typeLinked_mono g hp) }
  | specimen x hp hb =>
    exact { hl with specimens := hl.specimens.insert ⟨typeLinked_mono g hp, hb⟩ }
  | interface x hm =>
    have methods (m : Method) (h : m ∈ x.methods) (p : Parameter) (_ : p ∈ m.parameters) :
        TypeLinked (d.insertInterface x) p.type := by
      simp [hm] at h
    exact { hl with interfaces := hl.interfaces.insert methods }
  | method hid hm =>
    refine { hl with interfaces := hl.interfaces.modify fun x hx m' h p hp => ?_ }
    rcases List.mem_append.1 h with h | h
    · exact hl.interfaces _ x hx m' h p hp
    · rw [List.mem_singleton.1 h, hm] at hp
      cases hp
  | parameter hid hi hm hp =>
    refine { hl with interfaces := hl.interfaces.modify fun x hx m' h p' hp' => ?_ }
    obtain ⟨_, h⟩ := List.getElem?_of_mem h
    simp only [Interface.addParameter, List.getElem?_modify, Option.map_eq_map,
      Option.map_eq_some_iff] at h
    obtain ⟨m, hm', rfl⟩ := h
    have hold := hl.interfaces _ x hx m (List.mem_of_getElem? hm')
    split at hp'
    · rcases List.mem_append.1 hp' with hp' | hp'
      · exact hold p' hp'
      · rw [List.mem_singleton.1 hp']
        exact typeLinked_mono g hp
    · exact hold p' hp'
  | factory x hf hp =>
    have filters (y : Filter) (h : y ∈ x.filters) : (d.insertFactory x).HoldsField y.field := by
      simp [hf] at h
    exact { hl with factories := hl.factories.insert ⟨typeLinked_mono g hp, filters⟩ }
  | filter hid hx =>
    refine { hl with factories := hl.factories.modify fun y hy => ?_ }
    refine ⟨(hl.factories _ y hy).parameter, fun x' h => ?_⟩
    rcases List.mem_append.1 h with h | h
    · exact (hl.factories _ y hy).filters x' h
    · rw [List.mem_singleton.1 h]
      exact hx.mono g

theorem agree (h : Change e ws d opened d') (he : e ≤ d.extent) : AgreeBelow e d d' := by
  cases h with
  | instantiate i _ => exact agreeBelow_insertInstance d he i
  | struct x _ _ => exact agreeBelow_insertStructure d he x
  | base hid _ _ _ | member hid _ _ _ _ | field hid _ _ _ _ _ _ =>
    exact agreeBelow_modifyStructure d hid _
  | enum x _ _ _ => exact agreeBelow_insertEnumeration d he x
  | value hid _ _ | assignValues hid => exact agreeBelow_modifyEnumeration d hid _
  | identifier x _ => exact agreeBelow_insertIdentifier d he x
  | specimen x _ _ => exact agreeBelow_insertSpecimen d he x
  | interface x _ => exact agreeBelow_insertInterface d he x
  | method hid _ | parameter hid _ _ _ => exact agreeBelow_modifyInterface d hid _
  | factory x _ _ => exact agreeBelow_insertFactory d he x
  | filter hid _ => exact agreeBelow_modifyFactory d hid _

/-- Every change keeps what is there, and makes no slot but the one it says. -/
theorem adds (h : Change e ws d opened d') (hd : d.Linked) (he : e ≤ d.extent) :
    Adds e ws d opened d' := by
  obtain ⟨_, enumerations, identifiers, specimens, _, factories, templates⟩ := he
  cases h with
  | instantiate i hl =>
    have kept (id : TemplateId) (j : Instance) (hj : d.templates.get? id = some j) :
        (d.insertInstance i).templates.get? id = some j := by
      have hne : id ≠ d.templates.next := by
        rintro rfl
        simp [get?_next] at hj
      simp only [insertInstance, Arena.get?_insert, if_neg hne, hj]
    exact .of_made (by simp [Extent.le_iff, extent, insertInstance]) kept
      (fun _ _ => hangsOn_insertInstance hd i) (keepsMethods_of_eq rfl) (keepsOwners_of_eq rfl)
      (slot?_insertInstance d i) (by simp [slot?, get?_next]) templates
      fun _ _ h => by cases h
  | struct x hb hm =>
    exact .of_same (by simp [Extent.le_iff, extent, insertStructure]) rfl
      (keepsMethods_of_eq rfl) (keepsOwners_of_eq rfl) (slot?_insertStructure d x hm)
  | base hid hb _ _ =>
    exact .of_same (by simp [Extent.le_iff, extent, modifyStructure]) rfl
      (keepsMethods_of_eq rfl) (keepsOwners_of_eq rfl)
      (slot?_modifyStructure d _ _ fun x _ position => rfl)
  | member hid hm hl _ _ =>
    exact .of_same (by simp [Extent.le_iff, extent, modifyStructure]) rfl
      (keepsMethods_of_eq rfl) (keepsOwners_of_eq rfl) (slot?_addMember d _ _ hm)
  | field hid hx hm hl _ _ hu =>
    refine .of_made (by simp [Extent.le_iff, extent, modifyStructure]) (fun _ _ hj => hj)
      (fun _ _ _ h => h.congr rfl) (keepsMethods_of_eq rfl) (keepsOwners_of_eq rfl)
      (slot?_addField d hx hm)
      (by simp [slot?, field?, hx, Structure.field?]) hid fun f t hf ht => ?_
    cases hf
    exact hu t ht
  | enum x hv hp ho =>
    exact .of_made (by simp [Extent.le_iff, extent, insertEnumeration]) (fun _ _ hj => hj)
      (fun _ _ _ h => h.congr rfl) (keepsMethods_of_eq rfl) (keepsOwners_insertEnumeration d x)
      (slot?_insertEnumeration d x) (by simp [slot?, get?_next]) enumerations
      fun _ _ h => by cases h
  | value hid hv _ =>
    exact .of_same (by simp [Extent.le_iff, extent, modifyEnumeration]) rfl
      (keepsMethods_of_eq rfl) (keepsOwners_modifyEnumeration d _ fun _ => rfl)
      (slot?_modifyEnumeration d _ _ fun _ => rfl)
  | assignValues hid =>
    exact .of_same (by simp [Extent.le_iff, extent, modifyEnumeration]) rfl
      (keepsMethods_of_eq rfl) (keepsOwners_modifyEnumeration d _ fun _ => rfl)
      (slot?_modifyEnumeration d _ _ fun _ => rfl)
  | identifier x hp =>
    exact .of_made (by simp [Extent.le_iff, extent, insertIdentifier]) (fun _ _ hj => hj)
      (fun _ _ _ h => h.congr rfl) (keepsMethods_of_eq rfl) (keepsOwners_of_eq rfl)
      (slot?_insertIdentifier d x) (by simp [slot?, get?_next]) identifiers
      fun _ _ h => by cases h
  | specimen x hp hb =>
    exact .of_made (by simp [Extent.le_iff, extent, insertSpecimen]) (fun _ _ hj => hj)
      (fun _ _ _ h => h.congr rfl) (keepsMethods_of_eq rfl) (keepsOwners_of_eq rfl)
      (slot?_insertSpecimen d x) (by simp [slot?, get?_next]) specimens
      fun _ _ h => by cases h
  | interface x hm =>
    have kept : KeepsMethods d (d.insertInterface x) := by
      intro id i hi
      have hne : id ≠ d.interfaces.next := by
        rintro rfl
        simp [get?_next] at hi
      refine ⟨i, ?_, Nat.le_refl _⟩
      simp only [insertInterface, Arena.get?_insert, if_neg hne, hi]
    exact .of_same (by simp [Extent.le_iff, extent, insertInterface]) rfl kept
      (keepsOwners_of_eq rfl) (slot?_insertInterface d x hm)
  | @method o m hid hm =>
    have kept : KeepsMethods d (d.modifyInterface o (·.addMethod m)) := by
      intro id i hi
      simp only [modifyInterface, Arena.get?_modify, hi]
      split
      · exact ⟨_, rfl, by simp [Interface.addMethod]⟩
      · exact ⟨i, rfl, Nat.le_refl _⟩
    exact .of_same (by simp [Extent.le_iff, extent, modifyInterface]) rfl kept
      (keepsOwners_of_eq rfl) (slot?_addMethod d _ m hm)
  | @parameter o x position m p hid hx hm hp =>
    have kept : KeepsMethods d (d.modifyInterface o (·.addParameter position p)) := by
      intro id i hi
      simp only [modifyInterface, Arena.get?_modify, hi]
      split
      · exact ⟨_, rfl, by simp [Interface.addParameter]⟩
      · exact ⟨i, rfl, Nat.le_refl _⟩
    exact .of_made (by simp [Extent.le_iff, extent, modifyInterface]) (fun _ _ hj => hj)
      (fun _ _ _ h => h.congr rfl) kept (keepsOwners_of_eq rfl) (slot?_addParameter d hx hm p)
      (by simp [slot?, hx, Interface.parameter?, hm]) hid fun _ _ h => by cases h
  | factory x hf hp =>
    exact .of_made (by simp [Extent.le_iff, extent, insertFactory]) (fun _ _ hj => hj)
      (fun _ _ _ h => h.congr rfl) (keepsMethods_of_eq rfl) (keepsOwners_of_eq rfl)
      (slot?_insertFactory d x) (by simp [slot?, get?_next]) factories
      fun _ _ h => by cases h
  | filter hid hx =>
    exact .of_same (by simp [Extent.le_iff, extent, modifyFactory]) rfl
      (keepsMethods_of_eq rfl) (keepsOwners_of_eq rfl) (slot?_modifyFactory d _ _ fun _ => rfl)

theorem mono {e' : Extent} (h : Change e' ws d opened d') (he : e ≤ e') :
    Change e ws d opened d' := by
  obtain ⟨structures, enumerations, _, _, interfaces, factories, _⟩ := he
  cases h with
  | instantiate i hl => exact .instantiate i hl
  | struct x hb hm => exact .struct x hb hm
  | base hid hb hm hl => exact .base (Nat.le_trans structures hid) hb hm hl
  | member hid hm hl hs hp => exact .member (Nat.le_trans structures hid) hm hl hs hp
  | field hid hx hm hl hs hp hu => exact .field (Nat.le_trans structures hid) hx hm hl hs hp hu
  | enum x hv hl ho => exact .enum x hv hl ho
  | value hid hv hp => exact .value (Nat.le_trans enumerations hid) hv hp
  | assignValues hid => exact .assignValues (Nat.le_trans enumerations hid)
  | identifier x hl => exact .identifier x hl
  | specimen x hl hb => exact .specimen x hl hb
  | interface x hm => exact .interface x hm
  | method hid hm => exact .method (Nat.le_trans interfaces hid) hm
  | parameter hid hi hm hl => exact .parameter (Nat.le_trans interfaces hid) hi hm hl
  | factory x hf hl => exact .factory x hf hl
  | filter hid hx => exact .filter (Nat.le_trans factories hid) hx

theorem grows (h : Change e ws d opened d') (hd : d.Linked) (he : e ≤ d.extent) : d.Grows d' :=
  (h.adds hd he).grows

end Change

/-- Where the base and the members of a structure come from that a change has left behind. A
member that is new stands behind the others. -/
structure Stems (d : Document) (id : StructureId) (x : Structure) : Prop where
  base : ∀ b, x.base = some b → d.IsListed (.struct b) ∨ d.HasBase id b
  members : ∀ (position : Nat) m, x.members[position]? = some m → m.Suits d x.base ∨
    ∃ y, d.structures.get? id = some y ∧ y.base = x.base ∧ y.members[position]? = some m
  order : x.members = [] ∨ ∃ y, d.structures.get? id = some y ∧
    (x = y ∨ ∃ m, x = y.addMember m ∧ m.Placed d id y)

namespace Stems

variable {d : Document} {id : StructureId} {x : Structure}

theorem refl (hx : d.structures.get? id = some x) : d.Stems id x where
  base b hb := .inr (by simp [HasBase, hx, hb])
  members _ _ hm := .inr ⟨x, hx, rfl, hm⟩
  order := .inr ⟨x, hx, .inl rfl⟩

theorem addMember (hx : d.structures.get? id = some x) {m : Member} (hm : m.Suits d x.base)
    (hp : m.Placed d id x) : d.Stems id (x.addMember m) where
  base := (refl hx).base
  members position m' hm' := by
    rw [Structure.addMember, List.getElem?_append] at hm'
    split at hm'
    · exact .inr ⟨x, hx, rfl, hm'⟩
    · exact .inl (List.mem_singleton.1 (List.mem_of_getElem? hm') ▸ hm)
  order := .inr ⟨x, hx, .inr ⟨m, rfl, hp⟩⟩

/-- Where a member stands among others that are not new. -/
theorem member (h : d.Stems id x) {m : Member} (hm : m ∈ x.members) : m.Suits d x.base ∨
    ∃ y, d.structures.get? id = some y ∧ y.base = x.base ∧ m ∈ y.members := by
  obtain ⟨position, hposition⟩ := List.getElem?_of_mem hm
  refine (h.members position m hposition).imp_right fun ⟨y, hy, hbase, hm⟩ => ?_
  exact ⟨y, hy, hbase, List.mem_of_getElem? hm⟩

end Stems

/-- A structure is given a base before it has members, and then only members that suit it. -/
theorem Change.stems {e : Extent} {ws : List Binding} {d d' : Document} {opened : List Slot}
    (h : Change e ws d opened d') : d'.structures.All d.Stems := by
  have same : d.structures.All d.Stems := fun _ _ hx => .refl hx
  cases h with
  | struct x hb hm =>
    exact same.insert ⟨fun b h => by simp [hb] at h, fun _ m h => by simp [hm] at h, .inl hm⟩
  | base hid hb hm hl =>
    refine same.modify fun x hx => ⟨fun b' h => ?_, fun _ m h => ?_, .inl (hm x hx)⟩
    · cases h
      exact .inl hl
    · rw [hm x hx] at h
      cases h
  | member hid hm hl hs hp => exact same.modify fun x hx => .addMember hx (hs x hx) (hp x hx)
  | field hid hx hm hl hs hp hu =>
    refine same.modify fun y hy => ?_
    cases hx.symm.trans hy
    exact .addMember hx hs hp
  | _ => exact same

/-- A change keeps a document sound, if a name waits for the slot it opens. `others` are the
names that wait elsewhere. -/
theorem Sound.change {e : Extent} {others ws new : List Binding} {d d' : Document}
    {opened : List Slot} (hd : d.Sound (others ++ ws)) (h : Change e ws d opened d')
    (he : e ≤ d.extent) (hn : new.map Binding.slot = opened)
    (hscope : ∀ b ∈ new, ∀ id, b.scope = some id → id.index < d.structures.size) :
    d'.Sound (others ++ (ws ++ new)) := by
  have ha := h.adds hd.linked he
  have hold (slot : Slot) (hs : slot ∈ (others ++ ws).map Binding.slot) : slot ∉ opened := by
    intro ho
    have hopen := (hd.waiting.slots slot).1 hs
    rw [IsOpen, ha.new slot ho] at hopen
    cases hopen
  have usable {scope : Option StructureId} {t : DataType}
      (hu : d.Usable (others ++ ws) scope t) : d'.Usable (others ++ (ws ++ new)) scope t := by
    refine ⟨hu.below.mono ha.grows.extent, fun o ho => ?_⟩
    obtain ⟨b, hb, hs⟩ := hu.waits o (ha.hangs t o hu.below ho)
    exact ⟨b, by rw [← List.append_assoc]; exact List.mem_append_left new hb, hs⟩
  rw [← List.append_assoc]
  refine ⟨h.linked hd.linked ha.grows, ⟨?_, fun slot => ?_⟩, fun b hb id hid => ?_,
    fun f t hf => ?_⟩
  · rw [List.map_append, hn, List.nodup_append]
    refine ⟨hd.waiting.distinct, ha.distinct, fun a h b hb hab => ?_⟩
    exact hold a h (hab ▸ hb)
  · rw [List.map_append, hn, List.mem_append, ha.opens, hd.waiting.slots]
  · refine Nat.lt_of_lt_of_le ?_ ha.grows.extent.1
    rcases List.mem_append.1 hb with hb | hb
    · exact hd.scopes b hb id hid
    · exact hscope b hb id hid
  · rw [List.append_assoc]
    rcases ha.fields f t hf with hf | hu
    · exact usable (hd.fields f t hf)
    · refine usable ⟨hu.below, fun o ho => ?_⟩
      obtain ⟨b, hb, hs⟩ := hu.waits o ho
      exact ⟨b, List.mem_append_right others hb, hs⟩

end Document

end Idl
