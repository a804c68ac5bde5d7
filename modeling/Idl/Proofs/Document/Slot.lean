import Idl.Document.Fields
import Idl.Session.Basic

/-!
The slots of a document: every place that holds a type, or waits for one. Each operation on a
document either leaves all slots as they are, makes one new slot, or fills one. A slot that is
there never goes away unless its node does.
-/

namespace Idl

/-- The parameter at a position of the method at a position. -/
def Interface.parameter? (i : Interface) (method parameter : Nat) : Option Parameter :=
  i.methods[method]?.bind (·.parameters[parameter]?)

namespace Structure

theorem field?_addMember (s : Structure) (m : Member) (position : Nat) :
    (s.addMember m).field? position =
      if position = s.members.length then m.field? else s.field? position := by
  simp only [field?, addMember]
  rcases Nat.lt_trichotomy position s.members.length with h | h | h
  · rw [List.getElem?_append_left h, if_neg (by omega)]
  · subst h
    simp
  · rw [if_neg (by omega), List.getElem?_eq_none (by simp; omega),
      List.getElem?_eq_none (by omega)]

theorem field?_modifyField (s : Structure) (at_ position : Nat) (g : Field → Field) :
    (s.modifyField at_ g).field? position =
      if at_ = position then (s.field? position).map g else s.field? position := by
  simp only [field?, modifyField, List.getElem?_modify, Option.map_eq_map]
  cases s.members[position]? with
  | none => simp
  | some m =>
    by_cases h : at_ = position
    · simp only [h, if_true, Option.map_some, Option.bind_some]
      cases m <;> rfl
    · simp [h]

end Structure

namespace Interface

theorem parameter?_addMethod (i : Interface) (m : Method) (h : m.parameters = [])
    (method parameter : Nat) :
    (i.addMethod m).parameter? method parameter = i.parameter? method parameter := by
  simp only [parameter?, addMethod]
  rcases Nat.lt_trichotomy method i.methods.length with hm | hm | hm
  · rw [List.getElem?_append_left hm]
  · subst hm
    simp [h]
  · rw [List.getElem?_eq_none (by simp; omega), List.getElem?_eq_none (by omega)]

theorem parameter?_addParameter (i : Interface) (p : Parameter) {m : Method} {position : Nat}
    (hm : i.methods[position]? = some m) (method parameter : Nat) :
    (i.addParameter position p).parameter? method parameter =
      if position = method ∧ parameter = m.parameters.length then some p
      else i.parameter? method parameter := by
  simp only [parameter?, addParameter, List.getElem?_modify, Option.map_eq_map]
  by_cases h : position = method
  · subst h
    simp only [hm, Option.map_some, if_true, Option.bind_some, true_and]
    rcases Nat.lt_trichotomy parameter m.parameters.length with hp | hp | hp
    · rw [List.getElem?_append_left hp, if_neg (by omega)]
    · subst hp
      simp
    · rw [if_neg (by omega), List.getElem?_eq_none (by simp; omega),
        List.getElem?_eq_none (by omega)]
  · simp [h]

theorem parameter?_modify (i : Interface) (at_ position : Nat) (g : Parameter → Parameter)
    (method parameter : Nat) :
    ({ i with methods := i.methods.modify at_ (·.modifyParameter position g) } :
        Interface).parameter? method parameter =
      if method = at_ ∧ parameter = position then (i.parameter? method parameter).map g
      else i.parameter? method parameter := by
  simp only [parameter?, List.getElem?_modify, Option.map_eq_map]
  cases i.methods[method]? with
  | none => simp
  | some m =>
    by_cases ha : at_ = method
    · subst ha
      simp only [if_true, Option.map_some, Option.bind_some, Method.modifyParameter,
        List.getElem?_modify, Option.map_eq_map, true_and, eq_comm (a := position)]
      split
      · rfl
      · simp
    · simp [ha, Ne.symm ha]

end Interface

namespace Document

/-- What a slot holds: nothing yet, or a type. There is no answer for a slot that is not there. -/
def slot? (d : Document) : Slot → Option (Option DataType)
  | .field f => (d.field? f).map (·.type)
  | .enumerationParameter id => (d.enumerations.get? id).map (·.parameter)
  | .identifierParameter id => (d.identifiers.get? id).map (·.parameter)
  | .specimenParameter id => (d.specimens.get? id).map (·.parameter)
  | .factoryParameter id => (d.factories.get? id).map (·.parameter)
  | .templateArgument id => (d.templates.get? id).map (·.argument)
  | .methodParameter id method parameter =>
    ((d.interfaces.get? id).bind (·.parameter? method parameter)).map (·.type)

/-- A slot that is there and has no type yet. -/
def IsOpen (d : Document) (slot : Slot) : Prop :=
  d.slot? slot = some none

variable (d : Document)

theorem get?_next {family : Family} {α : Type} (a : Arena family α) : a.get? a.next = none :=
  (a.get?_eq_none_iff a.next).2 (Nat.le_refl _)

section Insert

theorem slot?_insertStructure (x : Structure) (h : x.members = []) (slot : Slot) :
    (d.insertStructure x).slot? slot = d.slot? slot := by
  cases slot with
  | field f =>
    simp only [slot?, field?, insertStructure, Arena.get?_insert]
    split
    · rename_i hf
      simp [hf, get?_next, Structure.field?, h]
    · rfl
  | _ => rfl

theorem slot?_insertEnumeration (x : Enumeration) (slot : Slot) :
    (d.insertEnumeration x).slot? slot =
      if slot = .enumerationParameter d.enumerations.next then some x.parameter
      else d.slot? slot := by
  cases slot with
  | enumerationParameter id =>
    simp only [slot?, insertEnumeration, Arena.get?_insert, Slot.enumerationParameter.injEq]
    split <;> rfl
  | _ => rfl

theorem slot?_insertIdentifier (x : Identifier) (slot : Slot) :
    (d.insertIdentifier x).slot? slot =
      if slot = .identifierParameter d.identifiers.next then some x.parameter
      else d.slot? slot := by
  cases slot with
  | identifierParameter id =>
    simp only [slot?, insertIdentifier, Arena.get?_insert, Slot.identifierParameter.injEq]
    split <;> rfl
  | _ => rfl

theorem slot?_insertSpecimen (x : Specimen) (slot : Slot) :
    (d.insertSpecimen x).slot? slot =
      if slot = .specimenParameter d.specimens.next then some x.parameter
      else d.slot? slot := by
  cases slot with
  | specimenParameter id =>
    simp only [slot?, insertSpecimen, Arena.get?_insert, Slot.specimenParameter.injEq]
    split <;> rfl
  | _ => rfl

theorem slot?_insertFactory (x : Factory) (slot : Slot) :
    (d.insertFactory x).slot? slot =
      if slot = .factoryParameter d.factories.next then some x.parameter
      else d.slot? slot := by
  cases slot with
  | factoryParameter id =>
    simp only [slot?, insertFactory, Arena.get?_insert, Slot.factoryParameter.injEq]
    split <;> rfl
  | _ => rfl

theorem slot?_insertInterface (x : Interface) (h : x.methods = []) (slot : Slot) :
    (d.insertInterface x).slot? slot = d.slot? slot := by
  cases slot with
  | methodParameter id method parameter =>
    simp only [slot?, insertInterface, Arena.get?_insert]
    split
    · rename_i hid
      simp [hid, get?_next, Interface.parameter?, h]
    · rfl
  | _ => rfl

theorem slot?_insertInstance (x : Instance) (slot : Slot) :
    (d.insertInstance x).slot? slot =
      if slot = .templateArgument d.templates.next then some x.argument
      else d.slot? slot := by
  cases slot with
  | templateArgument id =>
    simp only [slot?, insertInstance, Arena.get?_insert, Slot.templateArgument.injEq]
    split <;> rfl
  | _ => rfl

end Insert

section Modify

theorem map_get?_modify {family : Family} {α β : Type} {a : Arena family α} {id : Id family}
    {g : α → α} {view : α → β} {v : β} (h : (a.get? id).isSome) (hg : ∀ x, view (g x) = v)
    (o : Id family) :
    ((a.modify id g).get? o).map view = if o = id then some v else (a.get? o).map view := by
  rw [Arena.get?_modify]
  by_cases ho : o = id
  · subst ho
    obtain ⟨x, hx⟩ := Option.isSome_iff_exists.1 h
    simp [hx, hg]
  · simp [ho]

/-- What a structure's fields are is all that slots know of it. -/
theorem slot?_modifyStructure (id : StructureId) (g : Structure → Structure)
    (h : ∀ x, d.structures.get? id = some x → ∀ position,
      ((g x).field? position).map (·.type) = (x.field? position).map (·.type)) (slot : Slot) :
    (d.modifyStructure id g).slot? slot = d.slot? slot := by
  cases slot with
  | field f =>
    simp only [slot?, field?, modifyStructure, Arena.get?_modify]
    split
    · rename_i hf
      subst hf
      cases hx : d.structures.get? f.owner with
      | none => rfl
      | some x => simpa using h x hx f.member
    · rfl
  | _ => rfl

/-- A member that is no field makes no slot. -/
theorem slot?_addMember (id : StructureId) (m : Member) (h : m.field? = none) (slot : Slot) :
    (d.modifyStructure id (·.addMember m)).slot? slot = d.slot? slot := by
  apply slot?_modifyStructure
  intro x _ position
  rw [Structure.field?_addMember, h]
  split
  · rename_i hp
    simp [hp, Structure.field?]
  · rfl

theorem slot?_addField {id : StructureId} {x : Structure} (hx : d.structures.get? id = some x)
    {m : Member} {f : Field} (h : m.field? = some f) (slot : Slot) :
    (d.modifyStructure id (·.addMember m)).slot? slot =
      if slot = .field ⟨id, x.members.length⟩ then some f.type else d.slot? slot := by
  cases slot with
  | field r =>
    obtain ⟨owner, position⟩ := r
    simp only [slot?, field?, modifyStructure, Arena.get?_modify, Slot.field.injEq,
      FieldRef.mk.injEq]
    by_cases ho : owner = id
    · subst ho
      simp only [if_true, hx, Option.map_some, Option.bind_some, Structure.field?_addMember, h,
        true_and]
      split <;> rfl
    · simp [ho]
  | _ => rfl

theorem slot?_modifyEnumeration (id : EnumerationId) (g : Enumeration → Enumeration)
    (h : ∀ e, (g e).parameter = e.parameter) (slot : Slot) :
    (d.modifyEnumeration id g).slot? slot = d.slot? slot := by
  cases slot with
  | enumerationParameter o =>
    simp only [slot?, modifyEnumeration, Arena.get?_modify]
    split
    · simp [Function.comp_def, h]
    · rfl
  | _ => rfl

theorem slot?_modifyFactory (id : FactoryId) (g : Factory → Factory)
    (h : ∀ f, (g f).parameter = f.parameter) (slot : Slot) :
    (d.modifyFactory id g).slot? slot = d.slot? slot := by
  cases slot with
  | factoryParameter o =>
    simp only [slot?, modifyFactory, Arena.get?_modify]
    split
    · simp [Function.comp_def, h]
    · rfl
  | _ => rfl

theorem slot?_addMethod (id : InterfaceId) (m : Method) (h : m.parameters = []) (slot : Slot) :
    (d.modifyInterface id (·.addMethod m)).slot? slot = d.slot? slot := by
  cases slot with
  | methodParameter o method parameter =>
    simp only [slot?, modifyInterface, Arena.get?_modify]
    split
    · cases d.interfaces.get? o with
      | none => rfl
      | some i => simp [Interface.parameter?_addMethod i m h]
    · rfl
  | _ => rfl

theorem slot?_addParameter {id : InterfaceId} {i : Interface}
    (hi : d.interfaces.get? id = some i) {method : Nat} {m : Method}
    (hm : i.methods[method]? = some m) (p : Parameter) (slot : Slot) :
    (d.modifyInterface id (·.addParameter method p)).slot? slot =
      if slot = .methodParameter id method m.parameters.length then some p.type
      else d.slot? slot := by
  cases slot with
  | methodParameter o a b =>
    simp only [slot?, modifyInterface, Arena.get?_modify, Slot.methodParameter.injEq]
    by_cases ho : o = id
    · subst ho
      simp only [if_true, hi, Option.map_some, Option.bind_some,
        Interface.parameter?_addParameter i p hm, true_and, eq_comm (a := method)]
      split <;> rfl
    · simp [ho]
  | _ => rfl

theorem slot?_dropDefault (f : FieldRef) (slot : Slot) :
    (d.dropDefault f).slot? slot = d.slot? slot := by
  apply slot?_modifyStructure
  intro x _ position
  rw [Structure.field?_modifyField]
  split
  · simp [Function.comp_def]
  · rfl

theorem slot?_withdraw (x : Declaration) (slot : Slot) :
    (d.withdraw x).slot? slot = d.slot? slot := by
  cases slot <;> rfl

theorem slot?_register (x : Declaration) (slot : Slot) :
    (d.register x).slot? slot = d.slot? slot := by
  cases slot <;> rfl

/-- To fill a slot that is there changes this slot and no other. -/
theorem slot?_fill {filled : Slot} (t : DataType) (h : (d.slot? filled).isSome) (slot : Slot) :
    (d.fill filled t).slot? slot = if slot = filled then some (some t) else d.slot? slot := by
  cases filled with
  | field f =>
    cases slot with
    | field r =>
      obtain ⟨owner, position⟩ := r
      simp only [slot?, field?, fill, modifyStructure, Arena.get?_modify, Slot.field.injEq] at h ⊢
      by_cases ho : owner = f.owner
      · subst ho
        cases hx : d.structures.get? f.owner with
        | none => simp [hx] at h
        | some x =>
          simp only [hx, Option.bind_some, Option.isSome_map] at h
          simp only [if_true, Option.map_some, Option.bind_some, Structure.field?_modifyField]
          by_cases hp : f.member = position
          · subst hp
            obtain ⟨own, ho⟩ := Option.isSome_iff_exists.1 h
            simp [ho]
          · have hne : (⟨f.owner, position⟩ : FieldRef) ≠ f :=
              fun he => hp (congrArg FieldRef.member he).symm
            simp [hp, hne]
      · have hne : (⟨owner, position⟩ : FieldRef) ≠ f :=
          fun he => ho (congrArg FieldRef.owner he)
        simp [ho, hne]
    | _ => rfl
  | enumerationParameter id =>
    cases slot with
    | enumerationParameter o =>
      simp only [slot?, fill, modifyEnumeration, Option.isSome_map,
        Slot.enumerationParameter.injEq] at h ⊢
      apply map_get?_modify h
      intro _
      rfl
    | _ => rfl
  | identifierParameter id =>
    cases slot with
    | identifierParameter o =>
      simp only [slot?, fill, modifyIdentifier, Option.isSome_map,
        Slot.identifierParameter.injEq] at h ⊢
      apply map_get?_modify h
      intro _
      rfl
    | _ => rfl
  | specimenParameter id =>
    cases slot with
    | specimenParameter o =>
      simp only [slot?, fill, modifySpecimen, Option.isSome_map,
        Slot.specimenParameter.injEq] at h ⊢
      apply map_get?_modify h
      intro _
      rfl
    | _ => rfl
  | factoryParameter id =>
    cases slot with
    | factoryParameter o =>
      simp only [slot?, fill, modifyFactory, Option.isSome_map, Slot.factoryParameter.injEq] at h ⊢
      apply map_get?_modify h
      intro _
      rfl
    | _ => rfl
  | templateArgument id =>
    cases slot with
    | templateArgument o =>
      simp only [slot?, fill, modifyTemplate, Option.isSome_map, Slot.templateArgument.injEq] at h ⊢
      apply map_get?_modify h
      intro _
      rfl
    | _ => rfl
  | methodParameter id method parameter =>
    cases slot with
    | methodParameter o a b =>
      simp only [slot?, fill, modifyInterface, Arena.get?_modify, Option.isSome_map,
        Slot.methodParameter.injEq] at h ⊢
      by_cases ho : o = id
      · subst ho
        cases hi : d.interfaces.get? o with
        | none => simp [hi] at h
        | some i =>
          simp only [hi, Option.bind_some] at h
          simp only [if_true, Option.map_some, Option.bind_some, true_and,
            Interface.parameter?_modify]
          by_cases hp : a = method ∧ b = parameter
          · obtain ⟨rfl, rfl⟩ := hp
            obtain ⟨p, hp⟩ := Option.isSome_iff_exists.1 h
            simp [hp, Parameter.setType]
          · simp only [hp, if_false]
      · simp [ho]
    | _ => rfl

end Modify

end Document

end Idl
