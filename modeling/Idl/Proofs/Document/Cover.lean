import Idl.Proofs.Session.Settle

/-!
Extents that cover a document: all that is registered lies below, and so do the fields that it
alters. Binding a name whose slot lies above such an extent is not seen below it. The slot does
not lie there, no alter of a registered structure hangs on it, and a declaration that lies above
is not registered, so there is nothing to withdraw.
-/

namespace Idl

theorem Arena.get?_eq_of_truncate_eq {family : Family} {α : Type} {a b : Arena family α}
    {size : Nat} (h : b.truncate size = a.truncate size) {id : Id family}
    (hid : id.index < size) : b.get? id = a.get? id := by
  have hg := congrArg (·.get? id) h
  simpa only [get?_truncate, hid, if_true] using hg

namespace Document

namespace AgreeBelow

variable {e : Extent} {d d' : Document} (h : AgreeBelow e d d')

include h

theorem structure_eq {id : StructureId} (hid : id.index < e.structures) :
    d'.structures.get? id = d.structures.get? id :=
  Arena.get?_eq_of_truncate_eq (congrArg Document.structures h) hid

theorem enumeration_eq {id : EnumerationId} (hid : id.index < e.enumerations) :
    d'.enumerations.get? id = d.enumerations.get? id :=
  Arena.get?_eq_of_truncate_eq (congrArg Document.enumerations h) hid

theorem identifier_eq {id : IdentifierId} (hid : id.index < e.identifiers) :
    d'.identifiers.get? id = d.identifiers.get? id :=
  Arena.get?_eq_of_truncate_eq (congrArg Document.identifiers h) hid

theorem specimen_eq {id : SpecimenId} (hid : id.index < e.specimens) :
    d'.specimens.get? id = d.specimens.get? id :=
  Arena.get?_eq_of_truncate_eq (congrArg Document.specimens h) hid

theorem interface_eq {id : InterfaceId} (hid : id.index < e.interfaces) :
    d'.interfaces.get? id = d.interfaces.get? id :=
  Arena.get?_eq_of_truncate_eq (congrArg Document.interfaces h) hid

theorem factory_eq {id : FactoryId} (hid : id.index < e.factories) :
    d'.factories.get? id = d.factories.get? id :=
  Arena.get?_eq_of_truncate_eq (congrArg Document.factories h) hid

theorem instance_eq {id : TemplateId} (hid : id.index < e.templates) :
    d'.templates.get? id = d.templates.get? id :=
  Arena.get?_eq_of_truncate_eq (congrArg Document.templates h) hid

theorem slot?_eq {slot : Slot} (hs : ¬ slot.Above e) : d'.slot? slot = d.slot? slot := by
  cases slot with
  | field f => rw [slot?, slot?, field?, field?, h.structure_eq (Nat.lt_of_not_le hs)]
  | enumerationParameter id => rw [slot?, slot?, h.enumeration_eq (Nat.lt_of_not_le hs)]
  | identifierParameter id => rw [slot?, slot?, h.identifier_eq (Nat.lt_of_not_le hs)]
  | specimenParameter id => rw [slot?, slot?, h.specimen_eq (Nat.lt_of_not_le hs)]
  | factoryParameter id => rw [slot?, slot?, h.factory_eq (Nat.lt_of_not_le hs)]
  | templateArgument id => rw [slot?, slot?, h.instance_eq (Nat.lt_of_not_le hs)]
  | methodParameter id _ _ => rw [slot?, slot?, h.interface_eq (Nat.lt_of_not_le hs)]

theorem declarations_eq : d'.declarations = d.declarations :=
  have hr := congrArg Document.declarations h
  hr

theorem typeNames_eq : d'.typeNames = d.typeNames :=
  have hr := congrArg Document.typeNames h
  hr

end AgreeBelow

/-- What lies below an extent holds types from below. -/
def ClosedBelow (d : Document) (e : Extent) : Prop :=
  ∀ slot t, ¬ slot.Above e → d.slot? slot = some (some t) → t.Below e

/-- All that is registered lies below the extent, and so do the fields that it alters and the
types that are held below. -/
structure CoveredBy (d : Document) (e : Extent) : Prop where
  registered : ∀ x ∈ d.declarations, x.Below e
  listed : ∀ t, d.IsListed t → t.Below e
  alters : ∀ id x, .struct id ∈ d.declarations → d.structures.get? id = some x →
    ∀ a ∈ x.alters, a.field.owner.index < e.structures
  closed : d.ClosedBelow e

theorem Linked.coveredBy {d : Document} (hd : d.Linked) : d.CoveredBy d.extent where
  registered := hd.declarations
  listed _ ht := hd.below_of_isListed ht
  alters id x _ hx a ha := by
    have hf : d.HoldsField a.field :=
      (hd.structures id x hx).members _ (Structure.mem_alters.1 ha)
    rw [HoldsField, field?] at hf
    refine (d.structures.get?_isSome_iff _).1 ?_
    cases hs : d.structures.get? _ with
    | none => simp [hs] at hf
    | some s => rfl
  closed _ _ _ ht := hd.below_of_slot? ht

namespace CoveredBy

variable {e : Extent} {d d' : Document}

theorem agree (hc : d.CoveredBy e) (h : AgreeBelow e d d') : d'.CoveredBy e where
  registered := h.declarations_eq ▸ hc.registered
  listed := by
    intro t ht
    exact hc.listed t (by unfold IsListed at *; rwa [← h.typeNames_eq])
  alters := by
    intro id x hid hx
    rw [h.declarations_eq] at hid
    rw [h.structure_eq (hc.registered _ hid)] at hx
    exact hc.alters id x hid hx
  closed slot t hslot ht := hc.closed slot t hslot (h.slot?_eq hslot ▸ ht)

theorem altersOf_eq_nil (hc : d.CoveredBy e) {f : FieldRef}
    (hf : e.structures ≤ f.owner.index) : d.altersOf f = [] := by
  rw [altersOf, List.flatMap_eq_nil_iff]
  intro id hid
  rw [List.filterMap_eq_nil_iff]
  intro a ha
  obtain ⟨x, hx, hs⟩ := List.mem_filterMap.1 hid
  have hne : a.field ≠ f := by
    rintro rfl
    have hx' : .struct id ∈ d.declarations := by
      cases x <;> cases hs
      exact hx
    cases hg : d.structures.get? id with
    | none => simp [hg] at ha
    | some s =>
      have := hc.alters id s hx' hg a (by simpa [hg] using ha)
      omega
  simp [hne]

theorem alterFaults_eq_nil (hc : d.CoveredBy e) {f : FieldRef}
    (hf : e.structures ≤ f.owner.index) (t : DataType) : d.alterFaults f t = [] := by
  rw [alterFaults, hc.altersOf_eq_nil hf, List.filterMap_nil]

/-- Nothing is lost by withdrawing what is not registered. -/
theorem withdraw_eq (hc : d.CoveredBy e) {x : Declaration} (hx : x.Above e) :
    d.withdraw x = d := by
  have hd : d.declarations.filter (· != x) = d.declarations := by
    rw [List.filter_eq_self]
    intro y hy
    simpa using (hc.registered y hy).ne_of_above hx
  have ht : d.typeNames.filter (fun entry => some entry.2 != x.type?) = d.typeNames := by
    rw [List.filter_eq_self]
    intro entry he
    have hb := hc.listed entry.2 ⟨entry, he, rfl⟩
    have hne : some entry.2 ≠ x.type? := by
      intro hs
      have hxb := (Declaration.below_of_type? hs.symm).1 hb
      exact hxb.ne_of_above hx rfl
    simpa using hne
  simp only [withdraw, hd, ht]

end CoveredBy

theorem agreeBelow_fill {e : Extent} (d : Document) {slot : Slot} (h : slot.Above e)
    (t : DataType) : AgreeBelow e d (d.fill slot t) := by
  cases slot with
  | field f => exact agreeBelow_modifyStructure d h _
  | enumerationParameter id => exact agreeBelow_modifyEnumeration d h _
  | identifierParameter id => exact agreeBelow_modifyIdentifier d h _
  | specimenParameter id => exact agreeBelow_modifySpecimen d h _
  | factoryParameter id => exact agreeBelow_modifyFactory d h _
  | templateArgument id => exact agreeBelow_modifyTemplate d h _
  | methodParameter id method parameter => exact agreeBelow_modifyInterface d h _

end Document

namespace Session

variable {e : Document.Extent} {s : Session}

theorem agreeBelow_recheck (checks : List Check) (hc : s.document.CoveredBy e)
    {x : Declaration} (hx : x.Above e) :
    Document.AgreeBelow e s.document (s.recheck checks x).document := by
  unfold recheck
  split
  · simp only
    split
    · exact .refl e _
    · simp only [modifyDocument, visit, hc.withdraw_eq hx]
      exact .refl e _
  · exact .refl e _

theorem agreeBelow_recheckDefaults (hc : s.document.CoveredBy e) {f : FieldRef}
    (hf : e.structures ≤ f.owner.index) :
    Document.AgreeBelow e s.document (s.recheckDefaults f).document := by
  have own (s : Session) (t : DataType) (default : Option Default) :
      Document.AgreeBelow e s.document (s.recheckDefault f t default).document := by
    unfold recheckDefault
    split
    · exact Document.agreeBelow_modifyStructure _ hf _
    · exact .refl e _
  unfold recheckDefaults
  split
  · rename_i t _ default _ _
    let asked := s.ask (some t) (default.toList ++ (s.document.altersOf f).map (·.2))
    have hown : Document.AgreeBelow e s.document (asked.recheckDefault f t default).document :=
      own asked t default
    simp only [recheckAlters]
    rw [(hc.agree hown).alterFaults_eq_nil hf]
    exact hown
  · exact .refl e _

theorem agreeBelow_recheckSlot (hc : s.document.CoveredBy e) {slot : Slot}
    (hslot : slot.Above e) : Document.AgreeBelow e s.document (s.recheckSlot slot).document := by
  cases slot with
  | field f => exact agreeBelow_recheckDefaults hc hslot
  | _ => exact .refl e _

theorem agreeBelow_recheckOwner (checks : List Check) (hc : s.document.CoveredBy e)
    {owner : Option Declaration} (ho : ∀ x, owner = some x → x.Above e) :
    Document.AgreeBelow e s.document (s.recheckOwner checks owner).document := by
  cases owner with
  | some x => exact agreeBelow_recheck checks hc (ho x rfl)
  | none => exact .refl e _

/-- A name whose slot lies above an extent that covers the document, and whose structure does,
is bound without a trace below. -/
theorem agreeBelow_bind (checks : List Check) (hc : s.document.CoveredBy e) {b : Binding}
    (hslot : b.slot.Above e) (hscope : ∀ id, b.scope = some id → e.structures ≤ id.index)
    (t : DataType) :
    Document.AgreeBelow e s.document (s.bind checks b t).document := by
  have howner (x : Declaration) (hx : b.owner? = some x) : x.Above e := by
    unfold Binding.owner? at hx
    split at hx <;> rename_i hs <;> rw [hs] at hslot
    case h_6 =>
      obtain ⟨id, hid, rfl⟩ := Option.map_eq_some_iff.1 hx
      exact hscope id hid
    all_goals
      cases hx
      exact hslot
  let filled := s.modifyDocument (·.fill b.slot t)
  have hfill : Document.AgreeBelow e s.document filled.document :=
    Document.agreeBelow_fill s.document hslot t
  have hchecked := hfill.trans (agreeBelow_recheckSlot (hc.agree hfill) hslot)
  rw [bind_eq]
  exact hchecked.trans (agreeBelow_recheckOwner checks (hc.agree hchecked) howner)

end Session

end Idl
