import Idl.Proofs.Document.Number
import Idl.Proofs.Document.Write
import Idl.Proofs.Session.Bind

/-!
Where the parts of a document were written. All that a message can point at is kept with its
location: declarations and their names, members and their defaults, values. What is written to a
document is located where the grammar says; nothing that is done to it later moves anything.
-/

namespace Idl

variable {L : Location → Prop}

/-- The locations in a heading satisfy `L`. -/
structure Heading.Located (L : Location → Prop) (h : Heading) : Prop where
  location : L h.location
  name : L h.name.location

theorem Heading.Located.mono {L' : Location → Prop} {h : Heading} (hl : h.Located L)
    (hL : ∀ l, L l → L' l) : h.Located L' :=
  ⟨hL _ hl.location, hL _ hl.name⟩

/-- A change of a field that leaves its location alone, and sets no default. -/
theorem Member.mem_locations_of_modifyField {g : Field → Field}
    (hl : ∀ f, (g f).location = f.location)
    (hd : ∀ f, (g f).default = f.default ∨ (g f).default = none) {m : Member} {l : Location}
    (h : l ∈ (m.modifyField g).locations) : l ∈ m.locations := by
  have hfield (f : Field)
      (h : l ∈ (g f).location :: ((g f).default.map Default.location).toList) :
      l ∈ f.location :: (f.default.map Default.location).toList := by
    rw [hl] at h
    rcases hd f with hd | hd
    · rwa [hd] at h
    · rw [hd] at h
      exact List.mem_cons.2 (.inl (List.mem_singleton.1 h))
  cases m with
  | field f | override f _ => exact hfield f h
  | _ => exact h

namespace Document

/-- The locations in a document satisfy `L`. -/
structure Located (L : Location → Prop) (d : Document) : Prop where
  heading : ∀ x h, d.heading? x = some h → h.Located L
  members : d.structures.All fun _ s => ∀ m ∈ s.members, ∀ l ∈ m.locations, L l
  values : d.enumerations.All fun _ e => ∀ v ∈ e.values, L v.location

namespace Located

variable {d d' : Document} (h : d.Located L)

include h

theorem mono {L' : Location → Prop} (hL : ∀ l, L l → L' l) : d.Located L' where
  heading x heading hx := (h.heading x heading hx).mono hL
  members := h.members.mono fun _ _ hs m hm l hl => hL l (hs m hm l hl)
  values := h.values.mono fun _ _ he v hv => hL _ (he v hv)

/-- Only what is not located is changed. -/
theorem of_eq (hh : ∀ x, d'.heading? x = d.heading? x) (hs : d'.structures = d.structures)
    (he : d'.enumerations = d.enumerations) : d'.Located L where
  heading x heading hx := h.heading x heading (hh x ▸ hx)
  members := hs ▸ h.members
  values := he ▸ h.values

theorem modifyStructure {id : StructureId} {f : Structure → Structure}
    (hf : ∀ s, (f s).toHeading = s.toHeading)
    (hm : ∀ s : Structure, (∀ m ∈ s.members, ∀ l ∈ m.locations, L l) →
      ∀ m ∈ (f s).members, ∀ l ∈ m.locations, L l) : (d.modifyStructure id f).Located L where
  heading x heading hx := h.heading x heading (heading?_modifyStructure x hf ▸ hx)
  members := h.members.modify fun s hs => hm s (h.members id s hs)
  values := h.values

theorem modifyEnumeration {id : EnumerationId} {f : Enumeration → Enumeration}
    (hf : ∀ e, (f e).toHeading = e.toHeading)
    (hv : ∀ e : Enumeration, (∀ v ∈ e.values, L v.location) → ∀ v ∈ (f e).values, L v.location) :
    (d.modifyEnumeration id f).Located L where
  heading x heading hx := h.heading x heading (heading?_modifyEnumeration x hf ▸ hx)
  members := h.members
  values := h.values.modify fun e he => hv e (h.values id e he)

theorem modifyField {f : FieldRef} {g : Field → Field} (hl : ∀ f, (g f).location = f.location)
    (hd : ∀ f, (g f).default = f.default ∨ (g f).default = none) :
    (d.modifyStructure f.owner fun s => s.modifyField f.member g).Located L := by
  refine h.modifyStructure (fun _ => rfl) fun s hs m hm l hmem => ?_
  obtain ⟨i, hi⟩ := List.getElem?_of_mem hm
  simp only [Structure.modifyField, List.getElem?_modify, Option.map_eq_map,
    Option.map_eq_some_iff] at hi
  obtain ⟨m', hm', rfl⟩ := hi
  refine hs m' (List.mem_of_getElem? hm') l ?_
  split at hmem
  · exact Member.mem_locations_of_modifyField hl hd hmem
  · exact hmem

theorem write (hw : d.Write L (Heading.Located L) d') : d'.Located L := by
  have hheading (x : Declaration) (heading : Heading) (hx : d'.heading? x = some heading) :
      heading.Located L := (hw.heading? hx).elim (h.heading x heading) id
  cases hw with
  | struct x hx hm =>
    exact ⟨hheading, h.members.insert fun m hmem => absurd (hm ▸ hmem) List.not_mem_nil, h.values⟩
  | enum x hx hv =>
    exact ⟨hheading, h.members, h.values.insert fun v hmem => absurd (hv ▸ hmem) List.not_mem_nil⟩
  | identifier | specimen | interface | factory | method | parameter | filter | «instance» =>
    exact ⟨hheading, h.members, h.values⟩
  | base id base => exact h.modifyStructure (fun _ => rfl) fun s hs => hs
  | member id m hm =>
    refine h.modifyStructure (fun _ => rfl) fun s hs m' hmem => ?_
    rcases List.mem_append.1 hmem with hmem | hmem
    · exact hs m' hmem
    · exact List.mem_singleton.1 hmem ▸ hm
  | value id v hv =>
    refine h.modifyEnumeration (fun _ => rfl) fun e he v' hmem => ?_
    rcases List.mem_append.1 hmem with hmem | hmem
    · exact he v' hmem
    · exact List.mem_singleton.1 hmem ▸ hv
  | numbers id =>
    refine h.modifyEnumeration (fun _ => rfl) fun e he v hmem => ?_
    have hlocation : v.location ∈ e.assignValues.values.map (·.location) :=
      List.mem_map_of_mem hmem
    rw [Enumeration.map_assignValues _ fun _ _ => rfl] at hlocation
    obtain ⟨v', hv', heq⟩ := List.mem_map.1 hlocation
    exact heq ▸ he v' hv'

theorem restore (e : Extent) : (d.restore e).Located L where
  heading x heading hx := h.heading x heading (heading?_restore hx)
  members id s hs := by
    refine h.members id s ?_
    rw [Document.restore, Arena.get?_truncate] at hs
    split at hs
    · exact hs
    · cases hs
  values id s hs := by
    refine h.values id s ?_
    rw [Document.restore, Arena.get?_truncate] at hs
    split at hs
    · exact hs
    · cases hs

theorem register (x : Declaration) : (d.register x).Located L :=
  h.of_eq (fun y => heading?_register y x) rfl rfl

theorem withdraw (x : Declaration) : (d.withdraw x).Located L :=
  h.of_eq (fun y => heading?_withdraw y x) rfl rfl

theorem dropDefault (f : FieldRef) : (d.dropDefault f).Located L :=
  h.modifyField (fun _ => rfl) fun _ => .inr rfl

theorem sheds (hs : d.Sheds d') : d'.Located L := by
  induction hs with
  | refl => exact h
  | dropDefault f _ ih => exact ih.dropDefault f
  | withdraw x _ ih => exact ih.withdraw x

theorem fill (slot : Slot) (t : DataType) : (d.fill slot t).Located L := by
  have hheading := (d.alike_fill slot t).heading
  cases slot with
  | field f => exact h.modifyField (fun _ => rfl) fun _ => .inl rfl
  | enumerationParameter id => exact h.modifyEnumeration (fun _ => rfl) fun e he => he
  | _ => exact h.of_eq hheading rfl rfl

theorem note (imports : List Import) (package : Option Package) :
    (d.note imports package).Located L :=
  h.of_eq (d.alike_note imports package).heading rfl rfl

end Located

end Document

end Idl
