import Idl.Proofs.Check.Stable
import Idl.Proofs.Document.Change
import Idl.Proofs.Document.Literal

/-!
Defaults. A structure gives defaults to its own fields and to fields of its bases. A default is
written where its type admits it; so as long as it is there, it is a value of the type, unless
the class of the type has become known only after it was written.
-/

namespace Idl

theorem Enumeration.isSome_value? {e : Enumeration} {name : String} :
    (e.value? name).isSome ↔ name ∈ e.values.map (·.name.value) := by
  simp [value?]

theorem Structure.alters_untyped (s : Structure) : s.untyped.alters = s.alters :=
  filterMap_untyped fun m => by cases m <;> rfl

namespace Document

variable {d d' : Document} {id : StructureId} {f : FieldRef} {x : Default}

/-- The structure gives a default to the field, its own one or one of its bases. -/
inductive Gives (d : Document) (id : StructureId) : FieldRef → Default → Prop where
  | own {position : Nat} {f : Field} {x : Default} (hf : d.field? ⟨id, position⟩ = some f)
      (hx : f.default = some x) : Gives d id ⟨id, position⟩ x
  | alter {s : Structure} {a : Alter} (hs : d.structures.get? id = some s) (ha : a ∈ s.alters) :
      Gives d id a.field a.default

theorem Gives.index_lt (h : d.Gives id f x) : id.index < d.structures.size := by
  refine (d.structures.get?_isSome_iff id).1 ?_
  cases h with
  | own hf hx =>
    obtain ⟨s, hs, _⟩ := Option.bind_eq_some_iff.1 hf
    exact hs ▸ rfl
  | alter hs ha => exact hs ▸ rfl

theorem field?_modifyField (d : Document) (f : FieldRef) (g : Field → Field) (o : FieldRef) :
    (d.modifyStructure f.owner (·.modifyField f.member g)).field? o =
      if o = f then (d.field? o).map g else d.field? o := by
  obtain ⟨owner, position⟩ := o
  obtain ⟨owner', position'⟩ := f
  simp only [field?, modifyStructure, Arena.get?_modify, FieldRef.mk.injEq]
  by_cases ho : owner = owner'
  · subst ho
    cases d.structures.get? owner with
    | none => simp
    | some s =>
      simp only [if_true, Option.map_some, Option.bind_some, Structure.field?_modifyField,
        true_and, eq_comm (a := position')]
  · simp [ho]

theorem Resembles.alters_eq (h : Resembles d d' id) :
    (d'.structures.get? id).map Structure.alters = (d.structures.get? id).map Structure.alters := by
  have hu := congrArg (Option.map Structure.alters) h
  simpa only [Option.map_map, Function.comp_def, Structure.alters_untyped] using hu

/-- Defaults are only lost where fields lose theirs. -/
theorem Gives.of_resembles (h : d'.Gives id f x) (hr : Resembles d d' id)
    (hf : ∀ f own' x, d'.field? f = some own' → own'.default = some x →
      ∃ own, d.field? f = some own ∧ own.default = some x) : d.Gives id f x := by
  cases h with
  | own hown hx =>
    obtain ⟨own, hown, hx⟩ := hf _ _ _ hown hx
    exact .own hown hx
  | @alter s' a hs ha =>
    have halters := hr.alters_eq
    rw [hs, Option.map_some, eq_comm, Option.map_eq_some_iff] at halters
    obtain ⟨s, hs, halters⟩ := halters
    exact .alter hs (halters ▸ ha)

theorem gives_of_fill {slot : Slot} {t : DataType} (h : (d.fill slot t).Gives id f x) :
    d.Gives id f x := by
  refine h.of_resembles (d.resembles_fill slot t id) fun f own' x hf hx => ?_
  cases slot with
  | field r =>
    rw [fill, field?_modifyField] at hf
    split at hf
    · obtain ⟨own, hown, rfl⟩ := Option.map_eq_some_iff.1 hf
      exact ⟨own, hown, hx⟩
    · exact ⟨own', hf, hx⟩
  | _ => exact ⟨own', hf, hx⟩

namespace Sheds

theorem default (h : d.Sheds d') {own' : Field} (hf : d'.field? f = some own')
    (hx : own'.default = some x) : ∃ own, d.field? f = some own ∧ own.default = some x := by
  induction h generalizing own' with
  | refl => exact ⟨own', hf, hx⟩
  | dropDefault r _ ih =>
    rw [Document.dropDefault, field?_modifyField] at hf
    split at hf
    · obtain ⟨own, _, rfl⟩ := Option.map_eq_some_iff.1 hf
      cases hx
    · exact ih hf hx
  | withdraw _ _ ih => exact ih hf hx

theorem gives (h : d.Sheds d') (hg : d'.Gives id f x) : d.Gives id f x :=
  hg.of_resembles (h.resembles id) fun _ _ _ => h.default

theorem fits (h : d.Sheds d') (hd : d.Linked) {late : Slot → Prop} {t : DataType}
    (ht : t.Below d.extent) (hf : d.Fits late t x) : d'.Fits late t x := by
  refine hf.grows h.grows (.of_eq h.enumerations) hd ht fun slot hopen hfilled _ => ?_
  exact absurd ((h.slot? slot).trans hopen) hfilled

end Sheds

theorem keepsValues_fill (d : Document) (slot : Slot) (t : DataType) :
    KeepsValues d (d.fill slot t) := by
  intro id e he
  have hvalues := d.values_fill slot t id
  rw [he, Option.map_some, Option.map_eq_some_iff] at hvalues
  obtain ⟨e', he', hvalues⟩ := hvalues
  exact ⟨e', he', fun name hn => by rwa [Enumeration.value?, hvalues]⟩

/-- The defaults that structures give to fields fit the types of the fields. -/
def Fitted (d : Document) (late : StructureId → FieldRef → Default → DataType → Slot → Prop)
    (holds : StructureId → Prop) : Prop :=
  ∀ id, holds id → ∀ f x t, d.Gives id f x → d.slot? (.field f) = some (some t) →
    d.Fits (late id f x t) t x

/-- Nothing but registrations, imports and the package is different. -/
theorem Fitted.of_slots {late : StructureId → FieldRef → Default → DataType → Slot → Prop}
    {holds holds' : StructureId → Prop} (hf : d.Fitted late holds) (hd : d.Linked) (g : d.Grows d')
    (hs : ∀ slot, d'.slot? slot = d.slot? slot) (hx : d'.structures = d.structures)
    (he : d'.enumerations = d.enumerations) (hh : ∀ id, holds' id → holds id) :
    d'.Fitted late holds' := by
  intro id hid f x t hg ht
  rw [hs] at ht
  have hgives : d.Gives id f x := hg.of_resembles (.of_eq (by rw [hx])) fun f own x hf hx' =>
    ⟨own, by rwa [field?, hx] at hf, hx'⟩
  have hfits := hf id (hh id hid) f x t hgives ht
  refine hfits.grows g (.of_eq he) hd (hd.below_of_slot? ht) fun slot hopen hfilled _ => ?_
  exact absurd ((hs slot).trans hopen) hfilled

theorem keepsValues_modifyEnumeration (d : Document) (id : EnumerationId)
    {g : Enumeration → Enumeration}
    (hg : ∀ e name, (e.value? name).isSome → ((g e).value? name).isSome) :
    KeepsValues d (d.modifyEnumeration id g) := by
  intro o e he
  simp only [modifyEnumeration, Arena.get?_modify, he]
  split
  · exact ⟨g e, rfl, hg e⟩
  · exact ⟨e, rfl, fun _ hn => hn⟩

section Change

variable {e : Extent} {ws : List Binding} {opened : List Slot}

theorem Change.keepsValues (h : Change e ws d opened d') : KeepsValues d d' := by
  cases h with
  | enum x hv hl ho =>
    intro id y hy
    have hne : id ≠ d.enumerations.next := by
      rintro rfl
      simp [get?_next] at hy
    refine ⟨y, ?_, fun _ hn => hn⟩
    simp only [insertEnumeration, Arena.get?_insert, if_neg hne, hy]
  | @value id v hid hv =>
    refine keepsValues_modifyEnumeration d id fun e name hn => ?_
    rw [Enumeration.isSome_value?] at hn ⊢
    rw [Enumeration.addValue, List.map_append]
    exact List.mem_append_left _ hn
  | @assignValues id hid =>
    refine keepsValues_modifyEnumeration d id fun e name hn => ?_
    rw [Enumeration.isSome_value?] at hn ⊢
    rwa [Enumeration.map_assignValues _ fun _ _ => rfl]
  | _ => exact .of_eq rfl

/-- A field and the member that it is. -/
theorem field?_eq_some {own : Field} : d.field? f = some own ↔ ∃ s m,
    d.structures.get? f.owner = some s ∧ s.members[f.member]? = some m ∧
      m.field? = some own := by
  constructor
  · intro h
    obtain ⟨s, hs, h⟩ := Option.bind_eq_some_iff.1 h
    obtain ⟨m, hm, h⟩ := Option.bind_eq_some_iff.1 h
    exact ⟨s, m, hs, hm, h⟩
  · rintro ⟨s, m, hs, hm, h⟩
    rw [field?, hs, Option.bind_some, Structure.field?, hm]
    exact h

/-- The type of a field was known before the change, or some name means it, or it is a
template. -/
theorem Change.type_field (h : Change e ws d opened d') {t : DataType}
    (ht : d'.slot? (.field f) = some (some t)) :
    (∃ g, d.slot? (.field g) = some (some t)) ∨ d.IsSpelled t := by
  obtain ⟨own, hown, htype⟩ := Option.map_eq_some_iff.1 ht
  obtain ⟨s, m, hs, hm, hfield⟩ := field?_eq_some.1 hown
  rcases (h.stems _ s hs).members _ m hm with hsuits | ⟨y, hy, _, hm⟩
  · exact .inr (hsuits.spelled own t hfield htype)
  · have hown : d.field? f = some own := field?_eq_some.2 ⟨y, m, hy, hm, hfield⟩
    exact .inl ⟨f, by rw [slot?, hown, Option.map_some, htype]⟩

/-- A default that a change adds is a value of the type it is given for, and the others still
fit. -/
theorem Fitted.change {late : StructureId → FieldRef → Default → DataType → Slot → Prop}
    {holds : StructureId → Prop} (hf : d.Fitted late holds) (h : Change e ws d opened d')
    (hd : d.Linked) (he : e ≤ d.extent) : d'.Fitted late holds := by
  have ha := h.adds hd he
  intro id hid f x t hg ht
  have hbelow : t.Below d.extent := by
    rcases ha.fields f t ht with hold | hnew
    · exact hd.below_of_slot? hold
    · exact hnew.below
  suffices hfits : d.Fits (late id f x t) t x by
    refine hfits.grows ha.grows h.keepsValues hd hbelow fun slot hopen hfilled _ => ?_
    exact absurd ((ha.opens slot).2 (.inl hopen)) hfilled
  -- no slot is filled
  have hsame (hheld : (d.slot? (.field f)).isSome) : d.slot? (.field f) = some (some t) := by
    obtain ⟨t?, ht?⟩ := Option.isSome_iff_exists.1 hheld
    cases t? with
    | none => cases ((ha.opens (.field f)).2 (.inl ht?)).symm.trans ht
    | some u => rwa [← (ha.grows.filled _ u ht?).symm.trans ht]
  cases hg with
  | @own position own x hown hx =>
    obtain ⟨s, m, hs, hm, hfield⟩ := field?_eq_some.1 hown
    have htype : own.type = some t := by
      rwa [slot?, hown, Option.map_some, Option.some.injEq] at ht
    rcases (h.stems _ s hs).members _ m hm with hsuits | ⟨y, hy, _, hm⟩
    · refine .of_admits ?_
      have hadmitted := hsuits.admitted
      cases m with
      | field own' | override own' _ =>
        cases hfield
        exact htype ▸ hadmitted x hx
      | _ => cases hfield
    · have hown : d.field? ⟨id, position⟩ = some own := field?_eq_some.2 ⟨y, m, hy, hm, hfield⟩
      refine hf id hid _ x t (.own hown hx) ?_
      rw [slot?, hown, Option.map_some, htype]
  | @alter s a hs ha =>
    rcases (h.stems _ s hs).member (Structure.mem_alters.1 ha) with hsuits | ⟨y, hy, _, hm⟩
    · obtain ⟨_, _, hroot⟩ := hsuits.rooted
      have hslot := hsame (holdsField_iff.1 (holdsField_of_findField? hroot))
      obtain ⟨own, hown, htype⟩ := Option.map_eq_some_iff.1 hslot
      have hadmitted : d.Admits ((d.field? a.field).bind (·.type)) a.default := hsuits.admitted
      rw [hown, Option.bind_some, htype] at hadmitted
      exact .of_admits hadmitted
    · have hheld : d.HoldsField a.field := (hd.structures id y hy).members _ hm
      refine hf id hid _ _ t (.alter hy (Structure.mem_alters.2 hm)) ?_
      exact hsame (holdsField_iff.1 hheld)

end Change

end Document

end Idl
