import Idl.Proofs.Check.Stable
import Idl.Proofs.Document.Change
import Idl.Proofs.Document.Meaning

/-!
How members are arranged in their structure, and values in their enumeration. The own fields of a
structure are numbered in their order, it is copied from its bases only, and an enumeration that
is nested in it was declared there. A composed value names values in front of it. All of this is
written down once, and nothing that happens to a document later touches it.
-/

namespace Idl

/-- Each composed value refers to positions in front of its own. -/
def Enumeration.Composed (e : Enumeration) : Prop :=
  ∀ (i : Nat) v parts, e.values[i]? = some v → v.parts = some parts → ∀ p ∈ parts, p < i

namespace Enumeration

variable {e e' : Enumeration}

theorem Composed.of_parts (h : e.Composed)
    (hp : e'.values.map (·.parts) = e.values.map (·.parts)) : e'.Composed := by
  intro i v parts hv hparts
  have hi : (e.values.map (·.parts))[i]? = some (some parts) := by
    rw [← hp, List.getElem?_map, hv, Option.map_some, hparts]
  rw [List.getElem?_map] at hi
  obtain ⟨w, hw, hwparts⟩ := Option.map_eq_some_iff.1 hi
  exact h i w parts hw hwparts

theorem Composed.addValue (h : e.Composed) {v : EnumerationValue}
    (hv : ∀ parts, v.parts = some parts → ∀ p ∈ parts, p < e.values.length) :
    (e.addValue v).Composed := by
  intro i w parts hw hparts
  rcases Nat.lt_trichotomy i e.values.length with hi | rfl | hi
  · exact h i w parts (by rwa [Enumeration.addValue, List.getElem?_append_left hi] at hw) hparts
  · rw [Enumeration.addValue, List.getElem?_concat_length] at hw
    cases hw
    exact hv parts hparts
  · rw [Enumeration.addValue, List.getElem?_eq_none (by rw [List.length_append]; exact hi)] at hw
    cases hw

theorem Composed.assignValues (h : e.Composed) : e.assignValues.Composed :=
  h.of_parts (map_assignValues _ (fun _ _ => rfl) e)

end Enumeration

namespace Structure

variable {s s' : Structure}

theorem fields_addMember (s : Structure) (m : Member) :
    (s.addMember m).fields = s.fields ++ (m.field?.map (s.members.length, ·)).toList := by
  simp only [fields, addMember, List.zipIdx_append, List.filterMap_append]
  cases m <;> simp [Member.field?]

theorem nestedEnumerations_addMember (s : Structure) (m : Member) :
    (s.addMember m).nestedEnumerations = s.nestedEnumerations ++ m.enumeration?.toList := by
  simp only [nestedEnumerations, addMember, List.filterMap_append]
  cases m <;> rfl

/-- The bits of the own fields. -/
def bitmasks (s : Structure) : List Nat :=
  s.fields.map (·.2.bitmask)

theorem bitmasks_untyped : s.untyped.bitmasks = s.bitmasks := by
  rw [bitmasks, fields_untyped, List.map_map, bitmasks]
  rfl

theorem length_bitmasks : s.bitmasks.length = s.nextBitmask :=
  List.length_map _

theorem mem_upcopies_untyped {u : Upcopy} :
    Member.upcopy u ∈ s.untyped.members ↔ .upcopy u ∈ s.members := by
  rw [untyped, List.mem_map]
  constructor
  · rintro ⟨m, hm, hu⟩
    cases m <;> cases hu
    exact hm
  · exact fun h => ⟨_, h, rfl⟩

end Structure

namespace Document

variable {d d' : Document} {id : StructureId} {x x' : Structure}

/-- The members of the structure are what they say of it. -/
structure Situated (d : Document) (id : StructureId) (x : Structure) : Prop where
  bitmasks : x.bitmasks = List.range x.bitmasks.length
  upcopies : ∀ u, .upcopy u ∈ x.members → u.base ∈ d.ancestors id
  nested : ∀ e ∈ x.nestedEnumerations, d.HasOwner e (some id)

namespace Situated

theorem of_empty (h : x.members = []) : d.Situated id x where
  bitmasks := by simp [Structure.bitmasks, Structure.fields, h]
  upcopies u hu := by
    rw [h] at hu
    cases hu
  nested e he := by
    rw [Structure.nestedEnumerations, h] at he
    cases he

/-- Neither types nor defaults are spoken of. -/
theorem congr (h : d.Situated id x) (hu : x'.untyped = x.untyped)
    (ha : d'.ancestors id = d.ancestors id) (ho : KeepsOwners d d') : d'.Situated id x' where
  bitmasks := by
    rw [← Structure.bitmasks_untyped, hu, Structure.bitmasks_untyped]
    exact h.bitmasks
  upcopies u hmem := by
    rw [← Structure.mem_upcopies_untyped, hu, Structure.mem_upcopies_untyped] at hmem
    exact ha ▸ h.upcopies u hmem
  nested e he := by
    rw [← Structure.nestedEnumerations_untyped, hu, Structure.nestedEnumerations_untyped] at he
    exact (h.nested e he).mono ho

theorem addMember (h : d.Situated id x) {m : Member} (hm : m.Placed d id x) :
    d.Situated id (x.addMember m) where
  bitmasks := by
    have hmore : (x.addMember m).bitmasks = x.bitmasks ++ (m.field?.map Field.bitmask).toList := by
      rw [Structure.bitmasks, Structure.fields_addMember, List.map_append, Structure.bitmasks]
      cases m.field? <;> rfl
    have hlast : (m.field?.map Field.bitmask).toList =
        (m.field?.map fun _ => x.bitmasks.length).toList := by
      rw [Structure.length_bitmasks]
      cases m with
      | field f | override f _ => exact congrArg (fun n => [n]) hm
      | _ => rfl
    rw [hmore, hlast, h.bitmasks]
    cases m.field? with
    | none => simp
    | some f => simp [List.range_succ]
  upcopies u hu := by
    rcases List.mem_append.1 hu with hu | hu
    · exact h.upcopies u hu
    · cases List.mem_singleton.1 hu
      exact hm
  nested e he := by
    rw [Structure.nestedEnumerations_addMember] at he
    rcases List.mem_append.1 he with he | he
    · exact h.nested e he
    · cases m with
      | enumeration e' =>
        cases List.mem_singleton.1 he
        exact hm
      | _ => cases he

/-- The own fields have their positions among them as bits. -/
theorem bitmask_eq (h : d.Situated id x) {k position : Nat} {f : Field}
    (hf : x.fields[k]? = some (position, f)) : f.bitmask = k := by
  have hk : x.bitmasks[k]? = some f.bitmask := by
    rw [Structure.bitmasks, List.getElem?_map, hf, Option.map_some]
  rw [h.bitmasks] at hk
  obtain ⟨hlt, heq⟩ := List.getElem?_eq_some_iff.1 hk
  rwa [List.getElem_range, eq_comm] at heq

end Situated

/-- What the members of structures and the values of enumerations say of where they stand. -/
structure Arranged (d : Document) : Prop where
  structures : d.structures.All d.Situated
  enumerations : d.enumerations.All fun _ e => e.Composed

/-- The bases of a structure are the same where its base is, and where what lies below it is. -/
theorem Linked.ancestors_eq (hd : d.Linked) (hd' : d'.Linked) {n : Nat}
    (hr : ∀ o : StructureId, o.index < n → Resembles d d' o)
    (hx : d.structures.get? id = some x) (hx' : d'.structures.get? id = some x')
    (hbase : x'.base = x.base) (hb : ∀ b, x.base = some b → b.index < n) :
    d'.ancestors id = d.ancestors id := by
  cases hbx : x.base with
  | none => rw [ancestors, hx', ancestors, hx, Option.bind_some, Option.bind_some, hbase, hbx]
  | some b =>
    have hhas : d.HasBase id b := by rw [HasBase, hx, Option.bind_some, hbx]
    have hhas' : d'.HasBase id b := by rw [HasBase, hx', Option.bind_some, hbase, hbx]
    rw [hd.ancestors_of_hasBase hhas, hd'.ancestors_of_hasBase hhas',
      ancestors_of_resembles hr (hb b hbx)]

theorem Change.composed {e : Extent} {ws : List Binding} {opened : List Slot}
    (h : Change e ws d opened d') (hd : d.enumerations.All fun _ x => x.Composed) :
    d'.enumerations.All fun _ x => x.Composed := by
  cases h with
  | enum x hv hl ho =>
    refine hd.insert fun i v parts hi => ?_
    rw [hv] at hi
    cases hi
  | value hid hv hp =>
    refine hd.modify fun x hx => (hd _ x hx).addValue fun parts hparts position hmem => ?_
    obtain ⟨y, hy, hlt⟩ := hp parts hparts position hmem
    cases hx.symm.trans hy
    exact hlt
  | assignValues hid => exact hd.modify fun x hx => (hd _ x hx).assignValues
  | _ => exact hd

/-- The structures and the values are kept as far as members are concerned. -/
theorem Arranged.congr (h : d.Arranged) (hr : ∀ id, Resembles d d' id) (ho : KeepsOwners d d')
    (hv : ∀ id, (d'.enumerations.get? id).map (·.values) =
      (d.enumerations.get? id).map (·.values)) : d'.Arranged where
  structures id x' hx' := by
    obtain ⟨x, hx, hu⟩ := (hr id).exists_eq hx'
    exact (h.structures id x hx).congr hu
      (ancestors_of_resembles (fun o _ => hr o) (Nat.lt_succ_self id.index)) ho
  enumerations id e' he' := by
    have hvalues := hv id
    rw [he'] at hvalues
    obtain ⟨e, he, heq⟩ := Option.map_eq_some_iff.1 hvalues.symm
    exact (h.enumerations id e he).of_parts (by rw [heq])

end Document

end Idl
