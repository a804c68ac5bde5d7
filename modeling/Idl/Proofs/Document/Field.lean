import Mathlib.Logic.Relation
import Mathlib.Order.Defs.Unbundled
import Idl.Proofs.Document.Link

/-!
The chain of bases. Bases lie before what derives from them, so the chain ends, and to inherit
is a partial order. What is found by a name along the chain is a field.
-/

namespace Idl

theorem Structure.field?_of_findField? {s : Structure} {name : String} {position : Nat}
    (h : s.findField? name = some position) :
    ∃ f, s.field? position = some f ∧ f.name.value = name := by
  obtain ⟨⟨i, f⟩, hf, rfl⟩ := Option.map_eq_some_iff.1 h
  obtain ⟨⟨m, j⟩, hm, hs⟩ := List.mem_filterMap.1 (List.mem_of_find?_eq_some hf)
  obtain ⟨g, hg, he⟩ := Option.map_eq_some_iff.1 hs
  have hget : s.members[j]? = some m := by
    simpa using List.mem_zipIdx_iff_getElem?.1 hm
  cases he
  exact ⟨f, by rw [field?, hget]; exact hg, by simpa using List.find?_some hf⟩

namespace Document

variable {d : Document}

theorem holdsField_of_findField? {id : StructureId} {name : String} {f : FieldRef}
    (h : d.findField? id name = some f) : d.HoldsField f := by
  obtain ⟨owner, _, ho⟩ := List.exists_of_findSome?_eq_some h
  obtain ⟨position, hp, rfl⟩ := Option.map_eq_some_iff.1 ho
  obtain ⟨s, hs, hp⟩ := Option.bind_eq_some_iff.1 hp
  obtain ⟨g, hg, _⟩ := Structure.field?_of_findField? hp
  simp [HoldsField, field?, hs, hg]

theorem index_lt_of_mem_ancestors {a id : StructureId} (h : a ∈ d.ancestors id) :
    a.index < id.index := by
  induction hn : id.index using Nat.strongRecOn generalizing id with
  | ind n ih =>
    rw [ancestors] at h
    split at h
    · rename_i base _
      split at h
      · rename_i hlt
        rcases List.mem_cons.1 h with rfl | h
        · exact hn ▸ hlt
        · exact Nat.lt_trans (ih base.index (hn ▸ hlt) h rfl) (hn ▸ hlt)
      · cases h
    · cases h

theorem index_le_of_inherits {id base : StructureId} (h : d.inherits id base = true) :
    base.index ≤ id.index := by
  rcases List.mem_cons.1 (List.contains_iff_mem.1 h) with rfl | h
  · exact Nat.le_refl _
  · exact Nat.le_of_lt (index_lt_of_mem_ancestors h)

/-- The base of a structure. -/
def HasBase (d : Document) (id base : StructureId) : Prop :=
  (d.structures.get? id).bind (·.base) = some base

namespace Linked

theorem index_lt_of_hasBase (hd : d.Linked) {id base : StructureId} (h : d.HasBase id base) :
    base.index < id.index := by
  obtain ⟨s, hs, hb⟩ := Option.bind_eq_some_iff.1 h
  exact (hd.structures id s hs).base base hb

/-- The walk along the bases comes to an end. -/
theorem wellFounded_hasBase (hd : d.Linked) : WellFounded fun base id => d.HasBase id base :=
  Subrelation.wf (fun h => hd.index_lt_of_hasBase h) (measure fun id : StructureId => id.index).wf

/-- In a linked document the walk never has to ask whether it goes back. -/
theorem ancestors_of_hasBase (hd : d.Linked) {id base : StructureId} (h : d.HasBase id base) :
    d.ancestors id = base :: d.ancestors base := by
  have hlt := hd.index_lt_of_hasBase h
  unfold HasBase at h
  rw [ancestors]
  simp only [h, hlt, if_true]

/-- To inherit is to be led to by bases. -/
theorem inherits_iff (hd : d.Linked) {id base : StructureId} :
    d.inherits id base = true ↔ Relation.ReflTransGen d.HasBase id base := by
  rw [inherits, List.contains_iff_mem, lineage]
  constructor
  · intro h
    induction hn : id.index using Nat.strongRecOn generalizing id with
    | ind n ih =>
      rcases List.mem_cons.1 h with rfl | h
      · exact .refl
      · cases hb : (d.structures.get? id).bind (·.base) with
        | none =>
          rw [ancestors, hb] at h
          cases h
        | some direct =>
          have hlt := hd.index_lt_of_hasBase hb
          rw [hd.ancestors_of_hasBase hb] at h
          exact .head hb (ih direct.index (hn ▸ hlt) h rfl)
  · intro h
    induction h using Relation.ReflTransGen.head_induction_on with
    | refl => exact List.mem_cons_self
    | head hb _ ih =>
      rw [hd.ancestors_of_hasBase hb]
      exact List.mem_cons_of_mem _ ih

/-- What lies above a structure is what its bases lead to, at least one of them. -/
theorem transGen_of_mem_ancestors (hd : d.Linked) {id base : StructureId}
    (h : base ∈ d.ancestors id) : Relation.TransGen d.HasBase id base := by
  cases hb : (d.structures.get? id).bind (·.base) with
  | none =>
    rw [ancestors, hb] at h
    cases h
  | some direct =>
    rw [hd.ancestors_of_hasBase hb] at h
    exact .head' hb (hd.inherits_iff.1 (List.contains_iff_mem.2 h))

theorem isPartialOrder_inherits (hd : d.Linked) :
    IsPartialOrder StructureId fun id base => d.inherits id base = true where
  refl id := hd.inherits_iff.2 .refl
  trans a b c hab hbc := hd.inherits_iff.2 ((hd.inherits_iff.1 hab).trans (hd.inherits_iff.1 hbc))
  antisymm a b hab hba := by
    have hi := Nat.le_antisymm (index_le_of_inherits hba) (index_le_of_inherits hab)
    cases a
    cases b
    exact congrArg Id.mk hi

end Linked

end Document

end Idl
