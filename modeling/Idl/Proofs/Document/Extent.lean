import Idl.Document.Basic

/-!
Extents of documents. To restore a document to an extent forgets exactly what lies above it:
inserting a node, or changing one above the extent, is not seen any more. Two documents agree
below an extent if they are the same once both are restored to it.
-/

namespace Idl

namespace Arena

variable {family : Family} {α : Type}

theorem truncate_insert (a : Arena family α) (node : α) {size : Nat} (h : size ≤ a.size) :
    (a.insert node).truncate size = a.truncate size := by
  apply ext'
  intro i
  rw [get?_truncate, get?_truncate, get?_insert]
  split
  · rename_i hi
    have hne : (⟨i⟩ : Id family) ≠ a.next := by
      intro he
      have : i = a.size := congrArg Id.index he
      exact Nat.not_le_of_lt hi (this ▸ h)
    rw [if_neg hne]
  · rfl

theorem truncate_modify (a : Arena family α) (id : Id family) (f : α → α) {size : Nat}
    (h : size ≤ id.index) : (a.modify id f).truncate size = a.truncate size := by
  apply ext'
  intro i
  rw [get?_truncate, get?_truncate, get?_modify]
  split
  · rename_i hi
    have hne : (⟨i⟩ : Id family) ≠ id := by
      rintro rfl
      exact Nat.not_le_of_lt hi h
    rw [if_neg hne]
  · rfl

theorem truncate_truncate (a : Arena family α) {m n : Nat} (h : m ≤ n) :
    (a.truncate n).truncate m = a.truncate m := by
  apply ext'
  intro i
  simp only [get?_truncate]
  split
  · rename_i hi
    rw [if_pos (Nat.lt_of_lt_of_le hi h)]
  · rfl

end Arena

namespace Document

namespace Extent

instance : LE Extent where
  le a b :=
    a.structures ≤ b.structures ∧ a.enumerations ≤ b.enumerations ∧
      a.identifiers ≤ b.identifiers ∧ a.specimens ≤ b.specimens ∧
      a.interfaces ≤ b.interfaces ∧ a.factories ≤ b.factories ∧ a.templates ≤ b.templates

theorem le_iff {a b : Extent} :
    a ≤ b ↔ a.structures ≤ b.structures ∧ a.enumerations ≤ b.enumerations ∧
      a.identifiers ≤ b.identifiers ∧ a.specimens ≤ b.specimens ∧
      a.interfaces ≤ b.interfaces ∧ a.factories ≤ b.factories ∧ a.templates ≤ b.templates :=
  Iff.rfl

theorem le_refl (a : Extent) : a ≤ a := by
  simp [le_iff]

theorem le_trans {a b c : Extent} (hab : a ≤ b) (hbc : b ≤ c) : a ≤ c := by
  simp only [le_iff] at *
  omega

end Extent

/-- Two documents that are the same below an extent, and in all that is in no arena. -/
def AgreeBelow (e : Extent) (d d' : Document) : Prop :=
  d'.restore e = d.restore e

namespace AgreeBelow

variable {e e' : Extent} {d d' d'' : Document}

theorem refl (e : Extent) (d : Document) : AgreeBelow e d d :=
  rfl

theorem trans (h : AgreeBelow e d d') (h' : AgreeBelow e d' d'') : AgreeBelow e d d'' :=
  Eq.trans h' h

end AgreeBelow

theorem restore_restore (d : Document) {e e' : Extent} (h : e ≤ e') :
    (d.restore e').restore e = d.restore e := by
  obtain ⟨h1, h2, h3, h4, h5, h6, h7⟩ := h
  have hs : (fun x : (Template × DataType × Bool) × TemplateId =>
      decide (x.2.index < e.templates) && decide (x.2.index < e'.templates)) =
      fun x => decide (x.2.index < e.templates) := by
    funext x
    by_cases hx : x.2.index < e.templates
    · simp [hx, Nat.lt_of_lt_of_le hx h7]
    · simp [hx]
  simp [restore, Arena.truncate_truncate, List.filter_filter, *]

theorem le_extent_restore {d : Document} {e e' : Extent} (h : e ≤ e') (hd : e ≤ d.extent) :
    e ≤ (d.restore e').extent := by
  simp only [Extent.le_iff, extent, restore, Arena.size_truncate] at *
  omega

/-- A document that shares no instance above its extent is restored by it to itself. -/
theorem restore_extent (d : Document)
    (h : ∀ entry ∈ d.shared, entry.2.index < d.templates.size) :
    d.restore d.extent = d := by
  have hs : d.shared.filter (fun x => decide (x.2.index < d.templates.size)) = d.shared :=
    List.filter_eq_self.2 fun x hx => by simpa using h x hx
  cases d
  simp only [restore, extent, Arena.truncate_size_self, mk.injEq, true_and]
  exact hs

section Insert

variable {e : Extent} (d : Document) (h : e ≤ d.extent)

include h

theorem agreeBelow_insertStructure (x : Structure) : AgreeBelow e d (d.insertStructure x) := by
  simp [AgreeBelow, restore, insertStructure, Arena.truncate_insert _ _ h.1]

theorem agreeBelow_insertEnumeration (x : Enumeration) :
    AgreeBelow e d (d.insertEnumeration x) := by
  simp [AgreeBelow, restore, insertEnumeration, Arena.truncate_insert _ _ h.2.1]

theorem agreeBelow_insertIdentifier (x : Identifier) :
    AgreeBelow e d (d.insertIdentifier x) := by
  simp [AgreeBelow, restore, insertIdentifier, Arena.truncate_insert _ _ h.2.2.1]

theorem agreeBelow_insertSpecimen (x : Specimen) : AgreeBelow e d (d.insertSpecimen x) := by
  simp [AgreeBelow, restore, insertSpecimen, Arena.truncate_insert _ _ h.2.2.2.1]

theorem agreeBelow_insertInterface (x : Interface) : AgreeBelow e d (d.insertInterface x) := by
  simp [AgreeBelow, restore, insertInterface, Arena.truncate_insert _ _ h.2.2.2.2.1]

theorem agreeBelow_insertFactory (x : Factory) : AgreeBelow e d (d.insertFactory x) := by
  simp [AgreeBelow, restore, insertFactory, Arena.truncate_insert _ _ h.2.2.2.2.2.1]

/-- A new instance lies above the extent, and so does the entry that shares it. -/
theorem agreeBelow_insertInstance (x : Instance) : AgreeBelow e d (d.insertInstance x) := by
  have ht : e.templates ≤ d.templates.size := h.2.2.2.2.2.2
  have hn : ¬ d.templates.next.index < e.templates := Nat.not_lt_of_le ht
  cases ha : x.argument <;>
    simp [AgreeBelow, restore, insertInstance, Arena.truncate_insert _ _ ht, ha, hn]

end Insert

section Modify

variable {e : Extent} (d : Document)

theorem agreeBelow_modifyStructure {id : StructureId} (h : e.structures ≤ id.index)
    (f : Structure → Structure) : AgreeBelow e d (d.modifyStructure id f) := by
  simp [AgreeBelow, restore, modifyStructure, Arena.truncate_modify _ _ _ h]

theorem agreeBelow_modifyEnumeration {id : EnumerationId} (h : e.enumerations ≤ id.index)
    (f : Enumeration → Enumeration) : AgreeBelow e d (d.modifyEnumeration id f) := by
  simp [AgreeBelow, restore, modifyEnumeration, Arena.truncate_modify _ _ _ h]

theorem agreeBelow_modifyIdentifier {id : IdentifierId} (h : e.identifiers ≤ id.index)
    (f : Identifier → Identifier) : AgreeBelow e d (d.modifyIdentifier id f) := by
  simp [AgreeBelow, restore, modifyIdentifier, Arena.truncate_modify _ _ _ h]

theorem agreeBelow_modifySpecimen {id : SpecimenId} (h : e.specimens ≤ id.index)
    (f : Specimen → Specimen) : AgreeBelow e d (d.modifySpecimen id f) := by
  simp [AgreeBelow, restore, modifySpecimen, Arena.truncate_modify _ _ _ h]

theorem agreeBelow_modifyInterface {id : InterfaceId} (h : e.interfaces ≤ id.index)
    (f : Interface → Interface) : AgreeBelow e d (d.modifyInterface id f) := by
  simp [AgreeBelow, restore, modifyInterface, Arena.truncate_modify _ _ _ h]

theorem agreeBelow_modifyFactory {id : FactoryId} (h : e.factories ≤ id.index)
    (f : Factory → Factory) : AgreeBelow e d (d.modifyFactory id f) := by
  simp [AgreeBelow, restore, modifyFactory, Arena.truncate_modify _ _ _ h]

theorem agreeBelow_modifyTemplate {id : TemplateId} (h : e.templates ≤ id.index)
    (f : Instance → Instance) : AgreeBelow e d (d.modifyTemplate id f) := by
  simp [AgreeBelow, restore, modifyTemplate, Arena.truncate_modify _ _ _ h]

end Modify

end Document

end Idl
