import Idl.Proofs.Document.Meaning

/-!
Headings while a document is changed. They stay as they are, so each of them goes on to tell in
which source its node was declared.
-/

namespace Idl

namespace Arena

variable {family : Family} {α β : Type} {a : Arena family α} {g : α → β}

/-- What a modification leaves alone is the same everywhere. -/
theorem map_get?_modify {f : α → α} (hf : ∀ x, g (f x) = g x) (id id' : Id family) :
    ((a.modify id f).get? id').map g = (a.get? id').map g := by
  rw [get?_modify]
  split
  · simp [Function.comp_def, hf]
  · rfl

theorem map_get?_insert {node : α} {id : Id family} {b : β}
    (h : ((a.insert node).get? id).map g = some b) : (a.get? id).map g = some b ∨ b = g node := by
  rw [get?_insert] at h
  split at h
  · exact .inr (Option.some.inj h).symm
  · exact .inl h

theorem map_get?_truncate {size : Nat} {id : Id family} {b : β}
    (h : ((a.truncate size).get? id).map g = some b) : (a.get? id).map g = some b := by
  rw [get?_truncate] at h
  split at h
  · exact h
  · cases h

end Arena

namespace Document

variable {d d' d'' : Document} {source : Option SourceId}

/-- Headings that were not there before were written in the source. -/
def HeadedIn (source : Option SourceId) (d d' : Document) : Prop :=
  ∀ x h, d'.heading? x = some h → d.heading? x = some h ∨ h.location.source = source

namespace HeadedIn

theorem refl (source : Option SourceId) (d : Document) : HeadedIn source d d :=
  fun _ _ h => .inl h

theorem trans (h : HeadedIn source d d') (h' : HeadedIn source d' d'') :
    HeadedIn source d d'' := by
  intro x heading hx
  rcases h' x heading hx with hx | hx
  · exact h x heading hx
  · exact .inr hx

theorem of_eq (h : ∀ x, d'.heading? x = d.heading? x) : HeadedIn source d d' :=
  fun x _ hx => .inl (h x ▸ hx)

end HeadedIn

section Modify

variable (x : Declaration)

theorem heading?_modifyStructure {id : StructureId} {f : Structure → Structure}
    (hf : ∀ s, (f s).toHeading = s.toHeading) :
    (d.modifyStructure id f).heading? x = d.heading? x := by
  cases x with
  | struct id' => exact Arena.map_get?_modify hf id id'
  | _ => rfl

theorem heading?_modifyEnumeration {id : EnumerationId} {f : Enumeration → Enumeration}
    (hf : ∀ e, (f e).toHeading = e.toHeading) :
    (d.modifyEnumeration id f).heading? x = d.heading? x := by
  cases x with
  | enum id' => exact Arena.map_get?_modify hf id id'
  | _ => rfl

theorem heading?_modifyInterface {id : InterfaceId} {f : Interface → Interface}
    (hf : ∀ i, (f i).toHeading = i.toHeading) :
    (d.modifyInterface id f).heading? x = d.heading? x := by
  cases x with
  | interface id' => exact Arena.map_get?_modify hf id id'
  | _ => rfl

theorem heading?_modifyFactory {id : FactoryId} {f : Factory → Factory}
    (hf : ∀ x, (f x).toHeading = x.toHeading) :
    (d.modifyFactory id f).heading? x = d.heading? x := by
  cases x with
  | factory id' => exact Arena.map_get?_modify hf id id'
  | _ => rfl

theorem heading?_withdraw (y : Declaration) : (d.withdraw y).heading? x = d.heading? x := by
  cases x <;> rfl

theorem heading?_register (y : Declaration) : (d.register y).heading? x = d.heading? x := by
  cases x <;> rfl

theorem heading?_instantiate (template : Template) (argument : Option DataType) (weak : Bool) :
    (d.instantiate template argument weak).2.heading? x = d.heading? x := by
  unfold instantiate
  split
  · rfl
  · cases x <;> rfl

end Modify

theorem exists_heading {x : Declaration} (hx : x.Below d.extent) :
    ∃ h, d.heading? x = some h := by
  refine Option.isSome_iff_exists.1 ?_
  cases x <;> (rw [heading?, Option.isSome_map]; exact (Arena.get?_isSome_iff _ _).2 hx)

section Insert

variable {x : Declaration} {h : Heading}

theorem heading?_insertStructure {s : Structure}
    (hx : (d.insertStructure s).heading? x = some h) :
    d.heading? x = some h ∨ h = s.toHeading := by
  cases x with
  | struct id => exact Arena.map_get?_insert hx
  | _ => exact .inl hx

theorem heading?_insertEnumeration {e : Enumeration}
    (hx : (d.insertEnumeration e).heading? x = some h) :
    d.heading? x = some h ∨ h = e.toHeading := by
  cases x with
  | enum id => exact Arena.map_get?_insert hx
  | _ => exact .inl hx

theorem heading?_insertIdentifier {i : Identifier}
    (hx : (d.insertIdentifier i).heading? x = some h) :
    d.heading? x = some h ∨ h = i.toHeading := by
  cases x with
  | identifier id => exact Arena.map_get?_insert hx
  | _ => exact .inl hx

theorem heading?_insertSpecimen {s : Specimen}
    (hx : (d.insertSpecimen s).heading? x = some h) :
    d.heading? x = some h ∨ h = s.toHeading := by
  cases x with
  | specimen id => exact Arena.map_get?_insert hx
  | _ => exact .inl hx

theorem heading?_insertInterface {i : Interface}
    (hx : (d.insertInterface i).heading? x = some h) :
    d.heading? x = some h ∨ h = i.toHeading := by
  cases x with
  | interface id => exact Arena.map_get?_insert hx
  | _ => exact .inl hx

theorem heading?_insertFactory {f : Factory}
    (hx : (d.insertFactory f).heading? x = some h) :
    d.heading? x = some h ∨ h = f.toHeading := by
  cases x with
  | factory id => exact Arena.map_get?_insert hx
  | _ => exact .inl hx

theorem headedIn_insertStructure {s : Structure} (hs : s.location.source = source) :
    HeadedIn source d (d.insertStructure s) :=
  fun _ _ hx => (heading?_insertStructure hx).imp_right (by rintro rfl; exact hs)

theorem headedIn_insertEnumeration {e : Enumeration} (he : e.location.source = source) :
    HeadedIn source d (d.insertEnumeration e) :=
  fun _ _ hx => (heading?_insertEnumeration hx).imp_right (by rintro rfl; exact he)

theorem headedIn_insertIdentifier {i : Identifier} (hi : i.location.source = source) :
    HeadedIn source d (d.insertIdentifier i) :=
  fun _ _ hx => (heading?_insertIdentifier hx).imp_right (by rintro rfl; exact hi)

theorem headedIn_insertSpecimen {s : Specimen} (hs : s.location.source = source) :
    HeadedIn source d (d.insertSpecimen s) :=
  fun _ _ hx => (heading?_insertSpecimen hx).imp_right (by rintro rfl; exact hs)

theorem headedIn_insertInterface {i : Interface} (hi : i.location.source = source) :
    HeadedIn source d (d.insertInterface i) :=
  fun _ _ hx => (heading?_insertInterface hx).imp_right (by rintro rfl; exact hi)

theorem headedIn_insertFactory {f : Factory} (hf : f.location.source = source) :
    HeadedIn source d (d.insertFactory f) :=
  fun _ _ hx => (heading?_insertFactory hx).imp_right (by rintro rfl; exact hf)

end Insert

theorem heading?_restore {e : Extent} {x : Declaration} {h : Heading}
    (hx : (d.restore e).heading? x = some h) : d.heading? x = some h := by
  cases x <;> exact Arena.map_get?_truncate hx

theorem headedIn_restore (e : Extent) : HeadedIn source d (d.restore e) :=
  fun _ _ hx => .inl (heading?_restore hx)

end Document

end Idl
