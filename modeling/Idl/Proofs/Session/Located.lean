import Idl.Proofs.Document.Located
import Idl.Proofs.Session.Report

/-!
Where the messages of a session point. What is wrong is looked for in the document, so a message
about it points at what the document holds, whichever source is read at the moment.
-/

namespace Idl

variable {L : Location → Prop}

namespace Member

variable {m : Member} {f : Field}

theorem location_of_field? (h : m.field? = some f) : f.location ∈ m.locations := by
  cases m <;> cases h <;> exact List.mem_cons_self

theorem default_of_field? (h : m.field? = some f) {default : Default}
    (hd : f.default = some default) : default.location ∈ m.locations := by
  cases m <;> cases h <;> simp [locations, hd]

end Member

theorem Structure.exists_member_of_mem_fields {s : Structure} {entry : Nat × Field}
    (h : entry ∈ s.fields) : ∃ m ∈ s.members, m.field? = some entry.2 := by
  obtain ⟨⟨m, position⟩, hm, he⟩ := List.mem_filterMap.1 h
  obtain ⟨f, hf, rfl⟩ := Option.map_eq_some_iff.1 he
  exact ⟨m, (List.mem_zipIdx' hm).2 ▸ List.getElem_mem _, hf⟩

namespace Check

/-- A check whose messages point at what the document holds. -/
def Points (check : Check) : Prop :=
  ∀ (L : Location → Prop) (d : Document), d.Located L →
    ∀ subject, ∀ m ∈ (check.run d subject).messages, L m.location

variable {d : Document}

theorem points_parameterType (target : Target) (allowed : List Builtin) :
    (parameterType target allowed).Points := by
  intro L d h subject m hm
  have htarget {location : Location} {t? : Option DataType}
      (ht : target.parameter? d subject = some (location, t?)) : L location := by
    unfold Target.parameter? at ht
    split at ht
    · rename_i id
      cases target with
      | identifier => cases ht
      | enumeration =>
        obtain ⟨e, he, heq⟩ := Option.map_eq_some_iff.1 ht
        cases heq
        exact (h.heading (.enum id) e.toHeading (by rw [Document.heading?, he]; rfl)).location
    · rename_i id
      cases target with
      | enumeration => cases ht
      | identifier =>
        obtain ⟨i, hi, heq⟩ := Option.map_eq_some_iff.1 ht
        cases heq
        exact (h.heading (.identifier id) i.toHeading (by rw [Document.heading?, hi]; rfl)).location
    · cases ht
  simp only [parameterType] at hm
  split at hm
  · rename_i location t ht
    split at hm
    · cases hm
    · cases List.mem_singleton.1 hm
      exact htarget ht
  · cases hm

theorem points_memberFaults (h : d.Located L) {id : StructureId} {s : Structure}
    (hs : d.structures.get? id = some s) (before : List Member) {m : Member} (hm : m ∈ s.members) :
    ∀ fault ∈ memberFaults d s before m, L fault.location := by
  have hlocation := h.members id s hs m hm
  intro fault hfault
  cases m with
  | field f =>
    have hl := hlocation f.location List.mem_cons_self
    simp only [memberFaults] at hfault
    split at hfault
    · exact List.mem_singleton.1 hfault ▸ hl
    · split at hfault
      · exact List.mem_singleton.1 hfault ▸ hl
      · cases hfault
  | override f _ =>
    have hl := hlocation f.location List.mem_cons_self
    simp only [memberFaults] at hfault
    split at hfault
    · exact List.mem_singleton.1 hfault ▸ hl
    · cases hfault
  | identification i =>
    simp only [memberFaults] at hfault
    split at hfault
    · exact List.mem_singleton.1 hfault ▸ hlocation i.location List.mem_cons_self
    · cases hfault
  | operator o =>
    simp only [memberFaults] at hfault
    split at hfault
    · exact List.mem_singleton.1 hfault ▸ hlocation o.location List.mem_cons_self
    · cases hfault
  | alter _ | enumeration _ | upcopy _ => cases hfault

theorem get?_of_structure? {subject : Subject} {s : Structure}
    (hs : structure? d subject = some s) :
    ∃ id, subject = .declaration (.struct id) ∧ d.structures.get? id = some s := by
  unfold structure? at hs
  split at hs
  · exact ⟨_, rfl, hs⟩
  · cases hs

theorem points_structureFields : structureFields.Points := by
  intro L d h subject fault hfault
  simp only [structureFields] at hfault
  split at hfault
  · rename_i s hs
    obtain ⟨id, _, hs⟩ := get?_of_structure? hs
    obtain ⟨⟨m, position⟩, hm, hfault⟩ := List.mem_flatMap.1 hfault
    exact points_memberFaults h hs _ ((List.mem_zipIdx' hm).2 ▸ List.getElem_mem _) fault hfault
  · cases hfault

theorem points_structureSharable : structureSharable.Points := by
  intro L d h subject fault hfault
  simp only [structureSharable] at hfault
  split at hfault
  · rename_i s hs
    obtain ⟨id, _, hs⟩ := get?_of_structure? hs
    change fault ∈ sharableFaults d s at hfault
    unfold sharableFaults at hfault
    split at hfault
    · obtain ⟨⟨position, f⟩, hf, hfault⟩ := List.mem_filterMap.1 hfault
      obtain ⟨m, hm, hfield⟩ := Structure.exists_member_of_mem_fields hf
      have hl := h.members id s hs m hm f.location (Member.location_of_field? hfield)
      simp only at hfault
      split at hfault
      · split at hfault
        · cases hfault
        · cases hfault
          exact hl
      · cases hfault
    · split at hfault
      · split at hfault
        · cases List.mem_singleton.1 hfault
          exact (h.heading (.struct id) s.toHeading (by rw [Document.heading?, hs]; rfl)).location
        · cases hfault
      · cases hfault
  · cases hfault

theorem points_enumerationValues : enumerationValues.Points := by
  intro L d h subject fault hfault
  simp only [enumerationValues] at hfault
  split at hfault
  · split at hfault
    · rename_i id _ e he
      obtain ⟨⟨v, position⟩, hv, hfault⟩ := List.mem_flatMap.1 hfault
      have hl := h.values id e he v ((List.mem_zipIdx' hv).2 ▸ List.getElem_mem _)
      unfold valueFaults at hfault
      rcases List.mem_append.1 hfault with hfault | hfault
      · split at hfault
        · exact List.mem_singleton.1 hfault ▸ hl
        · cases hfault
      · split at hfault
        · exact List.mem_singleton.1 hfault ▸ hl
        · cases hfault
    · cases hfault
  · cases hfault

theorem points_duplicateDeclaration : duplicateDeclaration.Points := by
  intro L d h subject fault hfault
  cases subject with
  | declaration x => cases hfault
  | document =>
    obtain ⟨⟨x, position⟩, hx, hfault⟩ := List.mem_filterMap.1 hfault
    simp only at hfault
    split at hfault
    · obtain ⟨name, hname, rfl⟩ := Option.map_eq_some_iff.1 hfault
      obtain ⟨heading, hheading, rfl⟩ := Option.map_eq_some_iff.1 hname
      exact (h.heading x heading hheading).name
    · cases hfault

/-- The standard checks point at what the document holds. -/
theorem points_standard : ∀ check ∈ standard, check.Points := by
  intro check hcheck
  simp only [standard, List.mem_cons, List.not_mem_nil, or_false] at hcheck
  rcases hcheck with rfl | rfl | rfl | rfl | rfl | rfl
  · exact points_parameterType _ _
  · exact points_parameterType _ _
  · exact points_structureFields
  · exact points_structureSharable
  · exact points_enumerationValues
  · exact points_duplicateDeclaration

end Check

namespace Session

/-- The locations in the document and those of the messages satisfy `L`. -/
structure Located (L : Location → Prop) (s : Session) : Prop where
  document : s.document.Located L
  messages : ∀ m ∈ s.messages, L m.location

namespace Located

variable {s : Session}

theorem reportAll (h : s.Located L) {messages : List Message}
    (hm : ∀ m ∈ messages, L m.location) : (s.reportAll messages).Located L :=
  ⟨h.document, fun m hmem => (List.mem_append.1 hmem).elim (h.messages m) (hm m)⟩

theorem report (h : s.Located L) {m : Message} (hm : L m.location) : (s.report m).Located L :=
  h.reportAll fun _ hmem => List.mem_singleton.1 hmem ▸ hm

theorem modifyDocument (h : s.Located L) {f : Document → Document}
    (hf : (f s.document).Located L) : (s.modifyDocument f).Located L :=
  ⟨hf, h.messages⟩

theorem recheckDefault (h : s.Located L) (f : FieldRef) (t : DataType) {default : Option Default}
    (hd : ∀ x, default = some x → L x.location) : (s.recheckDefault f t default).Located L := by
  unfold Session.recheckDefault
  split
  · rename_i fault hfault
    obtain ⟨x, hx, hfault⟩ := Option.bind_eq_some_iff.1 hfault
    have hl : L fault.location := Document.location_of_defaultFault? hfault ▸ hd x hx
    exact (h.report hl).modifyDocument (h.document.dropDefault f)
  · exact h

theorem recheckAlters (h : s.Located L) (f : FieldRef) (t : DataType) :
    (s.recheckAlters f t).Located L := by
  have hsheds := sheds_foldl_withdraw (.refl s.document) (s.document.alterFaults f t)
  refine ⟨h.document.sheds hsheds, (h.reportAll fun m hm => ?_).messages⟩
  obtain ⟨fault, hfault, rfl⟩ := List.mem_map.1 hm
  obtain ⟨x, a, hx, ha, hfault⟩ := Document.exists_alter_of_mem_alterFaults hfault
  rw [Document.location_of_defaultFault? hfault]
  exact h.document.members _ x hx _ (Structure.mem_alters.1 ha) _ List.mem_cons_self

/-- A default that is checked again was written with its field. -/
theorem recheckSlot (h : s.Located L) (slot : Slot) : (s.recheckSlot slot).Located L := by
  cases slot with
  | field f =>
    simp only [Session.recheckSlot, recheckDefaults]
    split
    · rename_i own t _ default _ hfield
      let asked := s.ask (some t) (default.toList ++ (s.document.altersOf f).map (·.2))
      have hasked : asked.Located L := ⟨h.document, h.messages⟩
      refine (hasked.recheckDefault f _ fun x hx => ?_).recheckAlters f _
      obtain ⟨owner, howner, hfield⟩ := Option.bind_eq_some_iff.1 hfield
      obtain ⟨m, hm, hfield⟩ := Option.bind_eq_some_iff.1 hfield
      exact h.document.members _ owner howner m (List.mem_of_getElem? hm) _
        (Member.default_of_field? hfield hx)
    · exact h
  | _ => exact h

theorem reportUnresolved (h : s.Located L) {pending : List Binding}
    (hp : ∀ b ∈ pending, L b.unresolved.location) :
    (s.reportUnresolved pending).Located L := by
  refine h.reportAll fun m hm => ?_
  obtain ⟨b, hb, rfl⟩ := List.mem_map.1 hm
  exact hp b hb

variable {checks : List Check} (hc : ∀ check ∈ checks, check.Points)

include hc

theorem visit (h : s.Located L) (subject : Subject) (late : Bool) :
    (s.visit checks subject late).2.Located L := by
  rw [visit_eq]
  refine ⟨h.document, fun m hm => ?_⟩
  rcases List.mem_append.1 hm with hm | hm
  · exact h.messages m hm
  · exact Check.forall_runAll (P := fun m => L m.location) (fun check hcheck =>
      hc check (Check.mem_of_mem_called hcheck) L _ h.document subject) m hm

theorem recheck (h : s.Located L) (x : Declaration) : (s.recheck checks x).Located L := by
  have hvisit := h.visit hc (.declaration x) true
  unfold Session.recheck
  split
  · simp only
    split
    · exact hvisit
    · exact hvisit.modifyDocument (hvisit.document.withdraw x)
  · exact h

theorem bind (h : s.Located L) (b : Binding) (t : DataType) : (s.bind checks b t).Located L := by
  have hslot := (h.modifyDocument (f := (·.fill b.slot t)) (h.document.fill b.slot t)).recheckSlot
    b.slot
  rw [bind_eq]
  unfold recheckOwner
  split
  · exact hslot.recheck hc _
  · exact hslot

theorem settle (h : s.Located L) {find : Session → Binding → Option DataType}
    (pending : List Binding) : (s.settle checks find pending).1.Located L :=
  settle_invariant (I := fun s' _ => s'.Located L)
    (fun _ _ b _ t h _ => h.bind hc b t) s pending h

end Located

end Session

end Idl
