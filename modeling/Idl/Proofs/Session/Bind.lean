import Idl.Proofs.Document.Link

/-!
What binding a name does to a session. The slot is filled; after that a document only sheds a
default or a registration. Messages and calls are added, and what is not the document, the
messages or the calls stays as it is.
-/

namespace Idl

namespace Document

/-- What is said about a default that is no value of its type, is said where it stands. -/
theorem eq_of_defaultFault? {d : Document} {t : DataType} {statement : String}
    {default : Default} {fault : Message} (h : d.defaultFault? t statement default = some fault) :
    ∃ wanted, fault =
      .of .expectValue default.location [(.type, wanted), (.statement, statement)] := by
  cases default with
  | optional _ => cases h
  | literal value kind location =>
    simp only [Document.defaultFault?] at h
    split at h <;> cases h
    exact ⟨_, rfl⟩

theorem severity_of_defaultFault? {d : Document} {t : DataType} {statement : String}
    {default : Default} {fault : Message} (h : d.defaultFault? t statement default = some fault) :
    fault.severity = .error := by
  obtain ⟨wanted, rfl⟩ := eq_of_defaultFault? h
  rfl

theorem isFinding_of_defaultFault? {d : Document} {t : DataType} {statement : String}
    {default : Default} {fault : Message} (h : d.defaultFault? t statement default = some fault) :
    fault.kind.isFinding = false := by
  obtain ⟨wanted, rfl⟩ := eq_of_defaultFault? h
  rfl

theorem location_of_defaultFault? {d : Document} {t : DataType} {statement : String}
    {default : Default} {fault : Message} (h : d.defaultFault? t statement default = some fault) :
    fault.location = default.location := by
  obtain ⟨wanted, rfl⟩ := eq_of_defaultFault? h
  rfl

/-- The literal class of each type is found, or it is found that it is not known. -/
def Decided (d : Document) : Prop :=
  ∀ t, (d.literal? t).isSome

theorem Decided.isEndless_eq {d : Document} (h : d.Decided) (t : DataType) (default : Default) :
    d.isEndless t default = false := by
  cases default with
  | optional _ => rfl
  | literal value kind location =>
    simpa [isEndless, accepts, Option.isSome_iff_ne_none] using h t

/-- What is wrong with an alter is wrong with its default. -/
theorem exists_alter_of_mem_alterFaults {d : Document} {f : FieldRef} {t : DataType}
    {fault : StructureId × Message} (h : fault ∈ d.alterFaults f t) :
    ∃ s a, d.structures.get? fault.1 = some s ∧ a ∈ s.alters ∧
      d.defaultFault? t "alter" a.default = some fault.2 := by
  obtain ⟨entry, hentry, hfault⟩ := List.mem_filterMap.1 h
  obtain ⟨m, hm, rfl⟩ := Option.map_eq_some_iff.1 hfault
  obtain ⟨id, _, hid⟩ := List.mem_flatMap.1 hentry
  obtain ⟨a, hmem, ha⟩ := List.mem_filterMap.1 hid
  split at ha
  · cases ha
    cases hs : d.structures.get? id with
    | none => simp [hs] at hmem
    | some s => exact ⟨s, a, by simp, by simpa [hs] using hmem, hm⟩
  · cases ha

theorem defaultFault?_of_mem_alterFaults {d : Document} {f : FieldRef} {t : DataType}
    {fault : StructureId × Message} (h : fault ∈ d.alterFaults f t) :
    ∃ default, d.defaultFault? t "alter" default = some fault.2 := by
  obtain ⟨_, a, _, _, hfault⟩ := exists_alter_of_mem_alterFaults h
  exact ⟨a.default, hfault⟩

/-- A document that has lost some defaults and some registrations, and nothing else. -/
inductive Sheds : Document → Document → Prop where
  | refl (d : Document) : Sheds d d
  | dropDefault {d d' : Document} (f : FieldRef) : Sheds d d' → Sheds d (d'.dropDefault f)
  | withdraw {d d' : Document} (x : Declaration) : Sheds d d' → Sheds d (d'.withdraw x)

namespace Sheds

variable {d d' d'' : Document}

theorem trans (h : Sheds d d') (h' : Sheds d' d'') : Sheds d d'' := by
  induction h' with
  | refl => exact h
  | dropDefault f _ ih => exact ih.dropDefault f
  | withdraw x _ ih => exact ih.withdraw x

theorem slot? (h : Sheds d d') (slot : Slot) : d'.slot? slot = d.slot? slot := by
  induction h with
  | refl => rfl
  | dropDefault f _ ih => rw [slot?_dropDefault, ih]
  | withdraw x _ ih => rw [slot?_withdraw, ih]

theorem extent (h : Sheds d d') : d'.extent = d.extent := by
  induction h with
  | refl => rfl
  | dropDefault f _ ih => rw [← ih]; simp [Document.extent, Document.dropDefault, modifyStructure]
  | withdraw x _ ih => rw [← ih]; rfl

theorem templates (h : Sheds d d') : d'.templates = d.templates := by
  induction h with
  | refl => rfl
  | dropDefault f _ ih => exact ih
  | withdraw x _ ih => exact ih

theorem shared (h : Sheds d d') : d'.shared = d.shared := by
  induction h with
  | refl => rfl
  | dropDefault f _ ih => exact ih
  | withdraw x _ ih => exact ih

theorem interfaces (h : Sheds d d') : d'.interfaces = d.interfaces := by
  induction h with
  | refl => rfl
  | dropDefault f _ ih => exact ih
  | withdraw x _ ih => exact ih

theorem enumerations (h : d.Sheds d') : d'.enumerations = d.enumerations := by
  induction h with
  | refl => rfl
  | dropDefault f _ ih => exact ih
  | withdraw x _ ih => exact ih

theorem declarations (h : d.Sheds d') : ∀ x ∈ d'.declarations, x ∈ d.declarations := by
  induction h with
  | refl => exact fun _ hx => hx
  | dropDefault f _ ih => exact ih
  | withdraw x _ ih => exact fun y hy => ih y (List.mem_filter.1 hy).1

theorem grows (h : Sheds d d') : Grows d d' :=
  .of_eq h.extent h.slot? h.templates h.interfaces h.enumerations

theorem linksInto {world : Document} (h : Sheds d d') (hd : d.LinksInto world) :
    d'.LinksInto world := by
  induction h with
  | refl => exact hd
  | dropDefault f _ ih =>
    exact { ih with structures := ih.structures.modify fun x hx =>
      (ih.structures f.owner x hx).modifyField f.member (fun _ => rfl) fun _ ht => ht }
  | withdraw x _ ih =>
    exact { ih with
      declarations := fun y hy => ih.declarations y (List.mem_filter.1 hy).1
      typeNames := fun entry he => ih.typeNames entry (List.mem_filter.1 he).1 }

end Sheds

theorem declarations_fill (d : Document) (slot : Slot) (t : DataType) :
    (d.fill slot t).declarations = d.declarations := by
  cases slot <;> rfl

end Document

namespace Session

/-- Only the document, the messages and the calls have changed, and whether a check came back;
messages and calls have been added. -/
structure Follows (s s' : Session) : Prop where
  sources : s'.sources = s.sources
  messages : s.messages <+: s'.messages
  calls : s.calls <+: s'.calls

namespace Follows

theorem refl (s : Session) : s.Follows s :=
  ⟨rfl, List.prefix_rfl, List.prefix_rfl⟩

theorem trans {s s' s'' : Session} (h : s.Follows s') (h' : s'.Follows s'') : s.Follows s'' :=
  ⟨h'.sources.trans h.sources, h.messages.trans h'.messages, h.calls.trans h'.calls⟩

theorem modifyDocument {s s' : Session} (h : s.Follows s') (f : Document → Document) :
    s.Follows (s'.modifyDocument f) :=
  ⟨h.sources, h.messages, h.calls⟩

theorem reportAll {s s' : Session} (h : s.Follows s') (messages : List Message) :
    s.Follows (s'.reportAll messages) :=
  ⟨h.sources, h.messages.trans (List.prefix_append _ _), h.calls⟩

end Follows

theorem ask_of_decided {s : Session} (h : s.document.Decided) (t : Option DataType)
    (defaults : List Default) : s.ask t defaults = s := by
  have hnone : (t.any fun t => defaults.any (s.document.isEndless t)) = false := by
    refine Option.any_eq_false_iff_get _ _ |>.2 fun ht => ?_
    exact List.any_eq_false.2 fun default _ => Bool.not_eq_true _ ▸ h.isEndless_eq _ default
  rw [ask, hnone, Bool.or_false]

theorem follows_ask (s : Session) (t : Option DataType) (defaults : List Default) :
    s.Follows (s.ask t defaults) :=
  ⟨rfl, List.prefix_rfl, List.prefix_rfl⟩

theorem follows_visit (s : Session) (checks : List Check) (subject : Subject) (late : Bool) :
    s.Follows (s.visit checks subject late).2 :=
  ⟨rfl, List.prefix_append _ _, List.prefix_append _ _⟩

theorem follows_recheck (s : Session) (checks : List Check) (x : Declaration) :
    s.Follows (s.recheck checks x) := by
  unfold recheck
  split
  · simp only
    split
    · exact follows_visit s checks _ _
    · exact (follows_visit s checks _ _).modifyDocument _
  · exact Follows.refl s

theorem sheds_recheck (s : Session) (checks : List Check) (x : Declaration) :
    s.document.Sheds (s.recheck checks x).document := by
  unfold recheck
  split
  · simp only
    split
    · exact .refl _
    · exact (Document.Sheds.refl s.document).withdraw x
  · exact .refl _

theorem sheds_foldl_withdraw {α : Type} {d d' : Document} (h : d.Sheds d')
    (faults : List (StructureId × α)) :
    d.Sheds (faults.foldl (fun d fault => d.withdraw (.struct fault.1)) d') := by
  induction faults generalizing d' with
  | nil => exact h
  | cons fault faults ih => exact ih (h.withdraw _)

theorem follows_recheckDefaults (s : Session) (f : FieldRef) :
    s.Follows (s.recheckDefaults f) := by
  have own (s : Session) (t : DataType) (default : Option Default) :
      s.Follows (s.recheckDefault f t default) := by
    unfold recheckDefault
    split
    · exact ⟨rfl, List.prefix_append _ _, List.prefix_rfl⟩
    · exact Follows.refl s
  unfold recheckDefaults
  split
  · unfold recheckAlters
    exact (((s.follows_ask _ _).trans (own _ _ _)).reportAll _).modifyDocument _
  · exact Follows.refl s

theorem sheds_recheckDefault (s : Session) (f : FieldRef) (t : DataType)
    (default : Option Default) : s.document.Sheds (s.recheckDefault f t default).document := by
  unfold recheckDefault
  split
  · exact (Document.Sheds.refl s.document).dropDefault f
  · exact .refl _

theorem sheds_recheckDefaults (s : Session) (f : FieldRef) :
    s.document.Sheds (s.recheckDefaults f).document := by
  unfold recheckDefaults
  split
  · exact sheds_foldl_withdraw ((s.ask _ _).sheds_recheckDefault f _ _) _
  · exact .refl _

/-- Checks the defaults that hang on a slot that has just been filled. -/
def recheckSlot (s : Session) : Slot → Session
  | .field f => s.recheckDefaults f
  | _ => s

/-- Runs the late checks on the declaration that owns a slot, if there is one. -/
def recheckOwner (s : Session) (checks : List Check) : Option Declaration → Session
  | some x => s.recheck checks x
  | none => s

theorem bind_eq (s : Session) (checks : List Check) (b : Binding) (t : DataType) :
    s.bind checks b t =
      ((s.modifyDocument (·.fill b.slot t)).recheckSlot b.slot).recheckOwner checks b.owner? := by
  unfold bind recheckSlot recheckOwner
  rfl

theorem follows_recheckSlot (s : Session) (slot : Slot) : s.Follows (s.recheckSlot slot) := by
  cases slot with
  | field f => exact follows_recheckDefaults s f
  | _ => exact Follows.refl s

theorem follows_recheckOwner (s : Session) (checks : List Check) (owner : Option Declaration) :
    s.Follows (s.recheckOwner checks owner) := by
  cases owner with
  | some x => exact follows_recheck s checks x
  | none => exact Follows.refl s

theorem sheds_recheckSlot (s : Session) (slot : Slot) :
    s.document.Sheds (s.recheckSlot slot).document := by
  cases slot with
  | field f => exact sheds_recheckDefaults s f
  | _ => exact .refl _

theorem sheds_recheckOwner (s : Session) (checks : List Check) (owner : Option Declaration) :
    s.document.Sheds (s.recheckOwner checks owner).document := by
  cases owner with
  | some x => exact sheds_recheck s checks x
  | none => exact .refl _

/-- To bind a name fills its slot; then defaults and registrations may be shed. -/
theorem sheds_bind (s : Session) (checks : List Check) (b : Binding) (t : DataType) :
    (s.document.fill b.slot t).Sheds (s.bind checks b t).document := by
  let filled := s.modifyDocument (·.fill b.slot t)
  have hchecked : filled.document.Sheds (filled.recheckSlot b.slot).document :=
    sheds_recheckSlot filled b.slot
  rw [bind_eq]
  exact hchecked.trans (sheds_recheckOwner _ checks b.owner?)

theorem slot?_bind (s : Session) (checks : List Check) {b : Binding} {t : DataType}
    (h : (s.document.slot? b.slot).isSome) (slot : Slot) :
    (s.bind checks b t).document.slot? slot =
      if slot = b.slot then some (some t) else s.document.slot? slot :=
  ((s.sheds_bind checks b t).slot? slot).trans (s.document.slot?_fill t h slot)

theorem follows_bind (s : Session) (checks : List Check) (b : Binding) (t : DataType) :
    s.Follows (s.bind checks b t) := by
  have hfilled : s.Follows (s.modifyDocument (·.fill b.slot t)) :=
    (Follows.refl s).modifyDocument _
  rw [bind_eq]
  exact (hfilled.trans (follows_recheckSlot _ b.slot)).trans
    (follows_recheckOwner _ checks b.owner?)

/-- Where the class of each type is found, every check of a default comes back. -/
theorem endless_recheckSlot {s : Session} (h : s.document.Decided) (slot : Slot) :
    (s.recheckSlot slot).endless = s.endless := by
  have own (s : Session) (f : FieldRef) (t : DataType) (default : Option Default) :
      (s.recheckDefault f t default).endless = s.endless := by
    unfold recheckDefault
    split <;> rfl
  cases slot with
  | field f =>
    simp only [recheckSlot, recheckDefaults]
    split
    · simp only [ask_of_decided h]
      exact own s f _ _
    · rfl
  | _ => rfl

theorem endless_bind {s : Session} (checks : List Check) {b : Binding} {t : DataType}
    (h : (s.document.fill b.slot t).Decided) : (s.bind checks b t).endless = s.endless := by
  let filled := s.modifyDocument (·.fill b.slot t)
  have howner (s : Session) : (s.recheckOwner checks b.owner?).endless = s.endless := by
    unfold recheckOwner recheck
    split
    · split
      · simp only
        split <;> rfl
      · rfl
    · rfl
  rw [bind_eq]
  exact (howner _).trans (endless_recheckSlot (s := filled) h b.slot)

end Session

end Idl
