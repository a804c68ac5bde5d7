import Idl.Proofs.Draft.Basic
import Idl.Proofs.Session.Clean

/-!
Plain documents: what drafts are read as. Structures have fields without defaults and nothing
else, enumerations are of integers, and there are no packages. So a name means the same wherever
it is used, the standard checks find nothing that hangs on types, and to bind a name fills its
slot and does nothing else.
-/

namespace Idl

structure Structure.IsPlain (s : Structure) : Prop where
  package : s.package = none
  base : s.base = none
  traits : s.traits = []
  members : ∀ m ∈ s.members, ∃ f, m = .field f ∧ f.default = none

structure Enumeration.IsPlain (e : Enumeration) : Prop where
  package : e.package = none
  parameter : e.parameter = some (.builtin .integer)

namespace Structure.IsPlain

variable {s : Structure}

theorem nestedEnumerations_eq_nil (h : s.IsPlain) : s.nestedEnumerations = [] := by
  rw [nestedEnumerations, List.filterMap_eq_nil_iff]
  intro m hm
  obtain ⟨f, rfl, _⟩ := h.members m hm
  rfl

theorem alters_eq_nil (h : s.IsPlain) : s.alters = [] := by
  rw [alters, List.filterMap_eq_nil_iff]
  intro m hm
  obtain ⟨f, rfl, _⟩ := h.members m hm
  rfl

theorem default_of_field? (h : s.IsPlain) {position : Nat} {f : Field}
    (hf : s.field? position = some f) : f.default = none := by
  obtain ⟨m, hm, hmf⟩ := Option.bind_eq_some_iff.1 hf
  obtain ⟨g, rfl, hg⟩ := h.members m (List.mem_of_getElem? hm)
  cases hmf
  exact hg

theorem addMember (h : s.IsPlain) {f : Field} (hf : f.default = none) :
    (s.addMember (.field f)).IsPlain := by
  refine ⟨h.package, h.base, h.traits, fun m hm => ?_⟩
  rcases List.mem_append.1 hm with hm | hm
  · exact h.members m hm
  · exact ⟨f, List.mem_singleton.1 hm, hf⟩

theorem modifyField (h : s.IsPlain) (position : Nat) {g : Field → Field}
    (hg : ∀ f, (g f).default = f.default) : (s.modifyField position g).IsPlain := by
  refine ⟨h.package, h.base, h.traits, fun m hm => ?_⟩
  obtain ⟨i, hi⟩ := List.getElem?_of_mem hm
  simp only [Structure.modifyField, List.getElem?_modify, Option.map_eq_map,
    Option.map_eq_some_iff] at hi
  obtain ⟨m', hm', rfl⟩ := hi
  obtain ⟨f, rfl, hf⟩ := h.members m' (List.mem_of_getElem? hm')
  split
  · exact ⟨g f, rfl, (hg f).trans hf⟩
  · exact ⟨f, rfl, hf⟩

end Structure.IsPlain

namespace Document

structure IsPlain (d : Document) : Prop where
  structures : d.structures.All fun _ s => s.IsPlain
  enumerations : d.enumerations.All fun _ e => e.IsPlain
  identifiers : ∀ id, d.identifiers.get? id = none
  specimens : ∀ id, d.specimens.get? id = none
  /-- An instance that is given out again has the argument it is asked for with. -/
  shared : ∀ entry ∈ d.shared,
    d.templates.get? entry.2 = some ⟨entry.1.1, some entry.1.2.1, entry.1.2.2⟩

/-- What an unqualified name means outside of all structures and packages. -/
def leaf? (d : Document) (name : String) : Option DataType :=
  d.findType? none [] none name

variable {d : Document}

theorem isPlain_setMain (source : Option SourceId) : (setMain {} source).IsPlain := by
  have hempty {family : Family} {α : Type} (id : Id family) :
      ({} : Arena family α).get? id = none := by
    simp [Arena.get?]
  refine ⟨fun id s hs => ?_, fun id e he => ?_, hempty, hempty, fun _ h => ?_⟩
  · rw [show (setMain {} source).structures.get? id = none from hempty id] at hs
    cases hs
  · rw [show (setMain {} source).enumerations.get? id = none from hempty id] at he
    cases he
  · cases h

section Change

theorem IsPlain.insertStructure (h : d.IsPlain) {s : Structure} (hs : s.IsPlain) :
    (d.insertStructure s).IsPlain :=
  { h with structures := h.structures.insert hs }

theorem IsPlain.addMember (h : d.IsPlain) (id : StructureId) {f : Field}
    (hf : f.default = none) : (d.modifyStructure id (·.addMember (.field f))).IsPlain :=
  { h with structures := h.structures.modify fun s hs => (h.structures id s hs).addMember hf }

theorem IsPlain.insertEnumeration (h : d.IsPlain) {e : Enumeration} (he : e.IsPlain) :
    (d.insertEnumeration e).IsPlain :=
  { h with enumerations := h.enumerations.insert he }

theorem IsPlain.insertInterface (h : d.IsPlain) (i : Interface) : (d.insertInterface i).IsPlain :=
  { h with }

theorem IsPlain.modifyInterface (h : d.IsPlain) (id : InterfaceId) (f : Interface → Interface) :
    (d.modifyInterface id f).IsPlain :=
  { h with }

theorem IsPlain.register (h : d.IsPlain) (x : Declaration) : (d.register x).IsPlain :=
  { h with }

/-- An instance that was there stays as it is when another one is inserted. -/
theorem get?_insertInstance_of_some {id : TemplateId} {i : Instance}
    (h : d.templates.get? id = some i) (new : Instance) :
    (d.insertInstance new).templates.get? id = some i := by
  have hne : id ≠ d.templates.next := by
    rintro rfl
    simp [get?_next] at h
  simp only [Document.insertInstance, Arena.get?_insert, if_neg hne, h]

theorem get?_insertInstance_next (d : Document) (new : Instance) :
    (d.insertInstance new).templates.get? d.templates.next = some new := by
  simp [Document.insertInstance, Arena.get?_insert]

theorem IsPlain.insertInstance (h : d.IsPlain) (i : Instance) : (d.insertInstance i).IsPlain := by
  refine { h with shared := fun entry he => ?_ }
  simp only [Document.insertInstance] at he
  split at he
  · rename_i t ht
    rcases List.mem_append.1 he with he | he
    · exact get?_insertInstance_of_some (h.shared entry he) i
    · rw [List.mem_singleton.1 he, get?_insertInstance_next]
      cases i
      simp_all
  · exact get?_insertInstance_of_some (h.shared entry he) i

theorem IsPlain.fill (h : d.IsPlain) {slot : Slot} (hopen : d.IsOpen slot) (t : DataType) :
    (d.fill slot t).IsPlain := by
  cases slot with
  | field f =>
    exact { h with structures := h.structures.modify fun s hs =>
      (h.structures f.owner s hs).modifyField f.member fun _ => rfl }
  | enumerationParameter id =>
    obtain ⟨e, he, hp⟩ := Option.map_eq_some_iff.1 hopen
    rw [(h.enumerations id e he).parameter] at hp
    cases hp
  | identifierParameter id =>
    rw [IsOpen, slot?, h.identifiers] at hopen
    cases hopen
  | specimenParameter id =>
    rw [IsOpen, slot?, h.specimens] at hopen
    cases hopen
  | factoryParameter id => exact { h with }
  | methodParameter id method parameter => exact { h with }
  | templateArgument id =>
    refine { h with shared := fun entry he => ?_ }
    have hshared := h.shared entry he
    rw [get?_templates_fill, if_neg]
    · exact hshared
    · rintro ⟨⟩
      simp [IsOpen, slot?, hshared] at hopen

end Change

section Names

theorem IsPlain.packageOf?_eq_none (h : d.IsPlain) (t : DataType) : d.packageOf? t = none := by
  cases t with
  | struct id =>
    cases hs : d.structures.get? id with
    | none => simp [packageOf?, package?, heading?, hs]
    | some s => simpa [packageOf?, package?, heading?, hs] using (h.structures id s hs).package
  | enum id =>
    cases he : d.enumerations.get? id with
    | none => simp [packageOf?, package?, heading?, he]
    | some e => simpa [packageOf?, package?, heading?, he] using (h.enumerations id e he).package
  | identifier id => simp [packageOf?, package?, heading?, h.identifiers]
  | specimen id => simp [packageOf?, package?, heading?, h.specimens]
  | builtin b => rfl
  | template id => rfl

theorem IsPlain.findNested?_eq_none (h : d.IsPlain) (owner : StructureId) (name : String) :
    d.findNested? owner name = none := by
  cases hs : d.structures.get? owner with
  | none => simp [findNested?, hs]
  | some s => simp [findNested?, hs, (h.structures owner s hs).nestedEnumerations_eq_nil]

/-- It does not matter in which structure a name is used. -/
theorem IsPlain.findType?_eq (h : d.IsPlain) (scope : Option StructureId) (name : String) :
    d.findType? none [] scope name = d.leaf? name := by
  cases scope with
  | none => rfl
  | some owner =>
    simp only [leaf?, findType?, List.reverse_nil, findBehind?, findUnqualified?,
      Option.bind_some, Option.bind_none, h.findNested?_eq_none]

theorem IsPlain.leaf?_eq (h : d.IsPlain) (name : String) :
    d.leaf? name =
      ((Builtin.ofKeyword? name).map .builtin).or (d.typesNamed name).head? := by
  have hsame (l : List DataType) :
      l.find? (fun t => Package.same (d.packageOf? t) none) = l.head? := by
    cases l with
    | nil => rfl
    | cons t l => simp [h.packageOf?_eq_none, Package.same]
  simp only [leaf?, findType?, List.reverse_nil, findBehind?, findUnqualified?, hsame,
    Option.bind_none]
  cases Builtin.ofKeyword? name <;> simp

/-- In plain documents names mean what is listed. -/
theorem IsPlain.leaf?_congr {d' : Document} (h : d.IsPlain) (h' : d'.IsPlain)
    (ht : d'.typeNames = d.typeNames) (name : String) : d'.leaf? name = d.leaf? name := by
  rw [h.leaf?_eq, h'.leaf?_eq, typesNamed, typesNamed, ht]

/-- A declaration adds to what names mean where its own name meant nothing. -/
theorem IsPlain.leaf?_register (h : d.IsPlain) {x : Declaration} {t : DataType}
    (hx : x.type? = some t) (name : String) :
    (d.register x).leaf? name =
      (d.leaf? name).or (if d.nameText x = name then some t else none) := by
  rw [(h.register x).leaf?_eq, h.leaf?_eq, Option.or_assoc]
  have htypes : (d.register x).typesNamed name =
      d.typesNamed name ++ (if d.nameText x = name then [t] else []) := by
    simp only [typesNamed, Document.register, hx, List.filterMap_append]
    by_cases hname : d.nameText x = name <;> simp [hname]
  rw [htypes, List.head?_append]
  by_cases hname : d.nameText x = name <;> simp [hname]

end Names

end Document

namespace Check

open Document

variable {d : Document}

theorem runAll_of_silent {checks : List Check} {subject : Subject}
    (h : ∀ check ∈ checks, check.run d subject = {}) : runAll checks d subject = {} := by
  induction checks with
  | nil => rfl
  | cons check rest ih =>
    rw [List.forall_mem_cons] at h
    have hrest := ih h.2
    rw [runAll] at hrest ⊢
    rw [List.map_cons, List.foldl_cons, h.1]
    exact hrest

theorem sharableFaults_of_plain {s : Structure} (h : s.IsPlain) : sharableFaults d s = [] := by
  simp [sharableFaults, Structure.has, h.traits, h.base]

/-- What hangs on types is in order in a plain document. -/
theorem run_late_of_plain (h : d.IsPlain) {check : Check} (hcheck : check ∈ standard)
    (hlate : check.late = true) (x : Declaration) : check.run d (.declaration x) = {} := by
  simp only [standard, List.mem_cons, List.not_mem_nil, or_false] at hcheck
  rcases hcheck with rfl | rfl | rfl | rfl | rfl | rfl
  · cases x with
    | enum id =>
      cases he : d.enumerations.get? id with
      | none => simp [enumerationParameter, parameterType, Target.parameter?, he]
      | some e =>
        simp [enumerationParameter, parameterType, Target.parameter?, he,
          (h.enumerations id e he).parameter, DataType.asBuiltin?]
    | _ => rfl
  · cases x with
    | identifier id => simp [identifierParameter, parameterType, Target.parameter?, h.identifiers]
    | _ => rfl
  · cases hlate
  · cases x with
    | struct id =>
      cases hs : d.structures.get? id with
      | none => simp [structureSharable, structure?, hs]
      | some s =>
        simp only [structureSharable, structure?, hs,
          sharableFaults_of_plain (h.structures id s hs)]
        rfl
    | _ => rfl
  · cases hlate
  · cases hlate

end Check

namespace Session

open Document

variable {s : Session}

/-- Neither the document nor the messages have changed. -/
structure Same (s s' : Session) : Prop where
  document : s'.document = s.document
  messages : s'.messages = s.messages

theorem recheckDefaults_of_plain (h : s.document.IsPlain) (f : FieldRef) :
    s.Same (s.recheckDefaults f) := by
  unfold recheckDefaults
  split
  · rename_i t _ default _ hfield
    obtain ⟨x, hx, hf⟩ := Option.bind_eq_some_iff.1 hfield
    have hdefault : default = none := (h.structures _ x hx).default_of_field? hf
    have halters (g : FieldRef) : s.document.altersOf g = [] := by
      rw [altersOf, List.flatMap_eq_nil_iff]
      intro id _
      cases hs : s.document.structures.get? id with
      | none => rfl
      | some y => simp [(h.structures id y hs).alters_eq_nil]
    let asked := s.ask (some t) (default.toList ++ (s.document.altersOf f).map (·.2))
    have hown : asked.recheckDefault f t default = asked := by
      rw [hdefault]
      rfl
    have hfaults : asked.document.alterFaults f t = [] := by
      rw [alterFaults, show asked.document.altersOf f = [] from halters f, List.filterMap_nil]
    simp only
    rw [hown, recheckAlters, hfaults]
    exact ⟨rfl, List.append_nil _⟩
  · exact ⟨rfl, rfl⟩

theorem recheck_of_plain (h : s.document.IsPlain) (x : Declaration) :
    s.Same (s.recheck Check.standard x) := by
  have hverdict : Check.runAll (Check.standard.filter (·.late)) s.document (.declaration x) = {} :=
    Check.runAll_of_silent fun check hcheck =>
      Check.run_late_of_plain h (List.mem_filter.1 hcheck).1 (List.mem_filter.1 hcheck).2 x
  unfold recheck
  split
  · simp only [visit_eq, Check.called, if_true, hverdict]
    exact ⟨rfl, List.append_nil _⟩
  · exact ⟨rfl, rfl⟩

/-- In a plain document to bind a name is to fill its slot. -/
theorem bind_of_plain (h : s.document.IsPlain) {b : Binding} (hopen : s.document.IsOpen b.slot)
    (t : DataType) :
    (s.bind Check.standard b t).document = s.document.fill b.slot t ∧
      (s.bind Check.standard b t).messages = s.messages := by
  let filled := s.modifyDocument (·.fill b.slot t)
  have hplain : filled.document.IsPlain := h.fill hopen t
  have hslot : filled.Same (filled.recheckSlot b.slot) := by
    cases b.slot with
    | field f => exact recheckDefaults_of_plain hplain f
    | _ => exact ⟨rfl, rfl⟩
  have howner : (filled.recheckSlot b.slot).Same
      ((filled.recheckSlot b.slot).recheckOwner Check.standard b.owner?) := by
    cases b.owner? with
    | some x => exact recheck_of_plain (hslot.document ▸ hplain) x
    | none => exact ⟨rfl, rfl⟩
  rw [bind_eq]
  exact ⟨howner.document.trans hslot.document, howner.messages.trans hslot.messages⟩

end Session

end Idl
