import Idl.Grammar.Type
import Idl.Proofs.Reading.Defer

/-!
What the reading of types builds: instances, and names that wait for their arguments. The type
that was read can be used where it was read. A node or a member with a slot for the type is
written together with the name that waits for the slot.
-/

namespace Idl.Grammar

variable {checks : List Check} {others : List Binding} {done fail : Mark} {α β : Type}
  {s : State}

namespace TypeUse

/-- The name that waits for the slot the type was read for, if the type is not known. -/
def bindings (use : TypeUse) (classifier : String) (scope : Option StructureId) (slot : Slot)
    (s : State) : List Binding :=
  use.name?.toList.map fun name =>
    { name, classifier, scope, slot, package := s.package, source := s.source }

theorem map_slot_bindings (use : TypeUse) (classifier : String) (scope : Option StructureId)
    (slot : Slot) (s : State) :
    (use.bindings classifier scope slot s).map Binding.slot = slot.opened use.type? := by
  cases use <;> rfl

theorem scope_of_mem_bindings {use : TypeUse} {classifier : String}
    {scope : Option StructureId} {slot : Slot} {s : State} {b : Binding}
    (h : b ∈ use.bindings classifier scope slot s) : b.scope = scope := by
  obtain ⟨_, _, rfl⟩ := List.mem_map.1 h
  rfl

/-- A known type is there, and what it hangs on waits in the scope it was read in. -/
def Usable (use : TypeUse) (scope : Option StructureId) (s : State) : Prop :=
  ∀ t, use.type? = some t → s.document.Usable s.pending scope t

theorem Usable.reads {use : TypeUse} {scope : Option StructureId} {s s' : State}
    (h : use.Usable scope s) (hr : s.Reads s') : use.Usable scope s' := by
  intro t ht
  rw [hr.document, hr.pending]
  exact h t ht

theorem Usable.linked {use : TypeUse} {scope : Option StructureId} {s : State}
    (h : use.Usable scope s) : TypeLinked s.document use.type? :=
  fun t ht => (h t ht).below

/-- A known type is a template, or what a name means. -/
def IsSpelled (use : TypeUse) (s : State) : Prop :=
  ∀ t, use.type? = some t → s.document.IsSpelled t

theorem isSpelled_template (id : TemplateId) (s : State) :
    (TypeUse.known (.template id)).IsSpelled s := by
  rintro _ ⟨⟩
  exact .inl ⟨id, rfl⟩

theorem IsSpelled.reads {use : TypeUse} {s s' : State} (h : use.IsSpelled s) (hr : s.Reads s') :
    use.IsSpelled s' := by
  intro t ht
  rw [hr.document]
  exact h t ht

end TypeUse

theorem TypeUse.Usable.getD {use? : Option TypeUse} {default : TypeUse}
    {scope : Option StructureId} {s : State}
    (h : ∀ use, use? = some use → use.Usable scope s) (hd : default.Usable scope s) :
    (use?.getD default).Usable scope s := by
  cases use? with
  | none => exact hd
  | some use => exact h use rfl

theorem TypeUse.usable_builtin (b : Builtin) (scope : Option StructureId) (s : State) :
    (TypeUse.known (.builtin b)).Usable scope s := by
  rintro _ ⟨⟩
  exact .of_named ⟨trivial, nofun⟩

/-- The scope is a structure that is there, or none. -/
def State.HasScope (s : State) (scope : Option StructureId) : Prop :=
  ∀ id, scope = some id → id.index < s.document.structures.size

theorem State.HasScope.mono {scope : Option StructureId} {s s' : State} (h : s.HasScope scope)
    (g : s.document.Grows s'.document) : s'.HasScope scope :=
  fun id hid => Nat.lt_of_lt_of_le (h id hid) g.extent.1

theorem State.HasScope.reads {scope : Option StructureId} {s s' : State} (h : s.HasScope scope)
    (hr : s.Reads s') : s'.HasScope scope := by
  intro id hid
  rw [hr.document]
  exact h id hid

theorem State.hasScope_none (s : State) : s.HasScope none :=
  nofun

section Write

variable {use : TypeUse} {classifier : String} {scope : Option StructureId} {slot : Slot}
  {f : Document → Document} {m : Mark}

theorem after_await {ok : PUnit → State → Prop} {failed : State → Prop}
    (h : ok ⟨⟩ { s with pending := s.pending ++ use.bindings classifier scope slot s }) :
    After (await use.name? classifier scope slot) s ok failed := by
  cases use with
  | known t =>
    have hs : ok ⟨⟩ s := by simpa [TypeUse.bindings, TypeUse.name?] using h
    exact hs
  | awaited name => exact h

/-- The state in which a slot for a type was made, and the name of the type waits for it. -/
def State.write (s : State) (f : Document → Document) (use : TypeUse) (classifier : String)
    (scope : Option StructureId) (slot : Slot) : State :=
  { s.modifyDocument f with pending := s.pending ++ use.bindings classifier scope slot s }

theorem edit_write
    (h : s.document.Change m.extent s.pending (slot.opened use.type?) (f s.document))
    (hscope : s.HasScope scope) : Edit checks m s (s.write f use classifier scope slot) :=
  .change h (use.map_slot_bindings classifier scope slot s) fun _ hb id hid =>
    hscope id (TypeUse.scope_of_mem_bindings hb ▸ hid)

theorem builds_write
    (h : s.document.Change done.extent s.pending (slot.opened use.type?) (f s.document))
    (hscope : s.HasScope scope) :
    Builds checks done fail
      (do modifyDocument f; await use.name? classifier scope slot) s
      fun _ s' => s'.document = f s.document := by
  apply After.bind
  apply after_modify
  apply after_await
  exact ⟨.single (edit_write h hscope), rfl⟩

theorem builds_write_return {a : α}
    (h : s.document.Change done.extent s.pending (slot.opened use.type?) (f s.document))
    (hscope : s.HasScope scope) :
    Builds checks done fail
      (do modifyDocument f; await use.name? classifier scope slot; return a) s
      fun b s' => b = a ∧ s'.document = f s.document := by
  apply After.bind
  apply after_modify
  apply After.bind
  apply after_await
  exact ⟨.single (edit_write h hscope), rfl, rfl⟩

/-- Nothing waits for a change that opens no slot. -/
theorem edit_modify (h : s.document.Change m.extent s.pending [] (f s.document)) :
    Edit checks m s (s.modifyDocument f) := by
  have he : Edit checks m s
      { s.modifyDocument fun _ => f s.document with pending := s.pending ++ [] } :=
    .change h List.map_nil (by simp)
  rwa [List.append_nil] at he

theorem builds_modify (h : s.document.Change done.extent s.pending [] (f s.document)) :
    Builds checks done fail (modifyDocument f) s fun _ s' => s'.document = f s.document :=
  after_modify (g := (·.modifyDocument f)) ⟨.single (edit_modify h), rfl⟩

end Write

theorem quiet_typeName (classifier : String) : Quiet (typeName classifier) := by
  refine quiet_iterate (fun (path, first) => ?_) _
  refine (quiet_expect _ _ _).bind fun t => (quiet_isAt _ _).bind fun dot => ?_
  split
  · exact quiet_advance.bind fun _ => quiet_pure _
  · exact quiet_pure _

theorem quiet_templates (classifier : String) : Quiet (templates classifier) := by
  refine quiet_iterate (fun outer => ?_) _
  refine (quiet_typeName classifier).bind fun name => ?_
  split
  · exact (quiet_expectToken _ _).bind fun _ => quiet_pure _
  · exact quiet_pure _

theorem fails_unknownType (name : TypeName) (classifier : String) :
    Fails (unknownType name classifier : Parser α) :=
  fails_failAt _ _ _

theorem quiet_declaredType (classifier : String) : Quiet (declaredType classifier) := by
  refine (quiet_typeName classifier).bind fun name => quiet_get.bind fun s => ?_
  split
  · exact quiet_pure _
  · exact quiet_failAt _ _ _

/-- A type that has to be declared already is one that a name means. -/
theorem builds_declaredType (hs : s.Ready others fail) (classifier : String) :
    Builds checks done fail (declaredType classifier) s fun r s' =>
      s.Reads s' ∧ s.document.Means r.2 := by
  refine (quiet_typeName classifier).builds_bind hs fun name s' hs' hr => ?_
  apply builds_get
  split
  · rename_i t ht
    refine builds_pure ⟨hr, ?_⟩
    rw [← hr.document]
    exact Document.means_of_findType? ht
  · exact (fails_unknownType name classifier).builds hs'

section Templates

variable {use : TypeUse} {scope : Option StructureId} {m : Mark}

/-- An instance that is shared already is given out without a change. -/
theorem usable_shared (hs : s.Ready others m) (hu : use.Usable scope s) {template : Template}
    {weak : Bool} {t : DataType} {id : TemplateId} (ht : use.type? = some t)
    (hid : s.document.shared.lookup (template, t, weak) = some id) :
    s.document.Usable s.pending scope (.template id) := by
  obtain ⟨before, after, hl, _⟩ := List.lookup_eq_some_iff.1 hid
  have hi := (hs.sound.linked.shared ((template, t, weak), id) (by simp [hl])).2
  refine ⟨(s.document.templates.get?_isSome_iff id).1 (hi ▸ rfl), fun o ho => ?_⟩
  cases ho with
  | here hi' ha =>
    rw [hi] at hi'
    cases hi'
    cases ha
  | inside hi' ha ho =>
    rw [hi] at hi'
    cases hi'
    cases ha
    exact (hu t ht).waits o ho

/-- A new instance waits itself, or hangs on what its argument hangs on. -/
theorem usable_new (hs : s.Ready others m) (hu : use.Usable scope s) {template : Template}
    {weak : Bool} {classifier : String} {d' : Document}
    (hd : d' = s.document.insertInstance ⟨template, use.type?, weak⟩) :
    d'.Usable
      (s.pending ++
        use.bindings classifier scope (.templateArgument s.document.templates.next) s)
      scope (.template s.document.templates.next) := by
  have hnew : d'.templates.get? s.document.templates.next = some ⟨template, use.type?, weak⟩ := by
    simp [hd, Document.insertInstance, Arena.get?_insert]
  refine ⟨(d'.templates.get?_isSome_iff _).1 (hnew ▸ rfl), fun o ho => ?_⟩
  cases ho with
  | here hi ha =>
    rw [hnew] at hi
    cases hi
    cases use with
    | known t => cases ha
    | awaited name =>
      exact ⟨_, List.mem_append_right _ (List.mem_singleton_self _), rfl, rfl⟩
  | @inside _ _ t _ hi ha ho =>
    rw [hnew] at hi
    cases hi
    have hold := hd ▸ ho
    obtain ⟨b, hb, h⟩ := (hu t ha).waits o
      (Document.hangsOn_insertInstance hs.sound.linked _ (hu t ha).below hold)
    exact ⟨b, List.mem_append_left _ hb, h⟩

/-- To instantiate a template is an edit together with the name that waits for the argument. -/
theorem edit_instantiate (hs : s.Ready others m) (hscope : s.HasScope scope)
    (hu : use.Usable scope s) (template : Template) (weak : Bool) (classifier : String)
    {id : TemplateId} {d' : Document}
    (h : s.document.instantiate template use.type? weak = (id, d')) :
    Edit checks m s (s.write (fun _ => d') use classifier scope (.templateArgument id)) ∧
      (TypeUse.known (.template id)).Usable scope
        (s.write (fun _ => d') use classifier scope (.templateArgument id)) := by
  unfold Document.instantiate at h
  split at h
  · rename_i hl
    obtain ⟨t, ht, hid⟩ := Option.bind_eq_some_iff.1 hl
    cases h
    have hr : s.Reads
        (s.write (fun _ => s.document) use classifier scope (.templateArgument id)) := by
      refine ⟨{ State.Onward.refl s with }, rfl, ?_, fun _ => rfl⟩
      cases use with
      | known t => exact List.append_nil _
      | awaited name => cases ht
    refine ⟨.read hr, TypeUse.Usable.reads (fun u hu' => ?_) hr⟩
    cases hu'
    exact usable_shared hs hu ht hid
  · cases h
    refine ⟨edit_write (.instantiate ⟨template, use.type?, weak⟩ hu.linked) hscope, fun u hu' => ?_⟩
    cases hu'
    exact usable_new hs hu rfl

theorem builds_instantiate {R : β → State → Prop} {f : TemplateId → Parser β}
    (hs : s.Ready others fail) (hscope : s.HasScope scope) (hu : use.Usable scope s)
    (template : Template) (weak : Bool) (classifier : String)
    (hf : ∀ id s', s'.Ready others fail → s'.HasScope scope →
      (TypeUse.known (.template id)).Usable scope s' → Builds checks fail fail (f id) s' R) :
    Builds checks fail fail
      (do let id ← instantiate template use.type? weak
          await use.name? classifier scope (.templateArgument id)
          f id) s R := by
  cases hi : s.document.instantiate template use.type? weak with
  | mk id d' =>
    obtain ⟨he, hu'⟩ : Edit checks fail s _ ∧ _ :=
      edit_instantiate hs hscope hu template weak classifier hi
    have hk := he.keeps hs
    apply After.bind
    apply after_modifyGet
    apply After.bind
    simp only [hi]
    apply after_await
    refine After.mono (hf id _ (he.ready hs) (hscope.mono (he.grows hs)) hu') ?_ ?_
    · exact fun b s' ⟨he', hr⟩ => ⟨(Edits.single he).trans he', hr⟩
    · exact fun s' hk' => hk.trans hk'

theorem builds_closeTemplates (hs : s.Ready others fail) (hscope : s.HasScope scope)
    (hu : use.Usable scope s) (hm : use.IsSpelled s) (classifier : String) (weak : Bool)
    (outer : List Template) :
    Builds checks fail fail (closeTemplates classifier scope weak outer use) s
      fun use' s' => use'.Usable scope s' ∧ use'.IsSpelled s' := by
  induction outer generalizing s use with
  | nil => exact builds_pure ⟨hu, hm⟩
  | cons template outer ih =>
    refine (quiet_expectToken _ _).builds_bind hs fun _ s₁ hs₁ hr => ?_
    exact builds_instantiate hs₁ (hscope.reads hr) (hu.reads hr) template _ classifier
      fun id s₂ hs₂ hscope₂ hu₂ => ih hs₂ hscope₂ hu₂ (TypeUse.isSpelled_template id s₂)

/-- What was read as a type can be used where it was read. -/
theorem builds_typeUse (hs : s.Ready others fail) (hscope : s.HasScope scope)
    (classifier : String) (weak : Bool) :
    Builds checks fail fail (typeUse classifier scope weak) s
      fun use s' => use.Usable scope s' ∧ use.IsSpelled s' := by
  refine (quiet_templates classifier).builds_bind hs fun (outer, name) s₁ hs₁ hr => ?_
  apply builds_get
  extract_lets core
  have hmeans (t : DataType) (ht : core.type? = some t) : s₁.document.Means t := by
    simp only [core] at ht
    split at ht
    · rename_i u hu
      cases ht
      exact Document.means_of_findType? hu
    · cases ht
  exact builds_closeTemplates hs₁ (hscope.reads hr)
    (fun t ht => .of_named (hs₁.sound.linked.named (hmeans t ht)))
    (fun t ht => .inr (hmeans t ht)) classifier weak outer

theorem builds_typeParameter (hs : s.Ready others fail) (hscope : s.HasScope scope)
    (classifier : String) :
    Builds checks fail fail (typeParameter classifier scope) s
      fun use? s' => ∀ use, use? = some use → use.Usable scope s' := by
  refine (quiet_isAt _ _).builds_bind hs fun angle s₁ hs₁ hr => ?_
  split
  · refine quiet_advance.builds_bind hs₁ fun _ s₂ hs₂ hr₂ => ?_
    have hscope₂ := (hscope.reads hr).reads hr₂
    refine (builds_typeUse hs₂ hscope₂ classifier false).bind hs₂ (Mark.le_refl _)
      fun use s₃ hs₃ _ ⟨hu, _⟩ => ?_
    refine (quiet_expectToken _ _).builds_bind hs₃ fun _ s₄ hs₄ hr₄ => builds_pure ?_
    rintro _ ⟨⟩
    exact hu.reads hr₄
  · exact builds_pure nofun

end Templates

theorem forward_closeTemplates (classifier : String) (scope : Option StructureId) (weak : Bool)
    (outer : List Template) (use : TypeUse) :
    Forward (closeTemplates classifier scope weak outer use) := by
  induction outer generalizing use with
  | nil => exact (quiet_pure _).forward
  | cons template outer ih =>
    refine (quiet_expectToken _ _).forward.bind fun _ => ?_
    refine (forward_modifyGet fun _ => rfl).bind fun id => ?_
    exact (forward_await _ _ _ _).bind fun _ => ih _

theorem forward_typeUse (classifier : String) (scope : Option StructureId) (weak : Bool) :
    Forward (typeUse classifier scope weak) :=
  (quiet_templates classifier).forward.bind fun _ => quiet_get.forward.bind fun _ =>
    forward_closeTemplates _ _ _ _ _

section Defer

variable {names : List (String × DataType)} {scope : Option StructureId} {use : TypeUse}

/-- A name that is awaited meant nothing. -/
def TypeUse.Unknown (names : List (String × DataType)) (use : TypeUse) : Prop :=
  ∀ name, use.name? = some name → name.Unknown names

theorem defers_write {f : Document → Document} (hf : ∀ d, (f d).typeNames = d.typeNames)
    (hu : use.Unknown names) (classifier : String) (slot : Slot) :
    Defers names scope 0
      (do modifyDocument f; await use.name? classifier scope slot) fun _ => True :=
  (defers_modifyDocument hf).bind_left fun _ _ => defers_await hu classifier slot

theorem defers_write_return {f : Document → Document}
    (hf : ∀ d, (f d).typeNames = d.typeNames) (hu : use.Unknown names) (classifier : String)
    (slot : Slot) (a : α) :
    Defers names scope 0
      (do modifyDocument f; await use.name? classifier scope slot; return a) fun _ => True :=
  (defers_modifyDocument hf).bind_left fun _ _ =>
    (defers_await hu classifier slot).bind_left fun _ _ => (quiet_pure a).defers

theorem defers_instantiate (template : Template) (argument : Option DataType) (weak : Bool) :
    Defers names scope 0 (instantiate template argument weak) fun _ => True := by
  refine defers_modifyGet fun s => ?_
  refine (State.Defers.of_reads (State.Reads.refl s)).modifyDocument ?_
  unfold Document.instantiate
  split <;> rfl

theorem defers_closeTemplates (hu : use.Unknown names) (classifier : String) (weak : Bool)
    (outer : List Template) :
    Defers names scope 0 (closeTemplates classifier scope weak outer use)
      (TypeUse.Unknown names) := by
  induction outer generalizing use with
  | nil => exact defers_pure hu
  | cons template outer ih =>
    refine (quiet_expectToken _ _).defers_bind fun _ => ?_
    refine (defers_instantiate template _ _).bind_left fun id _ => ?_
    exact (defers_await hu _ _).bind_left fun _ _ => ih fun _ h => by cases h

theorem defers_typeUse (classifier : String) (weak : Bool) :
    Defers names scope 0 (typeUse classifier scope weak) (TypeUse.Unknown names) := by
  refine (quiet_templates classifier).defers_bind fun (outer, name) => ?_
  refine defers_get fun s hs => ?_
  extract_lets core
  refine defers_closeTemplates (fun n hn => ?_) classifier weak outer
  simp only [core] at hn
  split at hn
  · cases hn
  · rename_i hfind
    cases hn
    exact hs ▸ TypeName.unknown_of_find? hfind

theorem defers_typeParameter (classifier : String) :
    Defers names scope 0 (typeParameter classifier scope)
      fun use? => ∀ use, use? = some use → use.Unknown names := by
  refine (quiet_isAt _ _).defers_bind fun angle => ?_
  split
  · refine quiet_advance.defers_bind fun _ => ?_
    refine (defers_typeUse classifier false).bind_left fun use hu => ?_
    refine (quiet_expectToken _ _).defers_bind fun _ => defers_pure ?_
    rintro _ ⟨⟩
    exact hu
  · exact defers_pure fun _ h => by cases h

theorem TypeUse.Unknown.getD {use? : Option TypeUse} {t : DataType}
    (h : ∀ use, use? = some use → use.Unknown names) :
    (use?.getD (.known t)).Unknown names := by
  cases use? with
  | none => exact fun _ h => by cases h
  | some use => exact h use rfl

end Defer

theorem quiet_defaultValue (statement : String) : Quiet (defaultValue statement) := by
  refine (quiet_expect _ _ _).bind fun t => quiet_get.bind fun s => ?_
  split
  · exact quiet_pure _
  · exact quiet_pure _

theorem State.reads_ask (s : State) (t? : Option DataType) (defaults : List Default) :
    s.Reads (s.ask t? defaults) where
  toOnward := { State.Onward.refl s with }
  document := rfl
  pending := rfl
  endless hd := congrArg Session.endless (Session.ask_of_decided hd t? defaults)

theorem quiet_checkDefault (t? : Option DataType) (default : Default) (statement : String) :
    Quiet (checkDefault t? default statement) := by
  refine (quiet_modify fun s => s.reads_ask t? [default]).bind fun _ => quiet_get.bind fun s => ?_
  extract_lets d
  split
  · exact quiet_fail _
  · exact quiet_pure _

/-- A default that was checked is a value of the type, as far as that is known. -/
theorem builds_checkDefault (hs : s.Ready others fail) (t? : Option DataType) (default : Default)
    (statement : String) :
    Builds checks done fail (checkDefault t? default statement) s fun _ s' =>
      s.Reads s' ∧ s.document.Admits t? default := by
  refine (quiet_modify fun s => s.reads_ask t? [default]).builds_bind hs fun _ s' hs' hr => ?_
  apply builds_get
  extract_lets d
  split
  · exact (fails_fail _).builds hs'
  · rename_i h
    refine builds_pure ⟨hr, (Document.admits_iff statement).2 fun t ht => ?_⟩
    simpa [d, ht, hr.document] using h

end Idl.Grammar
