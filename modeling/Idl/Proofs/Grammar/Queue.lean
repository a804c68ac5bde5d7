import Idl.Proofs.Grammar.Declaration
import Idl.Proofs.Grammar.Round
import Idl.Proofs.Reading.Queue

/-!
Every routine of the grammar defers names in the order in which it reads them. In between a type
is held by its name: it is read, and its slot is not written yet. Only the end of a structure puts
names behind others: there the unqualified names in it come to stand behind the qualified ones.
-/

namespace Idl.Grammar

section Types

/-- The name of a type that is not known yet. -/
def TypeUse.held (use : TypeUse) : List Token :=
  (use.name?.map (·.first)).toList

/-- A name counts by its first segment. -/
theorem queues_typeName (classifier : String) :
    Queues [] (typeName classifier) fun name => [name.first] := by
  rw [typeName_eq]
  let held (read : List String × Option Token) : List Token := read.2.toList
  refine queues_iterate (H := held) (fun (path, first) => ?_) ([], none)
  refine (queues_expect _ _ _).bind fun t => ?_
  extract_lets first'
  have hfirst : [first'].Sublist (first.toList ++ [t]) := by
    cases first with
    | none => exact List.Sublist.refl [t]
    | some u => exact List.sublist_append_left [u] [t]
  refine (quiet_isAt _ _).queues_bind fun dot => ?_
  split
  · exact quiet_advance.queues_bind fun _ => queues_pure hfirst
  · exact queues_pure hfirst

theorem queues_templates (classifier : String) :
    Queues [] (templates classifier) fun (_, name) => [name.first] := by
  rw [templates_eq]
  refine queues_iterate (H := fun _ => []) (fun outer => ?_) []
  refine (queues_typeName classifier).bind fun name => ?_
  split
  · exact (quiet_expectToken _ _).queues_bind fun _ => queues_pure (List.nil_sublist _)
  · exact queues_pure (List.Sublist.refl _)

theorem idle_instantiate (template : Template) (argument : Option DataType) (weak : Bool) :
    Idle (instantiate template argument weak) :=
  idle_of_defers fun _ _ => defers_instantiate template argument weak

theorem queues_closeTemplates (classifier : String) (scope : Option StructureId) (weak : Bool)
    (outer : List Template) (use : TypeUse) :
    Queues use.held (closeTemplates classifier scope weak outer use) TypeUse.held := by
  induction outer generalizing use with
  | nil => exact queues_pure (List.Sublist.refl _)
  | cons template outer ih =>
    refine (quiet_expectToken _ _).queues_bind fun _ => ?_
    refine (idle_instantiate template _ _).queues_bind fun id => ?_
    exact (queues_await _ _ _ _).bind fun _ => ih (.known (.template id))

theorem queues_typeUse (classifier : String) (scope : Option StructureId) (weak : Bool) :
    Queues [] (typeUse classifier scope weak) TypeUse.held := by
  refine (queues_templates classifier).bind fun (outer, name) => ?_
  refine queues_get fun s => ?_
  extract_lets core
  refine (queues_closeTemplates classifier scope weak outer core).weaken ?_
  simp only [core]
  split
  · exact List.nil_sublist _
  · exact List.Sublist.refl _

theorem queues_typeParameter (classifier : String) (scope : Option StructureId) :
    Queues [] (typeParameter classifier scope) fun use? => use?.elim [] TypeUse.held := by
  refine (quiet_isAt _ _).queues_bind fun angle => ?_
  split
  · refine quiet_advance.queues_bind fun _ => ?_
    refine (queues_typeUse classifier scope false).bind fun use => ?_
    exact (quiet_expectToken _ _).queues_bind fun _ => queues_pure (List.Sublist.refl _)
  · exact queues_pure (List.Sublist.refl _)

theorem TypeUse.held_getD (use? : Option TypeUse) (t : DataType) :
    (use?.getD (.known t)).held = use?.elim [] TypeUse.held := by
  cases use? <;> rfl

/-- What is written together with a type, and then the name of the type waits. -/
theorem queues_write (f : Document → Document) (use : TypeUse) (classifier : String)
    (scope : Option StructureId) (slot : Slot) :
    Queues use.held (do modifyDocument f; await use.name? classifier scope slot) fun _ => [] :=
  (idle_modifyDocument f).queues_bind fun _ => queues_await _ _ _ _

theorem queues_write_return {α : Type} (f : Document → Document) (use : TypeUse)
    (classifier : String) (scope : Option StructureId) (slot : Slot) (a : α) :
    Queues use.held (do modifyDocument f; await use.name? classifier scope slot; return a)
      fun _ => [] :=
  (idle_modifyDocument f).queues_bind fun _ =>
    (queues_await _ _ _ _).bind fun _ => queues_pure (List.Sublist.refl _)

end Types

section Bodies

variable {p : Parser Unit}

/-- An item that is read under a condition, and is unknown otherwise. -/
theorem queues_item {c : Bool} (hp : Queues [] p fun _ => []) (t : Token)
    (context options : String) (s : State) :
    s.Queues [] (s.salvage (if c then p else unknownStatement t context options)) := by
  refine Queues.salvage ?_ s
  split
  · exact hp
  · exact (fails_unknownStatement _ _ _).queues

theorem idle_enumerationValue (id : EnumerationId) (comment : Option Comment) (first : Token) :
    Idle (enumerationValue id comment first) :=
  idle_of_defers fun _ _ => defers_enumerationValue id comment first

theorem queues_enumerationHeader (comment : Option Comment) (modifiers : List Token)
    (owner : Option StructureId) :
    Queues [] (enumerationHeader comment modifiers owner) fun _ => [] := by
  unfold enumerationHeader
  refine (quiet_expectKeyword _).queues_bind fun keyword => ?_
  refine (queues_typeParameter _ _).bind fun use? => ?_
  extract_lets parameter
  rw [← TypeUse.held_getD use? (.builtin .integer)]
  refine (quiet_expectName _).queues_bind fun name => ?_
  refine (quiet_isAtKeyword _).queues_bind fun flags => ?_
  extract_lets write
  have hwrite : Queues parameter.held (write ()) fun _ => [] := by
    refine queues_get fun s => ?_
    extract_lets id header
    exact queues_write_return _ parameter _ _ _ _
  split
  · exact quiet_advance.queues_bind fun _ => hwrite
  · exact hwrite

theorem queues_enumeration (comment : Option Comment) (modifiers : List Token)
    (owner : Option StructureId) :
    Queues [] (enumeration comment modifiers owner) fun _ => [] := by
  refine (queues_enumerationHeader comment modifiers owner).bind fun id => ?_
  refine (queues_body fun comment t s => (idle_enumerationValue id comment t).queues.salvage s).bind
    fun _ => ?_
  exact (idle_modifyDocument _).queues_bind fun _ => queues_pure (List.Sublist.refl _)

theorem queues_parameter (id : InterfaceId) (method : Nat) (comment : Option Comment)
    (arrow : Token) : Queues [] (parameter id method comment arrow) fun _ => [] := by
  unfold parameter
  refine quiet_advance.queues_bind fun _ => ?_
  refine (queues_typeUse _ _ _).bind fun use => ?_
  refine (quiet_expectName _).queues_bind fun name => ?_
  refine quiet_expectSemicolon.queues_bind fun _ => queues_get fun s => ?_
  extract_lets count node
  exact queues_write _ use _ _ _

theorem queues_method (id : InterfaceId) (comment : Option Comment) :
    Queues [] (method id comment) fun _ => [] := by
  have hheader : Idle (methodHeader id comment) :=
    idle_of_defers fun _ _ => defers_methodHeader id comment
  exact hheader.queues_bind fun position => queues_items fun comment t =>
    queues_item (queues_parameter id position comment t) t _ _

theorem queues_interface (comment : Option Comment) :
    Queues [] (interface comment) fun _ => [] := by
  have hheader : Idle (interfaceHeader comment) :=
    idle_of_defers fun _ _ => defers_interfaceHeader comment
  refine hheader.queues_bind fun id => ?_
  exact (queues_body fun comment t => queues_item (queues_method id comment) t _ _).bind fun _ =>
    queues_pure (List.Sublist.refl _)

theorem queues_factoryHeader (comment : Option Comment) (modifiers : List Token) :
    Queues [] (factoryHeader comment modifiers) fun _ => [] := by
  unfold factoryHeader
  refine (quiet_expectKeyword _).queues_bind fun keyword => ?_
  refine (quiet_factoryKind _ _).queues_bind fun kind => ?_
  refine (quiet_factoryFunction _ _).queues_bind fun function => ?_
  refine (queues_typeParameter _ _).bind fun use? => ?_
  split
  · exact (fails_failHere _ _).queues
  · rename_i parameter
    refine (quiet_expectName _).queues_bind fun name => queues_get fun s => ?_
    extract_lets id header
    exact queues_write_return _ parameter _ _ _ _

theorem queues_factory (comment : Option Comment) (modifiers : List Token) :
    Queues [] (factory comment modifiers) fun _ => [] := by
  refine (queues_factoryHeader comment modifiers).bind fun id => ?_
  have hfilter (comment : Option Comment) (t : Token) : Idle (filter id comment t) :=
    idle_of_defers fun _ _ => defers_filter id comment t
  exact (queues_body fun comment t => queues_item (hfilter comment t).queues t _ _).bind fun _ =>
    queues_pure (List.Sublist.refl _)

theorem queues_identifier (comment : Option Comment) (modifiers : List Token) :
    Queues [] (identifier comment modifiers) fun _ => [] := by
  unfold identifier
  refine (quiet_expectKeyword _).queues_bind fun keyword => ?_
  refine (queues_typeParameter _ _).bind fun use? => ?_
  extract_lets parameter
  rw [← TypeUse.held_getD use? (.builtin .integer)]
  refine (quiet_expectName _).queues_bind fun name => ?_
  refine (quiet_emptyBody _).queues_bind fun _ => queues_get fun s => ?_
  extract_lets id node
  exact queues_write_return _ parameter _ _ _ _

theorem queues_specimen (comment : Option Comment) (modifiers : List Token) :
    Queues [] (specimen comment modifiers) fun _ => [] := by
  unfold specimen
  refine (quiet_expectKeyword _).queues_bind fun keyword => ?_
  refine (queues_typeParameter _ _).bind fun use? => ?_
  refine (quiet_expectName _).queues_bind fun name => ?_
  refine (quiet_isAtKeyword _).queues_bind fun inherit => ?_
  extract_lets write
  have hwrite (base : Option SpecimenId) :
      Queues (use?.elim [] TypeUse.held) (write base) fun _ => [] := by
    refine (quiet_emptyBody _).queues_bind fun _ => queues_get fun s => ?_
    extract_lets parameter id node
    rw [← TypeUse.held_getD use? (inheritedParameter s.document base)]
    exact queues_write_return _ parameter _ _ _ _
  split
  · exact quiet_advance.queues_bind fun _ => quiet_specimenBase.map.queues_bind hwrite
  · exact (quiet_pure none).queues_bind hwrite

end Bodies

section Structures

variable {checks : List Check} {id : StructureId}

theorem queues_field (id : StructureId) (comment : Option Comment) (modifiers : List Token)
    (weak : Bool) : Queues [] (field id comment modifiers weak) fun _ => [] := by
  refine queues_get fun s => ?_
  extract_lets location
  refine (queues_typeUse _ _ _).bind fun use => ?_
  refine (quiet_expectName _).queues_bind fun name => ?_
  refine (quiet_isAt _ _).queues_bind fun hasDefault => ?_
  extract_lets complete
  have hcomplete (default : Option Default) : Queues use.held (complete default) fun _ => [] := by
    have hoverridden : Quiet ((taken? modifiers ["override"]).mapM fun keyword =>
        overriddenField id keyword name.value) := by
      cases taken? modifiers ["override"] with
      | none => exact quiet_pure _
      | some keyword => exact (quiet_overriddenField id keyword _).map
    refine hoverridden.queues_bind fun overridden => ?_
    refine quiet_expectSemicolon.queues_bind fun _ => queues_get fun s => ?_
    extract_lets own node
    exact queues_write _ use _ _ _
  split
  · refine quiet_advance.queues_bind fun _ => ?_
    refine (quiet_defaultValue _).queues_bind fun default => ?_
    exact (quiet_checkDefault _ _ _).queues_bind fun _ => hcomplete (some default)
  · exact hcomplete none

theorem queues_member (comment : Option Comment) (first : Token) :
    Queues [] (member id comment first) fun _ => [] := by
  unfold member
  extract_lets dispatch
  have hdispatch : Queues [] (dispatch ()) fun _ => [] := by
    refine (quiet_modifiers _).queues_bind fun taken => queues_get fun s => ?_
    extract_lets t form isReference complete
    have hcomplete (nested : Option EnumerationId) : Queues [] (complete nested) fun _ => [] :=
      (quiet_reportModifiers _).queues_bind fun _ => queues_pure (List.Sublist.refl _)
    have plain {p : Parser Unit} (hp : Queues [] p fun _ => []) :
        Queues [] (do p; let nested ← pure none; complete nested) fun _ => [] :=
      hp.bind fun _ => (quiet_pure none).queues_bind hcomplete
    clear_value form
    cases form with
    | identification =>
      exact plain (idle_of_defers fun _ _ => defers_identification comment taken).queues
    | upcopy => exact plain (idle_of_defers fun _ _ => defers_upcopy comment).queues
    | operator => exact plain (idle_of_defers fun _ _ => defers_operator comment taken).queues
    | field => exact plain (queues_field id comment taken _)
    | enumeration =>
      have hsome : Queues [] (some <$> enumeration comment taken (some id)) fun _ => [] :=
        (queues_enumeration comment taken (some id)).map fun _ => List.Sublist.refl _
      exact hsome.bind hcomplete
  split
  · exact (quiet_unexpected _).queues_bind fun _ => hdispatch
  · exact hdispatch

theorem queues_structureItem (comment : Option Comment) (first : Token) (s : State) :
    s.Queues [] (structureItem checks id comment first s) := by
  refine .construct (queues_member comment first s s (.refl s)) (fun nested s' => ?_)
    fun s' => (State.reads_recover s').idles
  cases nested with
  | none => exact (State.Reads.refl s').idles
  | some e =>
    have hvisit := (State.reads_visit s' checks (.declaration (.enum e)) false).idles
    simp only [acceptNested]
    split
    · exact { hvisit with }
    · exact hvisit

/-- Names were deferred in a scope, in the order in which they were read. -/
structure State.Lines (scope : Option StructureId) (s s' : State) : Prop where
  defers : s.Defers scope s'
  queues : s.Queues [] s'

theorem State.Lines.of_reads {scope : Option StructureId} {s s' s'' : State} (h : s.Reads s')
    (h' : s'.Lines scope s'') : s.Lines scope s'' :=
  ⟨(State.Defers.of_reads h).trans h'.defers, ((State.Queues.refl s).idles h.idles).trans h'.queues⟩

theorem State.Lines.reads {scope : Option StructureId} {s s' s'' : State} (h : s.Lines scope s')
    (h' : s'.Reads s'') : s.Lines scope s'' :=
  ⟨h.defers.trans (.of_reads h'), h.queues.idles h'.idles⟩

/-- The names in a structure wait in the order in which they stand, up to the end of its body. -/
theorem after_structureDeclaration_lines (comment : Option Comment) (modifiers : List Token)
    (s : State) :
    After (structureDeclaration checks comment modifiers) s
      (fun id s' => ∃ s₁, s.Lines (some id) s₁ ∧
        s' = s₁.settle fun session pending => session.settleScope checks id pending)
      fun _ => True := by
  apply After.bind
  have hheader : Idle (structureHeader comment modifiers) :=
    idle_of_defers fun _ _ => defers_structureHeader comment modifiers
  cases hp : structureHeader comment modifiers s with
  | error e s₁ => simp only [After, hp]
  | ok id s₁ =>
    have hdefers : s.Defers (some id) s₁ :=
      ((defers_structureHeader comment modifiers s rfl).of_ok hp).1
    have hidle : s.Queues [] s₁ := (State.Queues.refl s).idles ((hheader s).of_ok hp)
    simp only [After, hp]
    have hdefer : Defers s₁.document.typeNames (some id) 0
        (body "structure" (structureItem checks id)) fun _ => True := defers_structureBody
    have hqueue : Queues [] (body "structure" (structureItem checks id)) fun _ => [] :=
      queues_body queues_structureItem
    refine After.bind (((hdefer s₁ rfl).and (hqueue s s₁ hidle)).mono
      (fun _ s₂ h => ?_) fun _ _ => trivial)
    exact ⟨s₂, ⟨hdefers.trans h.1.1, h.2⟩, rfl⟩

end Structures

section Declaration

variable {checks : List Check}

/-- A declaration has let names wait in the order in which it reads them; those in a structure
are then settled in it. -/
inductive State.Queued (checks : List Check) (s : State) : Declaration → State → Prop where
  | plain {x : Declaration} {s' : State} (h : s.Lines none s') : Queued checks s x s'
  | within {id : StructureId} {s₁ s' : State} (h : s.Lines (some id) s₁)
      (hr : (s₁.settle fun session pending => session.settleScope checks id pending).Reads s') :
      Queued checks s (.struct id) s'

theorem State.Queued.of_reads {s s' s'' : State} {x : Declaration} (h : s.Reads s')
    (h' : s'.Queued checks x s'') : s.Queued checks x s'' := by
  cases h' with
  | plain hl => exact .plain (hl.of_reads h)
  | within hl hr => exact .within (hl.of_reads h) hr

theorem State.Queued.reads {s s' s'' : State} {x : Declaration} (h : s.Queued checks x s')
    (h' : s'.Reads s'') : s.Queued checks x s'' := by
  cases h with
  | plain hl => exact .plain (hl.reads h')
  | within hl hr => exact .within hl (hr.trans h')

theorem after_declaration_queued (comment : Option Comment) (s : State) :
    After (declaration checks comment) s (s.Queued checks) fun _ => True := by
  unfold declaration
  apply After.bind
  refine After.mono (quiet_modifiers _ s) (fun taken s₁ hr₁ => ?_) fun _ _ => trivial
  apply After.bind
  apply after_get
  split
  · exact (fails_failHere _ _ s₁).mono (fun _ _ h => h.elim) fun _ _ => trivial
  · rename_i form _
    extract_lets finish
    have hfinish {x : Declaration} {s₂ : State} (hx : s₁.Queued checks x s₂) :
        After (finish x) s₂ (s.Queued checks) fun _ => True := by
      apply After.bind
      refine After.mono (after_reportModifiers _ s₂) (fun _ s₃ hr => ?_) fun _ h => h.elim
      exact after_pure ((hx.of_reads hr₁).reads hr)
    have hplain {α : Type} {p : Parser α} {node : α → Declaration} {least : Nat} {Q : α → Prop}
        (hd : Defers s₁.document.typeNames none least p Q) (hq : Queues [] p fun _ => []) :
        After (do let x ← node <$> p; finish x) s₁ (s.Queued checks) fun _ => True := by
      apply After.bind
      refine After.bind (After.mono ((hd s₁ rfl).and (hq s₁ s₁ (.refl s₁)))
        (fun a s₂ ⟨⟨hd, _⟩, hq⟩ => ?_) fun _ _ => trivial)
      exact after_pure (hfinish (.plain ⟨hd, hq⟩))
    cases form with
    | struct =>
      apply After.bind
      refine After.bind (After.mono (after_structureDeclaration_lines comment taken s₁)
        (fun id s₂ ⟨s', hl, heq⟩ => ?_) fun _ _ => trivial)
      subst heq
      exact after_pure (hfinish (.within hl (State.Reads.refl _)))
    | interface => exact hplain (defers_interface comment) (queues_interface comment)
    | enum => exact hplain (defers_enumeration comment taken) (queues_enumeration _ _ _)
    | specimen => exact hplain (defers_specimen comment taken) (queues_specimen _ _)
    | identifier => exact hplain (defers_identifier comment taken) (queues_identifier _ _)
    | factory => exact hplain (defers_factory comment taken) (queues_factory _ _)

end Declaration

end Idl.Grammar
