import Idl.Grammar.Source
import Idl.Proofs.Grammar.Round
import Idl.Proofs.Reading.Invariant
import Idl.Proofs.Session.Bind

/-!
The routines of the grammar maintain every invariant that obeys the laws. What a routine returns
was read or written under the invariant: tokens, names, types that may have to wait, defaults.
-/

namespace Idl

namespace Grammar

variable {α : Type} {I : Invariant}

/-- A type that was read: if it is not known, its name may wait. -/
def Invariant.use (I : Invariant) (use : TypeUse) : Prop :=
  ∀ name, use.name? = some name → I.name name

theorem Invariant.use_known (t : DataType) : I.use (.known t) :=
  nofun

theorem Invariant.use_getD {use? : Option TypeUse} {t : DataType}
    (h : ∀ use, use? = some use → I.use use) : I.use (use?.getD (.known t)) := by
  cases use? with
  | none => exact nofun
  | some use => exact h use rfl

variable (hI : I.Lawful)

include hI

section Types

theorem maintains_typeName (classifier : String) :
    Maintains I (typeName classifier) fun name => I.token name.first := by
  rw [typeName_eq]
  refine maintains_iterate (P := fun a => ∀ t, a.2 = some t → I.token t)
    (fun (path, first?) hfirst? => ?_) nofun
  refine (maintains_expect hI _ rfl _).bind fun t ht => ?_
  extract_lets first
  have hfirst : I.token first := by
    change I.token (first?.getD t)
    cases hf : first? with
    | none => exact ht
    | some t' => exact hfirst? t' hf
  refine (maintains_isAt _ _).bind fun found _ => ?_
  split
  · refine (maintains_advance hI).bind fun _ _ => maintains_pure ?_
    rintro _ ⟨⟩
    exact hfirst
  · exact maintains_pure hfirst

theorem maintains_unknownType {P : α → Prop} {name : TypeName} (hn : I.token name.first)
    (classifier : String) : Maintains I (unknownType name classifier : Parser α) P :=
  maintains_failAt hI hn rfl _

theorem maintains_inappropriate {P : α → Prop} {t : Token} (ht : I.token t)
    (classifier options : String) :
    Maintains I (inappropriate t classifier options : Parser α) P :=
  maintains_failAt hI ht rfl _

theorem maintains_unknownStatement {P : α → Prop} {t : Token} (ht : I.token t)
    (context options : String) :
    Maintains I (unknownStatement t context options : Parser α) P :=
  maintains_failAt hI ht rfl _

theorem maintains_declaredType (classifier : String) :
    Maintains I (declaredType classifier) fun r => I.token r.1.first := by
  refine (maintains_typeName hI classifier).bind fun name hn => maintains_get fun s _ => ?_
  split
  · exact maintains_pure hn
  · exact maintains_unknownType hI hn _

theorem maintains_templates (classifier : String) :
    Maintains I (templates classifier) fun r => I.token r.2.first := by
  rw [templates_eq]
  refine maintains_iterate (P := fun _ => True) (fun outer _ => ?_) trivial
  refine (maintains_typeName hI classifier).bind fun name hn => ?_
  split
  · exact (maintains_expectToken hI _ _).bind fun _ _ => maintains_pure trivial
  · exact maintains_pure hn

theorem maintains_instantiate (template : Template) (argument : Option DataType) (weak : Bool) :
    Maintains I (instantiate template argument weak) fun _ => True := by
  refine maintains_modifyGet fun s hs => ⟨?_, trivial⟩
  simp only [Document.instantiate]
  split
  · exact hs
  · rename_i hlacks
    exact hI.write hs (.instance _ hlacks)

theorem maintains_closeTemplates (classifier : String) (scope : Option StructureId) (weak : Bool)
    (outer : List Template) {use : TypeUse} (hu : I.use use) :
    Maintains I (closeTemplates classifier scope weak outer use) I.use := by
  induction outer generalizing use with
  | nil => exact maintains_pure hu
  | cons template outer ih =>
    refine (maintains_expectToken hI _ _).bind fun _ _ => ?_
    refine (maintains_instantiate hI _ _ _).bind fun id _ => ?_
    exact (maintains_await hI hu _ _ _).bind fun _ _ => ih (I.use_known _)

theorem maintains_typeUse (classifier : String) (scope : Option StructureId) (weak : Bool) :
    Maintains I (typeUse classifier scope weak) I.use := by
  refine (maintains_templates hI classifier).bind fun (outer, name) hn =>
    maintains_get fun s hs => ?_
  extract_lets core
  refine maintains_closeTemplates hI classifier scope weak outer ?_
  simp only [core]
  split
  · exact I.use_known _
  · rename_i hunknown
    rintro _ ⟨⟩
    exact hI.unknown hs hn hunknown

theorem maintains_typeParameter (classifier : String) (scope : Option StructureId) :
    Maintains I (typeParameter classifier scope) fun use? =>
      ∀ use, use? = some use → I.use use := by
  refine (maintains_isAt _ _).bind fun found _ => ?_
  split
  · refine (maintains_advance hI).bind fun _ _ => ?_
    refine (maintains_typeUse hI _ _ _).bind fun use hu => ?_
    refine (maintains_expectToken hI _ _).bind fun _ _ => maintains_pure ?_
    rintro _ ⟨⟩
    exact hu
  · exact maintains_pure nofun

theorem maintains_defaultValue (statement : String) :
    Maintains I (defaultValue statement) fun default => I.location default.location := by
  refine (maintains_expect hI _ rfl _).bind fun t ht => maintains_get fun s hs => ?_
  have hlocation := hI.locationOf hs ht
  extract_lets location
  split
  · exact maintains_pure hlocation
  · exact maintains_pure hlocation

theorem maintains_checkDefault (t : Option DataType) {default : Default}
    (hd : I.location default.location) (statement : String) :
    Maintains I (checkDefault t default statement) fun _ => True := by
  refine (maintains_modify fun s hs => hI.ask hs t [default]).bind fun _ _ =>
    maintains_get fun s _ => ?_
  extract_lets d
  split
  · rename_i fault hfault
    obtain ⟨t, _, hfault⟩ := Option.bind_eq_some_iff.1 hfault
    exact maintains_fail hI (Document.location_of_defaultFault? hfault ▸ hd)
      (Document.isFinding_of_defaultFault? hfault)
  · exact maintains_pure trivial

theorem maintains_write_await {f : Document → Document}
    (hf : ∀ d, Document.Write I.location I.heading d (f d)) {use : TypeUse} (hu : I.use use)
    (classifier : String) (scope : Option StructureId) (slot : Slot) :
    Maintains I (do modifyDocument f; await use.name? classifier scope slot) fun _ => True :=
  (maintains_modifyDocument hI hf).bind fun _ _ => maintains_await hI hu _ _ _

end Types

section Modifiers

theorem maintains_modifiers (words : List String) :
    Maintains I (modifiers words) fun taken => ∀ t ∈ taken, I.token t := by
  rw [modifiers_eq]
  refine maintains_iterate (P := fun taken => ∀ t ∈ taken, I.token t) (fun taken htaken => ?_)
    nofun
  refine maintains_get fun s hs => ?_
  split
  · rename_i t ht
    split
    · refine (maintains_advance hI).bind fun _ _ => maintains_pure fun t' hmem => ?_
      rcases List.mem_append.1 hmem with hmem | hmem
      · exact htaken t' hmem
      · exact List.mem_singleton.1 hmem ▸ hI.current hs ht
    · exact maintains_pure htaken
  · exact maintains_pure htaken

omit hI in
/-- What holds behind each report of a modifier holds behind all of them. -/
theorem after_reportModifiers_of_report {J E : State → Prop} {modifiers : List Token}
    (hreport : ∀ {s : State} {t : Token}, J s → I.token t →
      J (s.report (.of .unexpectedModifier (s.locationOf t) [(.modifier, t.text)])))
    (hm : ∀ t ∈ modifiers, I.token t) {s : State} (hs : J s) :
    After (reportModifiers modifiers) s (fun _ => J) E := by
  change J (modifiers.foldl
    (fun s t => s.report (.of .unexpectedModifier (s.locationOf t) [(.modifier, t.text)])) s)
  induction modifiers generalizing s with
  | nil => exact hs
  | cons t modifiers ih =>
    exact ih (fun t' ht' => hm t' (List.mem_cons_of_mem t ht'))
      (hreport hs (hm t List.mem_cons_self))

theorem maintains_reportModifiers {modifiers : List Token}
    (hm : ∀ t ∈ modifiers, I.token t) :
    Maintains I (reportModifiers modifiers) fun _ => True :=
  fun _ hs => (after_reportModifiers_of_report
    (fun h ht => hI.report h (hI.locationOf h ht) rfl) hm hs).mono (fun _ _ h => ⟨h, trivial⟩)
    fun _ h => h

omit hI in
theorem Invariant.forall_leftOver {modifiers : List Token} (hm : ∀ t ∈ modifiers, I.token t)
    (groups : List (List String)) : ∀ t ∈ leftOver modifiers groups, I.token t := by
  unfold leftOver
  induction groups generalizing modifiers with
  | nil => exact hm
  | cons group groups ih => exact ih fun t ht => hm t (List.mem_of_mem_eraseP ht)

end Modifiers

section Enumerations

theorem maintains_valueParts (id : EnumerationId) :
    Maintains I (valueParts id) fun _ => True := by
  rw [valueParts_eq]
  refine maintains_iterate (P := fun _ => True) (fun parts _ => ?_) trivial
  refine (maintains_expectName hI _).bind fun part hpart => maintains_get fun s _ => ?_
  split
  · exact maintains_fail hI hpart rfl
  · refine (maintains_isAt _ _).bind fun found _ => ?_
    split
    · exact (maintains_advance hI).bind fun _ _ => maintains_pure trivial
    · exact maintains_pure trivial

theorem maintains_enumerationValue (id : EnumerationId) (comment : Option Comment)
    (first : Token) : Maintains I (enumerationValue id comment first) fun _ => True := by
  unfold enumerationValue
  extract_lets named
  have hnamed : Maintains I (named ()) fun _ => True := by
    refine (maintains_expectName hI _).bind fun name hname => ?_
    refine (maintains_isAt _ _).bind fun found _ => ?_
    extract_lets complete
    have hcomplete (parts : Option (List Nat)) :
        Maintains I (complete parts) fun _ => True :=
      (maintains_expectSemicolon hI).bind fun _ _ =>
        maintains_modifyDocument hI fun _ => .value id _ hname
    split
    · refine (maintains_advance hI).bind fun _ _ => Maintains.bind (P := fun _ => True) ?_
        fun parts _ => hcomplete parts
      exact (maintains_valueParts hI id).bind fun _ _ => maintains_pure trivial
    · exact (maintains_pure (P := fun _ => True) trivial).bind fun parts _ => hcomplete parts
  split
  · exact (maintains_unexpected hI (P := fun _ => True) _).bind fun _ _ => hnamed
  · exact hnamed

theorem maintains_enumerationHeader (comment : Option Comment) (modifiers : List Token)
    (owner : Option StructureId) :
    Maintains I (enumerationHeader comment modifiers owner) fun _ => True := by
  unfold enumerationHeader
  refine (maintains_expectKeyword hI _).bind fun keyword hkeyword => ?_
  refine (maintains_typeParameter hI _ _).bind fun use? hu => ?_
  extract_lets parameter
  refine (maintains_expectName hI _).bind fun name hname => ?_
  refine (maintains_isAt _ _).bind fun flags _ => ?_
  extract_lets write
  have hwrite : Maintains I (write ⟨⟩) fun _ => True := by
    refine maintains_get fun s hs => ?_
    extract_lets id header
    have hheader : I.heading header.toHeading :=
      hI.heading hs (hI.locationOf hs hkeyword) hname rfl
    refine (maintains_modifyDocument hI fun _ => .enum header hheader rfl).bind fun _ _ => ?_
    exact (maintains_await hI (I.use_getD hu) _ _ _).bind fun _ _ => maintains_pure trivial
  split
  · exact (maintains_advance hI).bind fun _ _ => hwrite
  · exact hwrite

theorem maintains_enumeration (comment : Option Comment) (modifiers : List Token)
    (owner : Option StructureId) :
    Maintains I (enumeration comment modifiers owner) fun _ => True := by
  refine (maintains_enumerationHeader hI _ _ _).bind fun id _ => ?_
  refine Maintains.bind (maintains_body hI fun comment first s hs _ =>
    hI.salvage hs (maintains_enumerationValue hI id comment first)) fun _ _ => ?_
  exact (maintains_modifyDocument hI fun _ => .numbers id).bind fun _ _ => maintains_pure trivial

end Enumerations

section Values

theorem maintains_identifier (comment : Option Comment) (modifiers : List Token) :
    Maintains I (identifier comment modifiers) fun _ => True := by
  refine (maintains_expectKeyword hI _).bind fun keyword hkeyword => ?_
  refine (maintains_typeParameter hI _ _).bind fun use? hu => ?_
  extract_lets parameter
  refine (maintains_expectName hI _).bind fun name hname => ?_
  refine (maintains_emptyBody hI _).bind fun _ _ => maintains_get fun s hs => ?_
  extract_lets id identifier
  have hheader : I.heading identifier.toHeading :=
    hI.heading hs (hI.locationOf hs hkeyword) hname rfl
  refine (maintains_modifyDocument hI fun _ => .identifier identifier hheader).bind fun _ _ => ?_
  exact (maintains_await hI (I.use_getD hu) _ _ _).bind fun _ _ => maintains_pure trivial

theorem maintains_specimenBase : Maintains I specimenBase fun _ => True := by
  refine (maintains_declaredType hI _).bind fun (name, t) hn => ?_
  cases t with
  | specimen base => exact maintains_pure trivial
  | _ => exact maintains_inappropriate hI hn _ _

theorem maintains_specimen (comment : Option Comment) (modifiers : List Token) :
    Maintains I (specimen comment modifiers) fun _ => True := by
  refine (maintains_expectKeyword hI _).bind fun keyword hkeyword => ?_
  refine (maintains_typeParameter hI _ _).bind fun use? hu => ?_
  refine (maintains_expectName hI _).bind fun name hname => ?_
  refine (maintains_isAt _ _).bind fun found _ => ?_
  extract_lets complete
  have hcomplete (base : Option SpecimenId) : Maintains I (complete base) fun _ => True := by
    refine (maintains_emptyBody hI _).bind fun _ _ => maintains_get fun s hs => ?_
    extract_lets parameter id specimen
    have hheader : I.heading specimen.toHeading :=
      hI.heading hs (hI.locationOf hs hkeyword) hname rfl
    refine (maintains_modifyDocument hI fun _ => .specimen specimen hheader).bind fun _ _ => ?_
    exact (maintains_await hI (I.use_getD hu) _ _ _).bind fun _ _ => maintains_pure trivial
  split
  · refine (maintains_advance hI).bind fun _ _ => Maintains.bind (P := fun _ => True) ?_
      fun base _ => hcomplete base
    exact (maintains_specimenBase hI).bind fun _ _ => maintains_pure trivial
  · exact (maintains_pure (P := fun _ => True) trivial).bind fun base _ => hcomplete base

end Values

section Structures

variable {id : StructureId}

theorem maintains_addMember {m : Member} (hm : ∀ l ∈ m.locations, I.location l) :
    Maintains I (addMember id m) fun _ => True :=
  maintains_modifyDocument hI fun _ => .member id m hm

theorem maintains_structureBase : Maintains I structureBase fun _ => True := by
  refine (maintains_declaredType hI _).bind fun (name, t) hn => ?_
  cases t with
  | struct base => exact maintains_pure trivial
  | _ => exact maintains_inappropriate hI hn _ _

theorem maintains_baseField (base : StructureId) (name : String) {location : Location}
    (hl : I.location location) : Maintains I (baseField base name location) fun _ => True := by
  refine maintains_get fun s _ => ?_
  split
  · exact maintains_pure trivial
  · exact maintains_fail hI hl rfl

theorem maintains_alters (base : StructureId) : Maintains I (alters id base) fun _ => True := by
  rw [alters_eq]
  refine maintains_iterate (P := fun _ => True) (fun _ _ => ?_) trivial
  refine (maintains_advance hI).bind fun _ _ => ?_
  refine (maintains_expectName hI _).bind fun name hname => ?_
  refine (maintains_baseField hI _ _ hname).bind fun field _ => ?_
  refine (maintains_expectToken hI _ _).bind fun _ _ => ?_
  refine (maintains_defaultValue hI _).bind fun default hdefault => maintains_get fun s _ => ?_
  refine (maintains_checkDefault hI _ hdefault _).bind fun _ _ => ?_
  have halter (l : Location)
      (hl : l ∈ (Member.alter { field, name, default, location := name.location }).locations) :
      I.location l := by
    rw [List.mem_singleton.1 hl]
    exact hdefault
  refine (maintains_addMember hI halter).bind fun _ _ => ?_
  refine (maintains_isAt _ _).bind fun found _ => ?_
  split
  · exact maintains_pure trivial
  · exact maintains_pure trivial

theorem maintains_structureHeader (comment : Option Comment) (modifiers : List Token) :
    Maintains I (structureHeader comment modifiers) fun _ => True := by
  unfold structureHeader
  refine (maintains_expectKeyword hI _).bind fun keyword hkeyword => ?_
  refine (maintains_expectName hI _).bind fun name hname => maintains_get fun s hs => ?_
  extract_lets id header
  have hheader : I.heading header.toHeading :=
    hI.heading hs (hI.locationOf hs hkeyword) hname rfl
  refine (maintains_modifyDocument hI fun _ => .struct header hheader rfl).bind fun _ _ => ?_
  refine (maintains_isAt _ _).bind fun found _ => ?_
  split
  · refine (maintains_advance hI).bind fun _ _ => (maintains_structureBase hI).bind fun base _ => ?_
    refine (maintains_modifyDocument hI fun _ => .base id base).bind fun _ _ => ?_
    refine (maintains_isAt _ _).bind fun found _ => ?_
    split
    · exact (maintains_alters hI base).bind fun _ _ => maintains_pure trivial
    · exact maintains_pure trivial
  · exact maintains_pure trivial

theorem maintains_identification (comment : Option Comment) (modifiers : List Token) :
    Maintains I (identification id comment modifiers) fun _ => True := by
  refine (maintains_expectKeyword hI _).bind fun keyword hkeyword => maintains_get fun s _ => ?_
  extract_lets behind complete
  have hcomplete : Maintains I (complete ⟨⟩) fun _ => True := by
    refine (maintains_expectSemicolon hI).bind fun _ _ => maintains_get fun s hs => ?_
    refine maintains_addMember hI fun l hl => ?_
    rw [List.mem_singleton.1 hl]
    exact hI.locationOf hs hkeyword
  split
  · exact (maintains_advance hI).bind fun _ _ => hcomplete
  · exact hcomplete

theorem maintains_upcopy (comment : Option Comment) :
    Maintains I (upcopy id comment) fun _ => True := by
  refine (maintains_expectKeyword hI _).bind fun keyword _ => ?_
  refine (maintains_expectKeyword hI _).bind fun _ _ => ?_
  refine (maintains_typeName hI _).bind fun name hn => maintains_get fun s _ => ?_
  split
  · exact maintains_unknownType hI hn _
  · extract_lets complete
    have hcomplete : Maintains I (complete ⟨⟩) fun _ => True :=
      (maintains_expectSemicolon hI).bind fun _ _ => maintains_addMember hI nofun
    split
    · exact (maintains_failAt hI (P := fun _ => True) hn rfl _).bind fun _ _ => hcomplete
    · exact hcomplete
  · exact maintains_inappropriate hI hn _ _

theorem maintains_operator (comment : Option Comment) (modifiers : List Token) :
    Maintains I (operator id comment modifiers) fun _ => True := by
  refine (maintains_expectKeyword hI _).bind fun keyword hkeyword => maintains_get fun s _ => ?_
  split
  · exact maintains_failHere hI rfl _
  · refine (maintains_advance hI).bind fun _ _ => ?_
    refine (maintains_expectSemicolon hI).bind fun _ _ => maintains_get fun s hs => ?_
    refine maintains_addMember hI fun l hl => ?_
    rw [List.mem_singleton.1 hl]
    exact hI.locationOf hs hkeyword

theorem maintains_overriddenField {keyword : Token} (hk : I.token keyword) (name : String) :
    Maintains I (overriddenField id keyword name) fun _ => True := by
  refine maintains_get fun s hs => ?_
  split
  · exact maintains_baseField hI _ _ (hI.locationOf hs hk)
  · exact maintains_failAt hI hk rfl _

theorem maintains_field (comment : Option Comment) {modifiers : List Token}
    (hm : ∀ t ∈ modifiers, I.token t) (weak : Bool) :
    Maintains I (field id comment modifiers weak) fun _ => True := by
  refine maintains_get fun s hs => ?_
  have hlocation := hI.here hs
  extract_lets location
  refine (maintains_typeUse hI _ _ _).bind fun use hu => ?_
  refine (maintains_expectName hI _).bind fun name hname => ?_
  refine (maintains_isAt _ _).bind fun found _ => ?_
  extract_lets complete
  have hcomplete (default : Option Default)
      (hd : ∀ x, default = some x → I.location x.location) :
      Maintains I (complete default) fun _ => True := by
    have hoverridden : Maintains I ((taken? modifiers ["override"]).mapM fun keyword =>
        overriddenField id keyword name.value) fun _ => True := by
      cases htaken : taken? modifiers ["override"] with
      | none => exact maintains_pure trivial
      | some keyword =>
        have hk := hm keyword (List.mem_of_find?_eq_some htaken)
        exact (maintains_overriddenField hI hk _).bind fun _ _ => maintains_pure trivial
    refine hoverridden.bind fun overridden _ => (maintains_expectSemicolon hI).bind fun _ _ => ?_
    refine maintains_get fun s _ => ?_
    extract_lets own field
    have hfield (l : Location) (hl : l ∈ field.location :: (default.map Default.location).toList) :
        I.location l := by
      rcases List.mem_cons.1 hl with rfl | hl
      · exact hlocation
      · obtain ⟨x, hx, rfl⟩ := Option.map_eq_some_iff.1 (Option.mem_toList.1 hl)
        exact hd x hx
    refine Maintains.bind (P := fun _ => True) ?_ fun _ _ => maintains_await hI hu _ _ _
    split
    · exact maintains_addMember hI hfield
    · exact maintains_addMember hI hfield
  split
  · refine (maintains_advance hI).bind fun _ _ => ?_
    refine (maintains_defaultValue hI _).bind fun default hdefault => ?_
    refine (maintains_checkDefault hI _ hdefault _).bind fun _ _ => hcomplete _ ?_
    rintro _ ⟨⟩
    exact hdefault
  · exact hcomplete none nofun

theorem maintains_member (comment : Option Comment) (first : Token) :
    Maintains I (member id comment first) fun _ => True := by
  unfold member
  extract_lets dispatch
  have hdispatch : Maintains I (dispatch ()) fun _ => True := by
    refine (maintains_modifiers hI _).bind fun taken htaken => maintains_get fun s _ => ?_
    extract_lets t form isReference complete
    have hcomplete (nested : Option EnumerationId) :
        Maintains I (complete nested) fun _ => True :=
      (maintains_reportModifiers hI (Invariant.forall_leftOver htaken _)).bind fun _ _ =>
        maintains_pure trivial
    have plain {p : Parser Unit} (hp : Maintains I p fun _ => True) :
        Maintains I (do p; let nested ← pure none; complete nested) fun _ => True :=
      hp.bind fun _ _ => hcomplete none
    clear_value form
    cases form with
    | identification => exact plain (maintains_identification hI comment taken)
    | upcopy => exact plain (maintains_upcopy hI comment)
    | operator => exact plain (maintains_operator hI comment taken)
    | field => exact plain (maintains_field hI comment htaken _)
    | enumeration =>
      refine Maintains.bind (P := fun _ => True) ?_ fun nested _ => hcomplete nested
      exact (maintains_enumeration hI comment taken _).bind fun _ _ => maintains_pure trivial
  split
  · exact (maintains_unexpected hI (P := fun _ => True) _).bind fun _ _ => hdispatch
  · exact hdispatch

end Structures

section Interfaces

variable {id : InterfaceId}

theorem maintains_parameter (position : Nat) (comment : Option Comment) (arrow : Token) :
    Maintains I (parameter id position comment arrow) fun _ => True := by
  refine (maintains_advance hI).bind fun _ _ => (maintains_typeUse hI _ _ _).bind fun use hu => ?_
  refine (maintains_expectName hI _).bind fun name _ => ?_
  refine (maintains_expectSemicolon hI).bind fun _ _ => maintains_get fun s _ => ?_
  extract_lets count parameter
  exact maintains_write_await hI (fun _ => .parameter id position parameter) hu _ _ _

theorem maintains_methodHeader (comment : Option Comment) :
    Maintains I (methodHeader id comment) fun _ => True := by
  refine (maintains_expectKeyword hI _).bind fun keyword _ => ?_
  refine (maintains_expectName hI _).bind fun name _ => ?_
  refine (maintains_openBody hI _).bind fun _ _ => maintains_get fun s _ => ?_
  extract_lets position method
  exact (maintains_modifyDocument hI fun _ => .method id method).bind fun _ _ =>
    maintains_pure trivial

theorem Invariant.Lawful.methodItem {position : Nat} {comment : Option Comment} {first : Token}
    {s : State} (hs : I.state s) (hf : I.token first) :
    I.state (methodItem id position comment first s) := by
  refine hI.salvage hs ?_
  split
  · exact maintains_parameter hI position comment first
  · exact maintains_unknownStatement hI hf _ _

theorem Invariant.Lawful.interfaceItem {comment : Option Comment} {first : Token} {s : State}
    (hs : I.state s) (hf : I.token first) : I.state (interfaceItem id comment first s) := by
  refine hI.salvage hs ?_
  split
  · exact (maintains_methodHeader hI comment).bind fun position _ =>
      maintains_items hI fun _ _ _ hs hf => hI.methodItem hs hf
  · exact maintains_unknownStatement hI hf _ _

theorem maintains_interfaceHeader (comment : Option Comment) :
    Maintains I (interfaceHeader comment) fun _ => True := by
  refine (maintains_expectKeyword hI _).bind fun keyword hkeyword => ?_
  refine (maintains_expectName hI _).bind fun name hname => maintains_get fun s hs => ?_
  extract_lets id header
  have hheader : I.heading header.toHeading :=
    hI.heading hs (hI.locationOf hs hkeyword) hname rfl
  exact (maintains_modifyDocument hI fun _ => .interface header hheader).bind fun _ _ =>
    maintains_pure trivial

theorem maintains_interface (comment : Option Comment) :
    Maintains I (interface comment) fun _ => True := by
  refine (maintains_interfaceHeader hI comment).bind fun id _ => ?_
  exact Maintains.bind (maintains_body hI fun _ _ _ hs hf => hI.interfaceItem hs hf) fun _ _ =>
    maintains_pure trivial

end Interfaces

section Factories

variable {id : FactoryId}

theorem maintains_filter (comment : Option Comment) {keyword : Token} (hk : I.token keyword) :
    Maintains I (filter id comment keyword) fun _ => True := by
  refine (maintains_expectKeyword hI _).bind fun _ _ => maintains_get fun s _ => ?_
  extract_lets factory known
  have hknown : Maintains I (known ⟨⟩) fun _ => True := by
    simp only [known]
    split
    · exact maintains_failAt hI hk rfl _
    · refine (maintains_expectName hI _).bind fun name hname => ?_
      split
      · exact maintains_fail hI hname rfl
      · refine (maintains_expectKeyword hI _).bind fun _ _ => ?_
        refine (maintains_expectName hI _).bind fun method _ => ?_
        refine (maintains_expectSemicolon hI).bind fun _ _ => ?_
        exact maintains_modifyDocument hI fun _ => .filter id _
  split
  · exact (maintains_failAt hI (P := fun _ => True) hk rfl _).bind fun _ _ => hknown
  · exact hknown

theorem Invariant.Lawful.factoryItem {comment : Option Comment} {first : Token} {s : State}
    (hs : I.state s) (hf : I.token first) : I.state (factoryItem id comment first s) := by
  refine hI.salvage hs ?_
  split
  · exact maintains_filter hI comment hf
  · exact maintains_unknownStatement hI hf _ _

theorem maintains_factoryHeader (comment : Option Comment) {modifiers : List Token}
    (hm : ∀ t ∈ modifiers, I.token t) :
    Maintains I (factoryHeader comment modifiers) fun _ => True := by
  unfold factoryHeader
  refine (maintains_expectKeyword hI _).bind fun keyword hkeyword => ?_
  have hkind : Maintains I (factoryKind keyword modifiers) fun _ => True := by
    unfold factoryKind
    split
    · exact maintains_pure trivial
    · exact maintains_inappropriate hI hkeyword _ _
  have hfunction (kind : Factory.Kind) :
      Maintains I (factoryFunction kind modifiers) fun _ => True := by
    unfold factoryFunction
    split
    · rename_i t ht
      split
      · exact maintains_pure trivial
      · exact maintains_failAt hI (hm t (List.mem_of_find?_eq_some ht)) rfl _
    · exact maintains_pure trivial
  refine hkind.bind fun kind _ => (hfunction kind).bind fun function _ => ?_
  refine (maintains_typeParameter hI _ _).bind fun parameter? hu => ?_
  split
  · exact maintains_failHere hI rfl _
  · rename_i parameter
    refine (maintains_expectName hI _).bind fun name hname => maintains_get fun s hs => ?_
    extract_lets id header
    have hheader : I.heading header.toHeading :=
      hI.heading hs (hI.locationOf hs hkeyword) hname rfl
    refine (maintains_modifyDocument hI fun _ => .factory header hheader).bind fun _ _ => ?_
    exact (maintains_await hI (hu parameter rfl) _ _ _).bind fun _ _ => maintains_pure trivial

theorem maintains_factory (comment : Option Comment) {modifiers : List Token}
    (hm : ∀ t ∈ modifiers, I.token t) :
    Maintains I (factory comment modifiers) fun _ => True := by
  refine (maintains_factoryHeader hI comment hm).bind fun id _ => ?_
  exact Maintains.bind (maintains_body hI fun _ _ _ hs hf => hI.factoryItem hs hf) fun _ _ =>
    maintains_pure trivial

end Factories

section Dispatch

variable {checks : List Check} {J E : State → Prop}

/-- Behind these modifiers a structure is declared. -/
structure State.DeclaresStructure (s : State) (taken : List Token) (s₁ : State) : Prop where
  modifiers : modifiers declarationModifiers s = .ok taken s₁
  form : (s₁.current.bind fun t => DeclarationForm.ofKeyword? t.text) = some .struct

/-- What holds behind the structures among them, holds behind all declarations, if the invariant
is enough for it where no structure is declared. -/
theorem after_declaration_of_structure
    (hreport : ∀ {s : State} {t : Token}, J s → I.token t →
      J (s.report (.of .unexpectedModifier (s.locationOf t) [(.modifier, t.text)])))
    (comment : Option Comment) {s : State} (hs : I.state s)
    (hstruct : ∀ {taken s₁}, s.DeclaresStructure taken s₁ → I.state s₁ →
      After (structureDeclaration checks comment taken) s₁ (fun _ => J) E)
    (hother : (∀ taken s₁, ¬ s.DeclaresStructure taken s₁) →
      ∀ {s'}, I.state s' → J s' ∧ E s') :
    After (declaration checks comment) s (fun _ => J) E := by
  have hmodifiers := maintains_modifiers hI declarationModifiers s hs
  refine After.bind_of_run (fun taken s₁ htaken => ?_) fun e s' hbroken => ?_
  · obtain ⟨hs₁, hm⟩ := hmodifiers.of_ok htaken
    have hform (h : (s₁.current.bind fun t => DeclarationForm.ofKeyword? t.text) ≠ some .struct)
        {s' : State} : I.state s' → J s' ∧ E s' := by
      refine hother fun taken' s₁' hd => h ?_
      cases htaken.symm.trans hd.modifiers
      exact hd.form
    refine After.bind (after_get ?_)
    split
    · rename_i hnone
      have hfail : Maintains I (failHere .unknownStatement
          [(.context, "source"), (.options, DeclarationForm.options)]) fun _ : Declaration => False :=
        maintains_failHere hI rfl _
      exact (hfail s₁ hs₁).mono (fun _ _ h => h.2.elim)
        fun _ h => (hform (by rw [hnone]; nofun) h).2
    · rename_i form hsome
      extract_lets finish
      have hfinish {α : Type} {p : Parser α} (node : α → Declaration)
          (hp : After p s₁ (fun _ => J) E) :
          After (do let x ← node <$> p; finish x) s₁ (fun _ => J) E := by
        apply After.bind
        refine After.mono (?_ : After (node <$> p) s₁ (fun _ => J) E) (fun x s₂ hs₂ => ?_)
          fun _ h => h
        · exact After.bind (After.mono hp (fun _ _ h => h) fun _ h => h)
        · exact After.bind (After.mono (after_reportModifiers_of_report hreport
            (Invariant.forall_leftOver hm _) hs₂) (fun _ _ h => h) fun _ h => h)
      have hplain {α : Type} {p : Parser α} (hne : form ≠ .struct)
          (hp : Maintains I p fun _ => True) : After p s₁ (fun _ => J) E := by
        have hother' {s' : State} : I.state s' → J s' ∧ E s' :=
          hform fun h => hne (Option.some.inj (hsome.symm.trans h))
        exact After.mono (hp s₁ hs₁) (fun _ _ h => (hother' h.1).1) fun _ h => (hother' h).2
      cases form with
      | struct => exact hfinish .struct (hstruct ⟨htaken, hsome⟩ hs₁)
      | interface => exact hfinish .interface (hplain nofun (maintains_interface hI comment))
      | enum =>
        exact hfinish .enum (hplain nofun (maintains_enumeration hI comment taken none))
      | specimen => exact hfinish .specimen (hplain nofun (maintains_specimen hI comment taken))
      | identifier =>
        exact hfinish .identifier (hplain nofun (maintains_identifier hI comment taken))
      | factory => exact hfinish .factory (hplain nofun (maintains_factory hI comment hm))
  · refine (hother (fun taken s₁ hd => ?_) (hmodifiers.of_error hbroken)).2
    cases hbroken.symm.trans hd.modifiers

end Dispatch

section Declarations

variable {checks : List Check} {J : State → Prop}

/-- The invariant holds behind visits of checks. When the names in a structure are settled, at
least `J` holds, and it is maintained up to the end of the declaration. -/
structure Invariant.Admits (I : Invariant) (checks : List Check) (J : State → Prop) : Prop where
  visit {s : State} (h : I.state s) (x : Declaration) :
    I.state { s with toSession := (s.toSession.visit checks (.declaration x) false).2 }
  weaken {s : State} (h : I.state s) : J s
  settleScope {s : State} (h : I.state s) (id : StructureId) :
    J (s.settle fun session pending => session.settleScope checks id pending)
  report {s : State} {t : Token} (h : J s) (ht : I.token t) :
    J (s.report (.of .unexpectedModifier (s.locationOf t) [(.modifier, t.text)]))

variable (hA : I.Admits checks J)

include hA

theorem Invariant.Lawful.structureItem {id : StructureId} {comment : Option Comment}
    {first : Token} {s : State} (hs : I.state s) :
    I.state (structureItem checks id comment first s) := by
  refine hI.construct hs (maintains_member hI comment first) (fun nested s' _ hs' => ?_)
    fun _ => hI.recover
  cases nested with
  | none => exact hs'
  | some e =>
    have hvisit := hA.visit hs' (.enum e)
    simp only [acceptNested]
    split
    · exact hI.write hvisit (.member id (.enumeration e) nofun)
    · exact hvisit

theorem maintains_structureBody (id : StructureId) :
    Maintains I (body "structure" (Grammar.structureItem checks id)) fun _ => True :=
  maintains_body hI fun _ _ _ hs _ => hI.structureItem hA hs

theorem after_structureDeclaration_admits (comment : Option Comment) (modifiers : List Token)
    {s : State} (hs : I.state s) :
    After (structureDeclaration checks comment modifiers) s (fun _ => J) I.state := by
  apply After.bind
  refine After.mono (maintains_structureHeader hI comment modifiers s hs)
    (fun id s₁ ⟨hs₁, _⟩ => ?_) fun _ h => h
  apply After.bind
  refine After.mono (maintains_structureBody hI hA id s₁ hs₁) (fun _ s₂ ⟨hs₂, _⟩ => ?_)
    fun _ h => h
  exact hA.settleScope hs₂ id

theorem after_declaration_admits (comment : Option Comment) {s : State} (hs : I.state s) :
    After (declaration checks comment) s (fun _ => J) I.state :=
  after_declaration_of_structure hI hA.report comment hs
    (fun _ hs₁ => after_structureDeclaration_admits hI hA comment _ hs₁)
    fun _ _ h => ⟨hA.weaken h, h⟩

end Declarations

/-- What is settled behind a structure, and behind what is registered, obeys the invariant. -/
theorem Invariant.Lawful.declare {checks : List Check} (hA : I.Admits checks I.state)
    (hregister : ∀ {s : State} x, I.state s → I.state (s.register checks x)) {s : State}
    (hs : I.state s) (comment : Option Comment) : I.state (s.declare checks comment) := by
  have hread : Maintains I (declaration checks comment) fun _ => True :=
    fun s hs => After.mono (after_declaration_admits hI hA comment hs)
      (fun _ _ hs => ⟨hs, trivial⟩) fun _ hs => hs
  refine hI.construct hs hread (fun x s' _ hs' => ?_) fun s' hs' =>
    hI.rest (hI.recover hs') (List.dropWhile_suffix _)
  have hvisit := hA.visit hs' x
  simp only [State.acceptDeclaration]
  split
  · exact hregister x hvisit
  · exact hvisit

section Heads

/-- The elements of a package path are words, or were inherited from the directories. -/
theorem maintains_packagePath {Q : PackageElement → Prop}
    (hword : ∀ s t, I.state s → I.token t → t.kind = .identifier →
      Q ⟨t.text, s.locationOf t, false⟩)
    (hinherited : ∀ s t position value, I.state s → inheritedElement? s position = some value →
      Q ⟨value, s.locationOf t, true⟩) :
    Maintains I packagePath fun path => path ≠ [] ∧ ∀ e ∈ path, Q e := by
  rw [packagePath_eq]
  refine maintains_iterate (P := fun path => ∀ e ∈ path, Q e) (fun elements helements => ?_)
    (fun _ h => absurd h List.not_mem_nil)
  have helement : Maintains I (packageElement elements.length) Q := by
    refine (maintains_expect_of hI (fun _ ht ha => And.intro ht ha) rfl _).bind
      fun t ⟨ht, ha⟩ => maintains_get fun s hs => ?_
    split
    · split
      · exact maintains_pure (hinherited s t _ _ hs ‹_›)
      · exact maintains_failAt hI ht rfl _
    · rename_i hasterisk
      have hkind : t.kind = .identifier := by
        simpa [isPackageElement, Bool.eq_false_iff.2 hasterisk] using ha
      exact maintains_pure (hword s t hs ht hkind)
  refine helement.bind fun e he => (maintains_isAt _ _).bind fun found _ => ?_
  have hall : ∀ e' ∈ elements ++ [e], Q e' := by
    intro e' hmem
    rcases List.mem_append.1 hmem with hmem | hmem
    · exact helements e' hmem
    · exact List.mem_singleton.1 hmem ▸ he
  split
  · exact (maintains_advance hI).bind fun _ _ => maintains_pure hall
  · exact maintains_pure ⟨by simp, hall⟩

theorem maintains_package {Q : PackageElement → Prop}
    (hword : ∀ s t, I.state s → I.token t → t.kind = .identifier →
      Q ⟨t.text, s.locationOf t, false⟩)
    (hinherited : ∀ s t position value, I.state s → inheritedElement? s position = some value →
      Q ⟨value, s.locationOf t, true⟩)
    (hpackage : ∀ (s : State) (p : Package), I.state s → p.full ≠ [] → (∀ e ∈ p.full, Q e) →
      I.state { s with package := some p } ∧
        I.state (State.modifyDocument { s with package := some p } fun d =>
          { d with package := some p })) :
    Maintains I package fun _ => True := by
  refine (maintains_expectKeyword hI _).bind fun keyword _ => ?_
  refine (maintains_packagePath hI hword hinherited).bind fun short hshort => ?_
  refine (maintains_isAt _ _).bind fun found _ => ?_
  extract_lets complete
  have hcomplete (full : List PackageElement) (hfull : full ≠ [] ∧ ∀ e ∈ full, Q e) :
      Maintains I (complete full) fun _ => True := by
    refine (maintains_expectSemicolon hI).bind fun _ _ => maintains_modify fun s hs => ?_
    have hnoted := hpackage s ⟨short, full, s.locationOf keyword⟩ hs hfull.1 hfull.2
    simp only
    split
    · exact hnoted.2
    · exact hnoted.1
  split
  · refine (maintains_advance hI).bind fun _ _ => ?_
    exact (maintains_packagePath hI hword hinherited).bind fun full hfull => hcomplete full hfull
  · exact hcomplete short hshort

/-- An invariant that does not depend on the package is maintained where one is read. -/
theorem maintains_package_of_any
    (hpackage : ∀ (s : State) p, I.state s → I.state { s with package := some p } ∧
      I.state (State.modifyDocument { s with package := some p } fun d =>
        { d with package := some p })) :
    Maintains I package fun _ => True :=
  maintains_package hI (Q := fun _ => True) (fun _ _ _ _ _ => trivial) (fun _ _ _ _ _ _ => trivial)
    fun s p hs _ _ => hpackage s p hs

theorem maintains_importStatement (comment : Option Comment) :
    Maintains I (importStatement comment) fun i => I.location i.location := by
  refine (maintains_expectKeyword hI _).bind fun keyword hkeyword => ?_
  refine (maintains_expect hI _ rfl _).bind fun source _ => ?_
  refine (maintains_expectSemicolon hI).bind fun _ _ => maintains_get fun s hs => ?_
  exact maintains_pure (hI.locationOf hs hkeyword)

end Heads

end Grammar

end Idl
