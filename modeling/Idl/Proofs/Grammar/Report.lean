import Idl.Grammar.Source
import Idl.Proofs.Grammar.Bracket
import Idl.Proofs.Grammar.Round
import Idl.Proofs.Session.Clean
import Idl.Proofs.Session.Report

/-!
What the routines of the grammar report. Those without a body are brief: they succeed in silence
or fail with one error. The others report ordinary messages and those of the checks.
-/

namespace Idl.Grammar

section Types

theorem isRound_typeNameRound (classifier : String) (a : List String × Option Token) :
    IsRound (typeNameRound classifier a) := by
  refine (brief_expect (fun _ => ⟨rfl, rfl⟩) rfl _).isRound (readsOn_expect _ _ _) fun t => ?_
  refine (brief_isAt _ _).bind fun found => ?_
  split
  · exact brief_advance.bind fun _ => brief_pure _
  · exact brief_pure _

theorem brief_typeName (classifier : String) : Brief (typeName classifier) := by
  rw [typeName_eq]
  exact brief_iterate (isRound_typeNameRound classifier) _

theorem brief_unknownType {α : Type} (name : TypeName) (classifier : String) :
    Brief (unknownType name classifier : Parser α) :=
  brief_failAt (fun _ => ⟨rfl, rfl⟩) rfl _

theorem brief_declaredType (classifier : String) : Brief (declaredType classifier) := by
  refine (brief_typeName classifier).bind fun name => brief_get fun _ => ?_
  split
  · exact brief_pure _
  · exact brief_unknownType _ _

theorem isRound_templateRound (classifier : String) (outer : List Template) :
    IsRound (templateRound classifier outer) := by
  refine (brief_typeName classifier).isRound (takes_typeName classifier).readsOn fun name => ?_
  split
  · exact (brief_expectToken _ _).bind fun _ => brief_pure _
  · exact brief_pure _

theorem brief_templates (classifier : String) : Brief (templates classifier) := by
  rw [templates_eq]
  exact brief_iterate (isRound_templateRound classifier) _

theorem brief_instantiate (template : Template) (argument : Option DataType) (weak : Bool) :
    Brief (instantiate template argument weak) :=
  brief_modifyGet fun _ => State.says_modifyDocument
    (.of_eq fun x => Document.heading?_instantiate x template argument weak)

theorem brief_closeTemplates (classifier : String) (scope : Option StructureId) (weak : Bool)
    (outer : List Template) (use : TypeUse) :
    Brief (closeTemplates classifier scope weak outer use) := by
  induction outer generalizing use with
  | nil => exact brief_pure _
  | cons template outer ih =>
    refine (brief_expectToken _ _).bind fun _ => (brief_instantiate _ _ _).bind fun id => ?_
    exact (brief_await _ _ _ _).bind fun _ => ih _

theorem brief_typeUse (classifier : String) (scope : Option StructureId) (weak : Bool) :
    Brief (typeUse classifier scope weak) :=
  (brief_templates classifier).bind fun _ => brief_get fun _ => brief_closeTemplates _ _ _ _ _

theorem brief_typeParameter (classifier : String) (scope : Option StructureId) :
    Brief (typeParameter classifier scope) := by
  refine (brief_isAt _ _).bind fun found => ?_
  split
  · refine brief_advance.bind fun _ => (brief_typeUse _ _ _).bind fun t => ?_
    exact (brief_expectToken _ _).bind fun _ => brief_pure _
  · exact brief_pure _

theorem brief_defaultValue (statement : String) : Brief (defaultValue statement) := by
  refine (brief_expect (fun _ => ⟨rfl, rfl⟩) rfl _).bind fun t => brief_get fun s => ?_
  split
  · exact brief_pure _
  · exact brief_pure _

theorem brief_checkDefault (t : Option DataType) (default : Default) (statement : String) :
    Brief (checkDefault t default statement) := by
  have hask : Brief (modify (·.ask t [default])) :=
    brief_modify fun s => { State.Says.refl s with }
  refine hask.bind fun _ => brief_get fun s => ?_
  extract_lets d
  split
  · rename_i fault hfault
    obtain ⟨t, _, hfault⟩ := Option.bind_eq_some_iff.1 hfault
    exact brief_fail (Document.ordinary_of_defaultFault? hfault)
      (Document.severity_of_defaultFault? hfault)
  · exact brief_pure _

end Types

section Modifiers

theorem brief_modifiers (words : List String) : Brief (modifiers words) := by
  intro s
  rw [modifiers_eq]
  refine after_iterate (I := fun _ s' => s.Says [] s') (fun taken s' hs => ?_) (.refl s)
  apply After.bind
  apply after_get
  split
  · rename_i t ht
    split
    · apply After.bind
      apply after_modify
      exact ⟨hs.trans (State.says_advance s'), .inl (State.remaining_advance_lt ht)⟩
    · exact hs
  · exact hs

theorem speaks_reportModifiers {P : Message → Prop} (hP : ∀ m : Message, m.Ordinary → P m)
    (modifiers : List Token) : Speaks P (reportModifiers modifiers) := by
  refine speaks_modify fun s => ?_
  induction modifiers generalizing s with
  | nil => exact .refl s
  | cons t modifiers ih => exact (State.tells_report (hP _ ⟨rfl, rfl⟩)).trans (ih _)

end Modifiers

section Enumerations

theorem isRound_valuePartRound (id : EnumerationId) (parts : List Nat) :
    IsRound (valuePartRound id parts) := by
  refine (brief_expectName _).isRound (takes_expectName _).readsOn fun part =>
    brief_get fun s => ?_
  split
  · exact brief_fail ⟨rfl, rfl⟩ rfl
  · refine (brief_isAt _ _).bind fun found => ?_
    split
    · exact brief_advance.bind fun _ => brief_pure _
    · exact brief_pure _

theorem brief_valueParts (id : EnumerationId) : Brief (valueParts id) := by
  rw [valueParts_eq]
  exact brief_iterate (isRound_valuePartRound id) _

theorem brief_enumerationValue (id : EnumerationId) (comment : Option Comment) (first : Token) :
    Brief (enumerationValue id comment first) := by
  unfold enumerationValue
  extract_lets named
  have hnamed : Brief (named ()) := by
    refine (brief_expectName _).bind fun name => (brief_isAt _ _).bind fun found => ?_
    extract_lets complete
    have hcomplete (parts : Option (List Nat)) : Brief (complete parts) :=
      brief_expectSemicolon.bind fun _ => brief_modifyDocument fun _ x =>
        Document.heading?_modifyEnumeration x fun _ => rfl
    split
    · refine brief_advance.bind fun _ => Brief.bind ?_ hcomplete
      exact (brief_valueParts id).bind fun _ => brief_pure _
    · exact (brief_pure none).bind hcomplete
  split
  · exact (brief_unexpected _).bind fun _ => hnamed
  · exact hnamed

theorem brief_enumerationHeader (comment : Option Comment) (modifiers : List Token)
    (owner : Option StructureId) : Brief (enumerationHeader comment modifiers owner) := by
  unfold enumerationHeader
  refine (brief_expectKeyword _).bind fun keyword => (brief_typeParameter _ _).bind fun use? => ?_
  extract_lets parameter
  refine (brief_expectName _).bind fun name => (brief_isAt _ _).bind fun flags => ?_
  extract_lets write
  have hwrite : Brief (write ⟨⟩) := by
    refine brief_get_at fun s => ?_
    extract_lets id header
    exact (briefAt_modifyDocument (Document.headedIn_insertEnumeration rfl)).bind fun _ =>
      (brief_await _ _ _ _).bind fun _ => brief_pure _
  split
  · exact brief_advance.bind fun _ => hwrite
  · exact hwrite

end Enumerations

section Values

theorem brief_specimenBase : Brief specimenBase := by
  refine (brief_declaredType _).bind fun (name, t) => ?_
  cases t with
  | specimen base => exact brief_pure base
  | _ => exact brief_inappropriate _ _ _

end Values

section Structures

variable {id : StructureId}

theorem brief_modifyStructure {f : Structure → Structure}
    (hf : ∀ s, (f s).toHeading = s.toHeading) : Brief (modifyStructure id f) :=
  brief_modifyDocument fun _ x => Document.heading?_modifyStructure x hf

theorem brief_addMember (member : Member) : Brief (addMember id member) :=
  brief_modifyStructure fun _ => rfl

theorem brief_structureBase : Brief structureBase := by
  refine (brief_declaredType _).bind fun (name, t) => ?_
  cases t with
  | struct base => exact brief_pure base
  | _ => exact brief_inappropriate _ _ _

theorem brief_baseField (base : StructureId) (name : String) (location : Location) :
    Brief (baseField base name location) := by
  refine brief_get fun s => ?_
  split
  · exact brief_pure _
  · exact brief_fail ⟨rfl, rfl⟩ rfl

theorem isRound_alterRound (base : StructureId) : IsRound (alterRound id base) := by
  refine brief_advance.bind_isRound fun _ => ?_
  refine (brief_expectName _).isRound (takes_expectName _).readsOn fun name => ?_
  refine (brief_baseField _ _ _).bind fun field => (brief_expectToken _ _).bind fun _ => ?_
  refine (brief_defaultValue _).bind fun default => brief_get fun s => ?_
  refine (brief_checkDefault _ _ _).bind fun _ => (brief_addMember _).bind fun _ => ?_
  refine (brief_isAt _ _).bind fun found => ?_
  split
  · exact brief_pure _
  · exact brief_pure _

theorem brief_alters (base : StructureId) : Brief (alters id base) := by
  rw [alters_eq]
  exact brief_iterate (fun _ => isRound_alterRound base) _

theorem brief_identification (comment : Option Comment) (modifiers : List Token) :
    Brief (identification id comment modifiers) := by
  refine (brief_expectKeyword _).bind fun keyword => brief_get fun s => ?_
  extract_lets behind complete
  have hcomplete : Brief (complete ⟨⟩) :=
    brief_expectSemicolon.bind fun _ => brief_get fun _ => brief_addMember _
  split
  · exact brief_advance.bind fun _ => hcomplete
  · exact hcomplete

theorem brief_upcopy (comment : Option Comment) : Brief (upcopy id comment) := by
  refine (brief_expectKeyword _).bind fun keyword => (brief_expectKeyword _).bind fun _ => ?_
  refine (brief_typeName _).bind fun name => brief_get fun s => ?_
  split
  · exact brief_unknownType _ _
  · extract_lets complete
    have hcomplete : Brief (complete ⟨⟩) :=
      brief_expectSemicolon.bind fun _ => brief_addMember _
    split
    · exact (brief_failAt (fun _ => ⟨rfl, rfl⟩) rfl _).bind fun _ => hcomplete
    · exact hcomplete
  · exact brief_inappropriate _ _ _

theorem brief_operator (comment : Option Comment) (modifiers : List Token) :
    Brief (operator id comment modifiers) := by
  refine (brief_expectKeyword _).bind fun keyword => brief_get fun s => ?_
  split
  · exact brief_failHere (fun _ => ⟨rfl, rfl⟩) rfl
  · refine brief_advance.bind fun _ => brief_expectSemicolon.bind fun _ => ?_
    exact brief_get fun _ => brief_addMember _

theorem brief_overriddenField (keyword : Token) (name : String) :
    Brief (overriddenField id keyword name) := by
  refine brief_get fun s => ?_
  split
  · exact brief_baseField _ _ _
  · exact brief_failAt (fun _ => ⟨rfl, rfl⟩) rfl _

theorem brief_field (comment : Option Comment) (modifiers : List Token) (weak : Bool) :
    Brief (field id comment modifiers weak) := by
  refine brief_get fun s => ?_
  extract_lets location
  refine (brief_typeUse _ _ _).bind fun use => (brief_expectName _).bind fun name => ?_
  refine (brief_isAt _ _).bind fun found => ?_
  extract_lets complete
  have hcomplete (default : Option Default) : Brief (complete default) := by
    have hoverridden : Brief ((taken? modifiers ["override"]).mapM fun keyword =>
        overriddenField id keyword name.value) := by
      cases taken? modifiers ["override"] with
      | none => exact brief_pure _
      | some keyword => exact (brief_overriddenField keyword _).bind fun _ => brief_pure _
    refine hoverridden.bind fun overridden => brief_expectSemicolon.bind fun _ => ?_
    exact brief_get fun s => (brief_addMember _).bind fun _ => brief_await _ _ _ _
  split
  · refine brief_advance.bind fun _ => (brief_defaultValue _).bind fun default => ?_
    exact (brief_checkDefault _ _ _).bind fun _ => (brief_pure (some default)).bind hcomplete
  · exact (brief_pure none).bind hcomplete

theorem brief_structureHeader (comment : Option Comment) (modifiers : List Token) :
    Brief (structureHeader comment modifiers) := by
  refine (brief_expectKeyword _).bind fun keyword => (brief_expectName _).bind fun name => ?_
  refine brief_get_at fun s => ?_
  extract_lets id header
  refine (briefAt_modifyDocument (Document.headedIn_insertStructure rfl)).bind fun _ => ?_
  refine (brief_isAt _ _).bind fun found => ?_
  split
  · refine brief_advance.bind fun _ => brief_structureBase.bind fun base => ?_
    refine (brief_modifyStructure (by intro; rfl)).bind fun _ => ?_
    refine (brief_isAt _ _).bind fun found => ?_
    split
    · exact (brief_alters base).bind fun _ => brief_pure _
    · exact brief_pure _
  · exact brief_pure _

end Structures

section Interfaces

theorem brief_modifyInterface {id : InterfaceId} {f : Interface → Interface}
    (hf : ∀ i, (f i).toHeading = i.toHeading) :
    Brief (modifyDocument (·.modifyInterface id f)) :=
  brief_modifyDocument fun _ x => Document.heading?_modifyInterface x hf

theorem brief_parameter (id : InterfaceId) (position : Nat) (comment : Option Comment)
    (arrow : Token) : Brief (parameter id position comment arrow) := by
  refine brief_advance.bind fun _ => (brief_typeUse _ _ _).bind fun use => ?_
  refine (brief_expectName _).bind fun name => brief_expectSemicolon.bind fun _ => ?_
  refine brief_get fun s => ?_
  exact (brief_modifyInterface (by intro; rfl)).bind fun _ => brief_await _ _ _ _

theorem brief_methodHeader (id : InterfaceId) (comment : Option Comment) :
    Brief (methodHeader id comment) := by
  refine (brief_expectKeyword _).bind fun keyword => (brief_expectName _).bind fun name => ?_
  refine (brief_openBody _).bind fun _ => brief_get fun s => ?_
  exact (brief_modifyInterface (by intro; rfl)).bind fun _ => brief_pure _

theorem brief_interfaceHeader (comment : Option Comment) : Brief (interfaceHeader comment) := by
  refine (brief_expectKeyword _).bind fun keyword => (brief_expectName _).bind fun name => ?_
  refine brief_get_at fun s => ?_
  exact (briefAt_modifyDocument (Document.headedIn_insertInterface rfl)).bind fun _ =>
    brief_pure _

end Interfaces

section Factories

theorem brief_factoryKind (keyword : Token) (modifiers : List Token) :
    Brief (factoryKind keyword modifiers) := by
  unfold factoryKind
  split
  · exact brief_pure _
  · exact brief_inappropriate _ _ _

theorem brief_factoryFunction (kind : Factory.Kind) (modifiers : List Token) :
    Brief (factoryFunction kind modifiers) := by
  unfold factoryFunction
  split
  · split
    · exact brief_pure _
    · exact brief_failAt (fun _ => ⟨rfl, rfl⟩) rfl _
  · exact brief_pure _

theorem brief_filter (id : FactoryId) (comment : Option Comment) (keyword : Token) :
    Brief (filter id comment keyword) := by
  refine (brief_expectKeyword _).bind fun _ => brief_get fun s => ?_
  extract_lets factory known
  have hknown : Brief (known ⟨⟩) := by
    simp only [known]
    split
    · exact brief_failAt (fun _ => ⟨rfl, rfl⟩) rfl _
    · refine (brief_expectName _).bind fun name => brief_get fun s => ?_
      split
      · exact brief_fail ⟨rfl, rfl⟩ rfl
      · refine (brief_expectKeyword _).bind fun _ => (brief_expectName _).bind fun method => ?_
        refine brief_expectSemicolon.bind fun _ => brief_get fun s => ?_
        exact brief_modifyDocument fun _ x => Document.heading?_modifyFactory x fun _ => rfl
  split
  · exact (brief_failAt (fun _ => ⟨rfl, rfl⟩) rfl _).bind fun _ => hknown
  · exact hknown

theorem brief_factoryHeader (comment : Option Comment) (modifiers : List Token) :
    Brief (factoryHeader comment modifiers) := by
  refine (brief_expectKeyword _).bind fun keyword => (brief_factoryKind _ _).bind fun kind => ?_
  refine (brief_factoryFunction _ _).bind fun function => ?_
  refine (brief_typeParameter _ _).bind fun parameter? => ?_
  split
  · exact brief_failHere (fun _ => ⟨rfl, rfl⟩) rfl
  · refine (brief_expectName _).bind fun name => brief_get_at fun s => ?_
    exact (briefAt_modifyDocument (Document.headedIn_insertFactory rfl)).bind fun _ =>
      (brief_await _ _ _ _).bind fun _ => brief_pure _

end Factories

section Packages

theorem isRound_packageElement (position : Nat) : IsRound (packageElement position) := by
  refine (brief_expect (fun _ => ⟨rfl, rfl⟩) rfl _).isRound (readsOn_expect _ _ _) fun t => ?_
  refine brief_get fun s => ?_
  split
  · split
    · exact brief_pure _
    · exact brief_failAt (fun _ => ⟨rfl, rfl⟩) rfl _
  · exact brief_pure _

theorem isRound_packageRound (elements : List PackageElement) :
    IsRound (packageRound elements) := by
  refine Brief.isRound (isRound_packageElement _).1 (isRound_packageElement _).2 fun e =>
    (brief_isAt _ _).bind fun found => ?_
  split
  · exact brief_advance.bind fun _ => brief_pure _
  · exact brief_pure _

theorem brief_packagePath : Brief packagePath := by
  rw [packagePath_eq]
  exact brief_iterate isRound_packageRound _

theorem brief_package : Brief package := by
  refine (brief_expectKeyword _).bind fun keyword => brief_packagePath.bind fun short => ?_
  refine (brief_isAt _ _).bind fun found => ?_
  extract_lets complete
  have hcomplete (full : List PackageElement) : Brief (complete full) := by
    refine brief_expectSemicolon.bind fun _ => brief_modify fun s => ?_
    simp only
    split
    · exact ⟨rfl, List.suffix_rfl, (List.append_nil _).symm, .of_eq fun x => by cases x <;> rfl⟩
    · exact ⟨rfl, List.suffix_rfl, (List.append_nil _).symm, .refl _ _⟩
  split
  · exact brief_advance.bind fun _ => brief_packagePath.bind hcomplete
  · exact (brief_pure short).bind hcomplete

theorem brief_importStatement (comment : Option Comment) : Brief (importStatement comment) := by
  refine (brief_expectKeyword _).bind fun keyword => ?_
  refine (brief_expect (fun _ => ⟨rfl, rfl⟩) rfl _).bind fun source => ?_
  exact brief_expectSemicolon.bind fun _ => brief_get fun _ => brief_pure _

end Packages

theorem tells_recoverOutside {P : Message → Prop} (s : State) : s.Tells P s.recoverOutside :=
  (tells_recover s).trans (State.says_of_rest (List.dropWhile_suffix _)).tells

section Bodies

variable {P : Message → Prop} (hP : ∀ m : Message, m.Ordinary → P m)

include hP

theorem speaks_emptyBody (statement : String) : Speaks P (emptyBody statement) := by
  refine (brief_openBody _).speaks_bind hP fun _ => ?_
  refine (brief_modifyGet State.says_skipComments).speaks_bind hP fun comment => ?_
  refine (brief_demand (fun _ => ⟨rfl, rfl⟩) rfl _).speaks_bind hP fun _ => ?_
  exact speaks_modify fun s => (tells_misplaced hP s comment).trans (State.says_shift _).tells

theorem speaks_identifier (comment : Option Comment) (modifiers : List Token) :
    Speaks P (identifier comment modifiers) := by
  refine (brief_expectKeyword _).speaks_bind hP fun keyword => ?_
  refine (brief_typeParameter _ _).speaks_bind hP fun use? => ?_
  extract_lets parameter
  refine (brief_expectName _).speaks_bind hP fun name => ?_
  refine (speaks_emptyBody hP _).bind fun _ => Brief.speaks hP (brief_get_at fun s => ?_)
  exact (briefAt_modifyDocument (Document.headedIn_insertIdentifier rfl)).bind fun _ =>
    (brief_await _ _ _ _).bind fun _ => brief_pure _

theorem speaks_specimen (comment : Option Comment) (modifiers : List Token) :
    Speaks P (specimen comment modifiers) := by
  refine (brief_expectKeyword _).speaks_bind hP fun keyword => ?_
  refine (brief_typeParameter _ _).speaks_bind hP fun use? => ?_
  refine (brief_expectName _).speaks_bind hP fun name => ?_
  refine (brief_isAt _ _).speaks_bind hP fun found => ?_
  extract_lets complete
  have hcomplete (base : Option SpecimenId) : Speaks P (complete base) := by
    refine (speaks_emptyBody hP _).bind fun _ => Brief.speaks hP (brief_get_at fun s => ?_)
    exact (briefAt_modifyDocument (Document.headedIn_insertSpecimen rfl)).bind fun _ =>
      (brief_await _ _ _ _).bind fun _ => brief_pure _
  split
  · refine brief_advance.speaks_bind hP fun _ => Speaks.bind ?_ hcomplete
    exact (brief_specimenBase.bind fun base => brief_pure (some base)).speaks hP
  · exact (brief_pure none).speaks_bind hP hcomplete

theorem tells_enumerationItem (id : EnumerationId) (comment : Option Comment) (first : Token)
    (s : State) : s.Tells P (enumerationItem id comment first s) :=
  tells_salvage ((brief_enumerationValue id comment first).speaks hP)

theorem speaks_enumeration (comment : Option Comment) (modifiers : List Token)
    (owner : Option StructureId) : Speaks P (enumeration comment modifiers owner) := by
  refine (brief_enumerationHeader _ _ _).speaks_bind hP fun id => ?_
  refine (speaks_body hP (tells_enumerationItem hP id)).bind fun _ => Brief.speaks hP ?_
  refine Brief.bind ?_ fun _ => brief_pure id
  exact brief_modifyDocument fun _ x => Document.heading?_modifyEnumeration x fun _ => rfl

theorem tells_methodItem (id : InterfaceId) (position : Nat) (comment : Option Comment)
    (first : Token) (s : State) : s.Tells P (methodItem id position comment first s) := by
  refine tells_salvage ?_
  split
  · exact (brief_parameter id position comment first).speaks hP
  · exact (brief_unknownStatement _ _ _).speaks hP

theorem tells_interfaceItem (id : InterfaceId) (comment : Option Comment) (first : Token)
    (s : State) : s.Tells P (interfaceItem id comment first s) := by
  refine tells_salvage ?_
  split
  · exact (brief_methodHeader id comment).speaks_bind hP fun position =>
      speaks_items hP (tells_methodItem hP id position)
  · exact (brief_unknownStatement _ _ _).speaks hP

theorem speaks_interface (comment : Option Comment) : Speaks P (interface comment) := by
  refine (brief_interfaceHeader comment).speaks_bind hP fun id => ?_
  exact (speaks_body hP (tells_interfaceItem hP id)).bind fun _ => (brief_pure id).speaks hP

theorem tells_factoryItem (id : FactoryId) (comment : Option Comment) (first : Token)
    (s : State) : s.Tells P (factoryItem id comment first s) := by
  refine tells_salvage ?_
  split
  · exact (brief_filter id comment first).speaks hP
  · exact (brief_unknownStatement _ _ _).speaks hP

theorem speaks_factory (comment : Option Comment) (modifiers : List Token) :
    Speaks P (factory comment modifiers) := by
  refine (brief_factoryHeader comment modifiers).speaks_bind hP fun id => ?_
  exact (speaks_body hP (tells_factoryItem hP id)).bind fun _ => (brief_pure id).speaks hP

theorem speaks_member (id : StructureId) (comment : Option Comment) (first : Token) :
    Speaks P (member id comment first) := by
  unfold member
  extract_lets dispatch
  have hdispatch : Speaks P (dispatch ()) := by
    refine (brief_modifiers _).speaks_bind hP fun taken => speaks_get fun s => ?_
    extract_lets t form isReference complete
    have hcomplete (nested : Option EnumerationId) : Speaks P (complete nested) :=
      (speaks_reportModifiers hP _).bind fun _ => (brief_pure _).speaks hP
    have plain {p : Parser Unit} (hp : Brief p) :
        Speaks P (do p; let nested ← pure none; complete nested) :=
      hp.speaks_bind hP fun _ => (brief_pure _).speaks_bind hP hcomplete
    clear_value form
    cases form with
    | identification => exact plain (brief_identification comment taken)
    | upcopy => exact plain (brief_upcopy comment)
    | operator => exact plain (brief_operator comment taken)
    | field => exact plain (brief_field comment taken _)
    | enumeration =>
      refine Speaks.bind ?_ hcomplete
      exact (speaks_enumeration hP comment taken _).bind fun _ => (brief_pure _).speaks hP
  split
  · exact (brief_unexpected _).speaks_bind hP fun _ => hdispatch
  · exact hdispatch

section Checks

variable {checks : List Check} (hc : ∀ check ∈ checks, check.Speaks P)

include hc

theorem tells_settle {find : Session → Binding → Option DataType} (s : State)
    (pending : List Binding) {pending' : List Binding} :
    s.Tells P
      { s with toSession := (s.toSession.settle checks find pending).1, pending := pending' } :=
  State.tells_of_session (Session.tells_settle hc hP s.toSession pending)

omit hP in
theorem tells_visit (s : State) (x : Subject) :
    s.Tells P { s with toSession := (s.toSession.visit checks x false).2 } :=
  @State.tells_of_session P s _ s.pending (Session.tells_visit hc s.toSession x false)

theorem tells_structureItem (id : StructureId) (comment : Option Comment) (first : Token)
    (s : State) : s.Tells P (structureItem checks id comment first s) := by
  refine tells_construct (speaks_member hP id comment first) (fun nested s' => ?_) tells_recover
  cases nested with
  | none => exact .refl s'
  | some e =>
    have hvisit := tells_visit hc s' (.declaration (.enum e))
    have hadd (s : State) : s.Tells P
        (s.modifyDocument (·.modifyStructure id (·.addMember (.enumeration e)))) :=
      State.Says.tells (brief_addMember (.enumeration e) s)
    simp only [acceptNested]
    split
    · exact hvisit.trans (hadd _)
    · exact hvisit

theorem speaks_structureDeclaration (comment : Option Comment) (modifiers : List Token) :
    Speaks P (structureDeclaration checks comment modifiers) := by
  refine (brief_structureHeader comment modifiers).speaks_bind hP fun id => ?_
  refine (speaks_body hP (tells_structureItem hP hc id)).bind fun _ => ?_
  exact (speaks_modify fun s => tells_settle hP hc s _).bind fun _ => (brief_pure id).speaks hP

theorem speaks_declaration (comment : Option Comment) :
    Speaks P (declaration checks comment) := by
  refine (brief_modifiers _).speaks_bind hP fun taken => speaks_get fun s => ?_
  split
  · exact (brief_failHere (fun _ => ⟨rfl, rfl⟩) rfl).speaks hP
  · rename_i form _
    extract_lets finish
    have hfinish {α : Type} {p : Parser α} (node : α → Declaration) (hp : Speaks P p) :
        Speaks P (do let x ← node <$> p; finish x) := by
      refine Speaks.bind (hp.bind fun _ => (brief_pure _).speaks hP) fun x => ?_
      exact (speaks_reportModifiers hP _).bind fun _ => (brief_pure x).speaks hP
    cases form with
    | struct => exact hfinish _ (speaks_structureDeclaration hP hc comment taken)
    | interface => exact hfinish _ (speaks_interface hP comment)
    | enum => exact hfinish _ (speaks_enumeration hP comment taken none)
    | specimen => exact hfinish _ (speaks_specimen hP comment taken)
    | identifier => exact hfinish _ (speaks_identifier hP comment taken)
    | factory => exact hfinish _ (speaks_factory hP comment taken)

theorem tells_register (x : Declaration) (s : State) : s.Tells P (s.register checks x) := by
  have hlist : s.Tells P (s.modifyDocument (·.register x)) :=
    (State.says_modifyDocument (.of_eq fun y => Document.heading?_register y x)).tells
  unfold State.register
  split
  · exact hlist.trans (tells_settle hP hc _ _)
  · exact hlist

theorem tells_declare (comment : Option Comment) (s : State) :
    s.Tells P (s.declare checks comment) := by
  refine tells_construct (speaks_declaration hP hc comment) (fun x s' => ?_) tells_recoverOutside
  have hvisit := tells_visit hc s' (.declaration x)
  simp only [State.acceptDeclaration]
  split
  · exact hvisit.trans (tells_register hP hc x _)
  · exact hvisit

end Checks

end Bodies

end Idl.Grammar
