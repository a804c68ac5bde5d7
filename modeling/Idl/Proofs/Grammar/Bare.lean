import Idl.Proofs.Grammar.Progress
import Idl.Proofs.Reading.Bare

/-!
The routines of the grammar without comments. Those that read no body do the same with comments
and without them; what they write into the document differs in the comments of its nodes.
-/

namespace Idl.Grammar

section Types

theorem shadows_typeName (classifier : String) :
    Shadows .token .token (typeName classifier) (typeName classifier) := by
  refine shadows_iterate (fun (path, first?) => ?_)
    (progresses_of_isRound (isRound_typeNameRound classifier)) _
  refine (shadows_expect _ _ _).bind fun t => (shadows_isAt _ _).bind fun found => ?_
  split
  · exact shadows_advance.bind fun _ => shadows_pure _
  · exact shadows_pure _

theorem shadows_unknownType {α : Type} {front front' : Front} (name : TypeName)
    (classifier : String) :
    Shadows front front' (unknownType name classifier : Parser α) (unknownType name classifier) :=
  shadows_failAt _ _ _ _

theorem shadows_declaredType (classifier : String) :
    Shadows .token .token (declaredType classifier) (declaredType classifier) := by
  refine (shadows_typeName classifier).bind fun name => shadows_get fun s hs => ?_
  rw [State.find?_bare]
  split
  · exact shadows_pure _ s hs
  · exact shadows_unknownType name classifier s hs

theorem shadows_templates (classifier : String) :
    Shadows .token .token (templates classifier) (templates classifier) := by
  refine shadows_iterate (fun outer => ?_)
    (progresses_of_isRound (isRound_templateRound classifier)) _
  refine (shadows_typeName classifier).bind fun name => ?_
  split
  · exact (shadows_expectToken _ _).bind fun _ => shadows_pure _
  · exact shadows_pure _

theorem shadows_instantiate {front : Front} (template : Template) (argument : Option DataType)
    (weak : Bool) :
    Shadows front front (instantiate template argument weak)
      (instantiate template argument weak) := by
  refine shadows_modifyGet fun s hs => ⟨?_, hs.of_rest rfl⟩
  simp only [State.document_bare, Document.instantiate_bare]
  rfl

theorem shadows_closeTemplates (classifier : String) (scope : Option StructureId) (weak : Bool)
    (outer : List Template) (use : TypeUse) :
    Shadows .token .token (closeTemplates classifier scope weak outer use)
      (closeTemplates classifier scope weak outer use) := by
  induction outer generalizing use with
  | nil => exact shadows_pure _
  | cons template outer ih =>
    refine (shadows_expectToken _ _).bind fun _ => (shadows_instantiate _ _ _).bind fun id => ?_
    exact (shadows_await _ _ _ _).bind fun _ => ih _

theorem shadows_typeUse (classifier : String) (scope : Option StructureId) (weak : Bool) :
    Shadows .token .token (typeUse classifier scope weak) (typeUse classifier scope weak) := by
  refine (shadows_templates classifier).bind fun (outer, name) => shadows_get fun s hs => ?_
  rw [State.find?_bare]
  exact shadows_closeTemplates classifier scope weak outer _ s hs

theorem shadows_typeParameter (classifier : String) (scope : Option StructureId) :
    Shadows .token .token (typeParameter classifier scope) (typeParameter classifier scope) := by
  refine (shadows_isAt _ _).bind fun found => ?_
  split
  · refine shadows_advance.bind fun _ => (shadows_typeUse _ _ _).bind fun t => ?_
    exact (shadows_expectToken _ _).bind fun _ => shadows_pure _
  · exact shadows_pure _

theorem shadows_defaultValue (statement : String) :
    Shadows .token .token (defaultValue statement) (defaultValue statement) := by
  refine (shadows_expect _ _ _).bind fun t => shadows_get fun s hs => ?_
  simp only [State.locationOf_bare]
  split
  · exact shadows_pure _ s hs
  · exact shadows_pure _ s hs

theorem shadows_checkDefault {front : Front} (t : Option DataType) (default : Default)
    (statement : String) :
    Shadows front front (checkDefault t default statement) (checkDefault t default statement) := by
  have hask : Shadows front front (modify (·.ask t [default])) (modify (·.ask t [default])) :=
    shadows_modify fun s hs => ⟨s.ask_bare t [default], hs⟩
  refine hask.bind fun _ => shadows_get fun s hs => ?_
  simp only [State.document_bare, Document.defaultFault?_bare]
  split
  · exact shadows_fail _ _ s hs
  · exact shadows_pure _ s hs

end Types

section Modifiers

theorem progresses_modifierRound (words : List String) : Progresses (modifierRound words) := by
  intro taken s
  apply After.bind
  apply after_get
  split
  · rename_i t ht
    split
    · exact ⟨(State.reads_advance s).rest, fun _ _ => State.remaining_advance_lt ht⟩
    · exact ⟨List.suffix_rfl, nofun⟩
  · exact ⟨List.suffix_rfl, nofun⟩

theorem shadows_modifiers (words : List String) :
    Shadows .token .token (modifiers words) (modifiers words) := by
  refine shadows_iterate (fun taken => shadows_get fun s hs => ?_)
    (progresses_modifierRound words) _
  rw [State.current_bare hs]
  split
  · split
    · exact (shadows_advance.bind fun _ => shadows_pure _) s hs
    · exact shadows_pure _ s hs
  · exact shadows_pure _ s hs

theorem shadows_reportModifiers {front : Front} (modifiers : List Token) :
    Shadows front front (reportModifiers modifiers) (reportModifiers modifiers) := by
  refine shadows_modify fun s hs => ?_
  induction modifiers generalizing s with
  | nil => exact ⟨rfl, hs⟩
  | cons t modifiers ih =>
    simp only [List.foldl_cons, State.locationOf_bare]
    rw [State.report_bare (by rfl)]
    exact ih _ (hs.of_rest rfl)

end Modifiers

section Enumerations

theorem shadows_valueParts (id : EnumerationId) :
    Shadows .token .token (valueParts id) (valueParts id) := by
  refine shadows_iterate (fun parts => ?_) (progresses_of_isRound (isRound_valuePartRound id)) _
  refine (shadows_expectName _).bind fun part => shadows_get fun s hs => ?_
  have hposition : (s.bare.document.enumerations.get? id).bind (·.position? part.value) =
      (s.document.enumerations.get? id).bind (·.position? part.value) := by
    simp only [State.document_bare, Document.bare, Arena.get?_map, Option.bind_map,
      Function.comp_def, Enumeration.position?_bare]
  rw [hposition]
  split
  · exact shadows_fail _ _ s hs
  · refine Shadows.bind (shadows_isAt _ _) (fun found => ?_) s hs
    split
    · exact shadows_advance.bind fun _ => shadows_pure _
    · exact shadows_pure _

theorem shadows_enumerationValue (id : EnumerationId) (comment : Option Comment)
    (first : Token) :
    Shadows .token .any (enumerationValue id comment first) (enumerationValue id none first) := by
  unfold enumerationValue
  extract_lets named named'
  have hnamed : Shadows .token .any (named ()) (named' ()) := by
    refine (shadows_expectName _).bind fun name => (shadows_isAt _ _).bind fun found => ?_
    extract_lets complete complete'
    have hcomplete (parts : Option (List Nat)) :
        Shadows .token .any (complete parts) (complete' parts) :=
      shadows_expectSemicolon.bind fun _ => shadows_modifyDocument fun d =>
        d.bare_modifyEnumeration (fun e => e.bare_addValue _) id
    split
    · refine shadows_advance.bind fun _ => Shadows.bind ?_ hcomplete
      exact (shadows_valueParts id).bind fun _ => shadows_pure _
    · exact (shadows_pure none).bind hcomplete
  split
  · exact (shadows_unexpected _).bind fun _ => hnamed
  · exact hnamed

theorem shadows_enumerationHeader (comment : Option Comment) (modifiers : List Token)
    (owner : Option StructureId) :
    Shadows .token .token (enumerationHeader comment modifiers owner)
      (enumerationHeader none modifiers owner) := by
  unfold enumerationHeader
  refine (shadows_expectKeyword _).bind fun keyword =>
    (shadows_typeParameter _ _).bind fun use? => ?_
  extract_lets parameter
  refine (shadows_expectName _).bind fun name => (shadows_isAt _ _).bind fun flags => ?_
  extract_lets write write'
  have hwrite : Shadows .token .token (write ⟨⟩) (write' ⟨⟩) := by
    refine shadows_get fun s hs => ?_
    have hnext : s.bare.document.enumerations.next = s.document.enumerations.next :=
      Arena.next_map _ _
    simp only [hnext]
    refine shadows_insert (fun d => ?_) _ _ _ _ _ s hs
    exact d.bare_insertEnumeration _
  split
  · exact shadows_advance.bind fun _ => hwrite
  · exact hwrite

end Enumerations

section Values

theorem shadows_identifier (comment : Option Comment) (modifiers : List Token) :
    Shadows .token .any (identifier comment modifiers) (identifier none modifiers) := by
  refine (shadows_expectKeyword _).bind fun keyword =>
    (shadows_typeParameter _ _).bind fun use? => ?_
  extract_lets parameter
  refine (shadows_expectName _).bind fun name => (shadows_emptyBody _).bind fun _ => ?_
  refine shadows_get fun s hs => ?_
  have hnext : s.bare.document.identifiers.next = s.document.identifiers.next := Arena.next_map _ _
  simp only [hnext]
  refine shadows_insert (fun d => ?_) _ _ _ _ _ s hs
  exact d.bare_insertIdentifier _

theorem shadows_specimenBase : Shadows .token .token specimenBase specimenBase := by
  refine (shadows_declaredType _).bind fun (name, t) => ?_
  cases t with
  | specimen base => exact shadows_pure base
  | _ => exact shadows_failAt _ _ _ _

theorem shadows_specimen (comment : Option Comment) (modifiers : List Token) :
    Shadows .token .any (specimen comment modifiers) (specimen none modifiers) := by
  refine (shadows_expectKeyword _).bind fun keyword =>
    (shadows_typeParameter _ _).bind fun use? => ?_
  refine (shadows_expectName _).bind fun name => (shadows_isAt _ _).bind fun found => ?_
  extract_lets complete complete'
  have hcomplete (base : Option SpecimenId) :
      Shadows .token .any (complete base) (complete' base) := by
    refine (shadows_emptyBody _).bind fun _ => shadows_get fun s hs => ?_
    have hnext : s.bare.document.specimens.next = s.document.specimens.next := Arena.next_map _ _
    have hinherited : inheritedParameter s.bare.document base =
        inheritedParameter s.document base := by
      have hget : s.bare.document.specimens.get? =
          fun id => (s.document.specimens.get? id).map Specimen.bare :=
        funext fun id => Arena.get?_map _ _ id
      simp only [inheritedParameter, hget]
      cases base with
      | none => rfl
      | some id =>
        cases h : s.document.specimens.get? id <;> simp only [Option.bind_some, h] <;> rfl
    simp only [hnext, hinherited]
    refine shadows_insert (fun d => ?_) _ _ _ _ _ s hs
    exact d.bare_insertSpecimen _
  split
  · refine shadows_advance.bind fun _ => Shadows.bind ?_ hcomplete
    exact shadows_specimenBase.bind fun base => shadows_pure (some base)
  · exact (shadows_pure none).bind hcomplete

end Values

section Structures

variable {id : StructureId}

theorem shadows_addMember {front : Front} {m m' : Member} (h : m.bare = m') :
    Shadows front front (addMember id m) (addMember id m') :=
  shadows_modifyDocument fun d => d.bare_modifyStructure (fun s => h ▸ s.bare_addMember m) id

theorem shadows_structureBase : Shadows .token .token structureBase structureBase := by
  refine (shadows_declaredType _).bind fun (name, t) => ?_
  cases t with
  | struct base => exact shadows_pure base
  | _ => exact shadows_failAt _ _ _ _

theorem shadows_baseField {front : Front} (base : StructureId) (name : String)
    (location : Location) :
    Shadows front front (baseField base name location) (baseField base name location) := by
  refine shadows_get fun s hs => ?_
  simp only [State.document_bare, Document.findField?_bare]
  split
  · exact shadows_pure _ s hs
  · exact shadows_fail _ _ s hs

theorem shadows_alters (base : StructureId) :
    Shadows .token .token (alters id base) (alters id base) := by
  refine shadows_iterate (fun _ => ?_) (progresses_of_isRound fun _ => isRound_alterRound base) _
  refine shadows_advance.bind fun _ => (shadows_expectName _).bind fun name => ?_
  refine (shadows_baseField _ _ _).bind fun field => (shadows_expectToken _ _).bind fun _ => ?_
  refine (shadows_defaultValue _).bind fun default => shadows_get fun s hs => ?_
  have htype : (s.bare.document.field? field).bind (·.type) =
      (s.document.field? field).bind (·.type) := by
    simp only [State.document_bare, Document.field?_bare, Option.bind_map]
    rfl
  rw [htype]
  refine Shadows.bind (shadows_checkDefault _ _ _) (fun _ => ?_) s hs
  refine (shadows_addMember rfl).bind fun _ => (shadows_isAt _ _).bind fun found => ?_
  split
  · exact shadows_pure _
  · exact shadows_pure _

theorem shadows_identification (comment : Option Comment) (modifiers : List Token) :
    Shadows .token .any (identification id comment modifiers)
      (identification id none modifiers) := by
  refine (shadows_expectKeyword _).bind fun keyword => shadows_get fun s hs => ?_
  rw [State.current_bare hs]
  extract_lets behind complete complete'
  have hcomplete : Shadows .token .any (complete ⟨⟩) (complete' ⟨⟩) :=
    shadows_expectSemicolon.bind fun _ => shadows_get fun s hs => shadows_addMember rfl s hs
  split
  · exact (shadows_advance.bind fun _ => hcomplete) s hs
  · exact hcomplete s hs

theorem findWithin?_bare (s : State) (name : TypeName) :
    findWithin? s.bare id name = findWithin? s id name := by
  simp only [findWithin?, State.document_bare, Document.nameText_bare, State.find?_bare]

theorem shadows_upcopy (comment : Option Comment) :
    Shadows .token .any (upcopy id comment) (upcopy id none) := by
  refine (shadows_expectKeyword _).bind fun keyword => (shadows_expectKeyword _).bind fun _ => ?_
  refine (shadows_typeName _).bind fun name => shadows_get fun s hs => ?_
  simp only [findWithin?_bare, State.document_bare, Document.inherits_bare,
    Document.nameText_bare]
  split
  · exact shadows_unknownType name "upcopy" s hs
  · rename_i base _
    have hcomplete : Shadows .token .any
        (do expectSemicolon
            addMember id (.upcopy
              { base, location := s.locationOf keyword, comment, owner := id }))
        (do expectSemicolon
            addMember id (.upcopy { base, location := s.locationOf keyword, owner := id })) :=
      shadows_expectSemicolon.bind fun _ => shadows_addMember rfl
    split
    · exact ((shadows_failAt _ _ _ _).bind fun _ => hcomplete) s hs
    · exact hcomplete s hs
  · exact shadows_failAt _ _ _ _ s hs

theorem shadows_operator (comment : Option Comment) (modifiers : List Token) :
    Shadows .token .any (operator id comment modifiers) (operator id none modifiers) := by
  refine (shadows_expectKeyword _).bind fun keyword => shadows_get fun s hs => ?_
  rw [State.current_bare hs]
  split
  · exact shadows_failHere _ _ s hs
  · refine Shadows.bind shadows_advance (fun _ => shadows_expectSemicolon.bind fun _ => ?_) s hs
    exact shadows_get fun s hs => shadows_addMember rfl s hs

theorem shadows_overriddenField (keyword : Token) (name : String) :
    Shadows .token .token (overriddenField id keyword name) (overriddenField id keyword name) := by
  refine shadows_get fun s hs => ?_
  simp only [State.document_bare, Document.base_bare, State.locationOf_bare]
  split
  · exact shadows_baseField _ _ _ s hs
  · exact shadows_failAt _ _ _ _ s hs

theorem State.here_bare {s : State} {t : Token} (hs : s.Shows .token) (ht : s.current = some t) :
    s.bare.here = s.here := by
  have hposition : s.bare.cursor.position = s.cursor.position := by
    have hbare : s.bare.cursor.current = some t := (State.current_bare hs).trans ht
    have hcurrent : s.cursor.current = some t := ht
    simp only [Cursor.position, hbare, hcurrent]
  simp only [here, hposition]
  rfl

/-- At the end of the source there is no type. -/
theorem typeUse_at_end {s : State} (h : s.current = none) (classifier : String)
    (scope : Option StructureId) (weak : Bool) :
    ∃ e s', typeUse classifier scope weak s = .error e s' := by
  cases hr : typeUse classifier scope weak s with
  | error e s' => exact ⟨e, s', rfl⟩
  | ok t s' =>
    have hlt : s'.remaining < s.remaining :=
      After.of_ok ((takes_typeUse classifier scope weak).readsOn s) hr
    have hnil : s.cursor.rest = [] := List.head?_eq_none_iff.1 h
    simp only [State.remaining, hnil, List.length_nil, Nat.not_lt_zero] at hlt

theorem shadows_field (comment : Option Comment) (modifiers : List Token) (weak : Bool) :
    Shadows .token .any (field id comment modifiers weak) (field id none modifiers weak) := by
  refine shadows_get fun s hs => ?_
  -- a field starts with its type, so the location is that of a token if it is read at all
  cases hcurrent : s.current with
  | none =>
    obtain ⟨_, _, hfail⟩ := typeUse_at_end hcurrent "field" (some id) weak
    obtain ⟨_, _, hfail'⟩ :=
      typeUse_at_end ((State.current_bare hs).trans hcurrent) "field" (some id) weak
    unfold ShadowsAt After
    rw [run_bind_of_error hfail]
    exact ⟨_, _, run_bind_of_error hfail' _⟩
  | some t =>
    rw [State.here_bare hs hcurrent]
    extract_lets location
    refine Shadows.bind (shadows_typeUse _ _ _) (fun use => ?_) s hs
    refine (shadows_expectName _).bind fun name => (shadows_isAt _ _).bind fun found => ?_
    extract_lets complete complete'
    have hcomplete (default : Option Default) :
        Shadows .token .any (complete default) (complete' default) := by
      have hoverridden : Shadows .token .token
          ((taken? modifiers ["override"]).mapM fun keyword =>
            overriddenField id keyword name.value)
          ((taken? modifiers ["override"]).mapM fun keyword =>
            overriddenField id keyword name.value) := by
        cases taken? modifiers ["override"] with
        | none => exact shadows_pure _
        | some keyword => exact (shadows_overriddenField keyword _).bind fun _ => shadows_pure _
      refine hoverridden.bind fun overridden => shadows_expectSemicolon.bind fun _ => ?_
      refine shadows_get fun s hs => ?_
      have hbitmask : (s.bare.document.structures.get? id).map Structure.nextBitmask =
          (s.document.structures.get? id).map Structure.nextBitmask := by
        simp only [State.document_bare, Document.bare, Arena.get?_map, Option.map_map,
          Function.comp_def, Structure.nextBitmask_bare]
      have hposition : (s.bare.document.structures.get? id).map (·.members.length) =
          (s.document.structures.get? id).map (·.members.length) := by
        simp only [State.document_bare, Document.bare, Arena.get?_map, Option.map_map,
          Function.comp_def, Structure.length_members_bare]
      simp only [hbitmask, hposition]
      refine Shadows.bind (shadows_addMember ?_) (fun _ => shadows_await _ _ _ _) s hs
      cases overridden <;> rfl
    split
    · refine shadows_advance.bind fun _ => (shadows_defaultValue _).bind fun default => ?_
      exact (shadows_checkDefault _ _ _).bind fun _ =>
        (shadows_pure (some default)).bind hcomplete
    · exact (shadows_pure none).bind hcomplete

theorem shadows_structureHeader (comment : Option Comment) (modifiers : List Token) :
    Shadows .token .token (structureHeader comment modifiers) (structureHeader none modifiers) := by
  refine (shadows_expectKeyword _).bind fun keyword => (shadows_expectName _).bind fun name => ?_
  refine shadows_get fun s hs => ?_
  have hnext : s.bare.document.structures.next = s.document.structures.next := Arena.next_map _ _
  simp only [hnext]
  refine Shadows.bind (shadows_modifyDocument fun d => d.bare_insertStructure _) (fun _ => ?_) s hs
  refine (shadows_isAt _ _).bind fun found => ?_
  split
  · refine shadows_advance.bind fun _ => shadows_structureBase.bind fun base => ?_
    have hbase (s : Structure) :
        ({ s with base := some base } : Structure).bare = { s.bare with base := some base } := rfl
    refine (shadows_modifyDocument fun d => d.bare_modifyStructure hbase _).bind fun _ => ?_
    refine (shadows_isAt _ _).bind fun found => ?_
    split
    · exact (shadows_alters base).bind fun _ => shadows_pure _
    · exact shadows_pure _
  · exact shadows_pure _

end Structures

section Interfaces

theorem shadows_parameter (id : InterfaceId) (position : Nat) (comment : Option Comment)
    (arrow : Token) :
    Shadows .token .any (parameter id position comment arrow)
      (parameter id position none arrow) := by
  refine shadows_advance.bind fun _ => (shadows_typeUse _ _ _).bind fun use => ?_
  refine (shadows_expectName _).bind fun name => shadows_expectSemicolon.bind fun _ => ?_
  refine shadows_get fun s hs => ?_
  have hcount : (do
        let i ← s.bare.document.interfaces.get? id
        let m ← i.methods[position]?
        return m.parameters.length : Option Nat) = do
      let i ← s.document.interfaces.get? id
      let m ← i.methods[position]?
      return m.parameters.length := by
    have hlength (m : Method) : m.bare.parameters.length = m.parameters.length :=
      List.length_map Parameter.bare
    have hmethod (i : Interface) :
        i.bare.methods[position]? = i.methods[position]?.map Method.bare :=
      List.getElem?_map
    simp only [State.document_bare, Document.bare, Arena.get?_map, Option.bind_eq_bind,
      Option.bind_map, Function.comp_def, hmethod, hlength]
  simp only [hcount]
  refine Shadows.bind (shadows_modifyDocument fun d => ?_) (fun _ => shadows_await _ _ _ _) s hs
  exact d.bare_modifyInterface (fun i => i.bare_addParameter position _) id

theorem shadows_methodHeader (id : InterfaceId) (comment : Option Comment) :
    Shadows .token .any (methodHeader id comment) (methodHeader id none) := by
  refine (shadows_expectKeyword _).bind fun keyword => (shadows_expectName _).bind fun name => ?_
  refine (shadows_openBody _).bind fun _ => shadows_get fun s hs => ?_
  have hposition : (s.bare.document.interfaces.get? id).map (·.methods.length) =
      (s.document.interfaces.get? id).map (·.methods.length) := by
    have hlength (i : Interface) : i.bare.methods.length = i.methods.length :=
      List.length_map Method.bare
    simp only [State.document_bare, Document.bare, Arena.get?_map, Option.map_map,
      Function.comp_def, hlength]
  simp only [hposition]
  refine Shadows.bind (shadows_modifyDocument fun d => ?_) (fun _ => shadows_pure _) s hs
  exact d.bare_modifyInterface (fun i => i.bare_addMethod _) id

theorem shadows_interfaceHeader (comment : Option Comment) :
    Shadows .token .token (interfaceHeader comment) (interfaceHeader none) := by
  refine (shadows_expectKeyword _).bind fun keyword => (shadows_expectName _).bind fun name => ?_
  refine shadows_get fun s hs => ?_
  have hnext : s.bare.document.interfaces.next = s.document.interfaces.next := Arena.next_map _ _
  simp only [hnext]
  exact Shadows.bind (shadows_modifyDocument fun d => d.bare_insertInterface _)
    (fun _ => shadows_pure _) s hs

end Interfaces

section Factories

theorem shadows_factoryKind (keyword : Token) (modifiers : List Token) :
    Shadows .token .token (factoryKind keyword modifiers) (factoryKind keyword modifiers) := by
  unfold factoryKind
  split
  · exact shadows_pure _
  · exact shadows_failAt _ _ _ _

theorem shadows_factoryFunction (kind : Factory.Kind) (modifiers : List Token) :
    Shadows .token .token (factoryFunction kind modifiers) (factoryFunction kind modifiers) := by
  unfold factoryFunction
  split
  · split
    · exact shadows_pure _
    · exact shadows_failAt _ _ _ _
  · exact shadows_pure _

theorem shadows_filter (id : FactoryId) (comment : Option Comment) (keyword : Token) :
    Shadows .token .any (filter id comment keyword) (filter id none keyword) := by
  refine (shadows_expectKeyword _).bind fun _ => shadows_get fun s hs => ?_
  have hfactory : s.bare.document.factories.get? id =
      (s.document.factories.get? id).map Factory.bare := Arena.get?_map _ _ id
  have hkind : ((s.document.factories.get? id).map Factory.bare).any (·.kind == .object) =
      (s.document.factories.get? id).any (·.kind == .object) := by
    rw [Option.any_map]
    rfl
  have hparameter : ((s.document.factories.get? id).map Factory.bare).bind (·.parameter) =
      (s.document.factories.get? id).bind (·.parameter) := by
    rw [Option.bind_map]
    rfl
  rw [hfactory]
  extract_lets factory known factory' known'
  have hknown : Shadows .token .any (known ⟨⟩) (known' ⟨⟩) := by
    simp only [known, known', factory, factory', hparameter, State.document_bare,
      Document.findField?_bare, Document.nameText_bare]
    cases ((s.document.factories.get? id).bind (·.parameter)).bind DataType.asStructure? with
    | none => exact shadows_failAt _ _ _ _
    | some owner =>
      refine (shadows_expectName _).bind fun name => ?_
      cases s.document.findField? owner name.value with
      | none => exact shadows_fail _ _
      | some field =>
        refine (shadows_expectKeyword _).bind fun _ => (shadows_expectName _).bind fun method => ?_
        refine shadows_expectSemicolon.bind fun _ => shadows_modifyDocument fun d => ?_
        exact d.bare_modifyFactory (fun f => f.bare_addFilter _) id
  rw [show factory'.any (·.kind == .object) = factory.any (·.kind == .object) from hkind]
  split
  · exact ((shadows_failAt _ _ _ _).bind fun _ => hknown) s hs
  · exact hknown s hs

theorem shadows_factoryHeader (comment : Option Comment) (modifiers : List Token) :
    Shadows .token .token (factoryHeader comment modifiers) (factoryHeader none modifiers) := by
  refine (shadows_expectKeyword _).bind fun keyword =>
    (shadows_factoryKind _ _).bind fun kind => ?_
  refine (shadows_factoryFunction _ _).bind fun function => ?_
  refine (shadows_typeParameter _ _).bind fun parameter? => ?_
  split
  · exact shadows_failHere _ _
  · refine (shadows_expectName _).bind fun name => shadows_get fun s hs => ?_
    have hnext : s.bare.document.factories.next = s.document.factories.next := Arena.next_map _ _
    simp only [hnext]
    refine shadows_insert (fun d => ?_) _ _ _ _ _ s hs
    exact d.bare_insertFactory _

end Factories

section Packages

theorem shadows_packagePath : Shadows .token .token packagePath packagePath := by
  refine shadows_iterate (fun elements => ?_) (progresses_of_isRound isRound_packageRound) _
  have helement (position : Nat) :
      Shadows .token .token (packageElement position) (packageElement position) := by
    refine (shadows_expect _ _ _).bind fun t => shadows_get fun s hs => ?_
    have hinherited : inheritedElement? s.bare position = inheritedElement? s position := rfl
    simp only [hinherited, State.locationOf_bare]
    split
    · split
      · exact shadows_pure _ s hs
      · exact shadows_failAt _ _ _ _ s hs
    · exact shadows_pure _ s hs
  refine (helement _).bind fun e => (shadows_isAt _ _).bind fun found => ?_
  split
  · exact shadows_advance.bind fun _ => shadows_pure _
  · exact shadows_pure _

theorem shadows_package : Shadows .token .any package package := by
  refine (shadows_expectKeyword _).bind fun keyword => shadows_packagePath.bind fun short => ?_
  refine (shadows_isAt _ _).bind fun found => ?_
  extract_lets complete
  have hcomplete (full : List PackageElement) :
      Shadows .token .any (complete full) (complete full) := by
    refine shadows_expectSemicolon.bind fun _ => shadows_modify fun s hs => ⟨?_, trivial⟩
    have hmain : s.bare.isMain = s.isMain := rfl
    simp only [State.locationOf_bare, hmain]
    split <;> rfl
  split
  · exact shadows_advance.bind fun _ => shadows_packagePath.bind hcomplete
  · exact (shadows_pure short).bind hcomplete

theorem shadows_importStatement :
    Shadows .token .any (importStatement none) (importStatement none) := by
  refine (shadows_expectKeyword _).bind fun keyword => (shadows_expect _ _ _).bind fun source => ?_
  exact shadows_expectSemicolon.bind fun _ => shadows_get fun s hs => shadows_pure _ s hs

/-- The comment of an import is put into what was read. -/
theorem importStatement_eq (comment : Option Comment) :
    importStatement comment = (fun i => { i with comment }) <$> importStatement none := by
  simp only [importStatement, map_bind, map_pure]

end Packages

end Idl.Grammar
