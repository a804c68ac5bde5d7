import Idl.Proofs.Grammar.Bare
import Idl.Proofs.Reading.Ignore

/-!
The routines of the grammar next to a stray semicolon. Those that read no body of their own do the
same with it and without it, unless it stands in a body that has to be empty.
-/

namespace Idl.Grammar

variable {x : Option Stray}

section Types

theorem ignores_typeName (classifier : String) :
    Ignores x .clear .clear (typeName classifier) := by
  refine ignores_iterate_clear (fun (path, first?) => ?_)
    (progresses_of_isRound (isRound_typeNameRound classifier)) _
  refine (ignores_expect (fun t ht => ?_) _ _).bind fun t => ?_
  · exact isBoundary_of_identifier (beq_iff_eq.1 ht)
  · refine ignores_isAt (fun _ => isBoundary_of_is nofun nofun) ?_ ?_
    · exact ignores_advance.bind fun _ => ignores_pure _
    · exact ignores_pure _

theorem ignores_unknownType {α : Type} {edge : Edge} (name : TypeName) (classifier : String) :
    Ignores x .clear edge (unknownType name classifier : Parser α) :=
  ignores_failAt _ _ _

theorem ignores_declaredType (classifier : String) :
    Ignores x .clear .clear (declaredType classifier) := by
  refine (ignores_typeName classifier).bind fun name =>
    ignores_consult (fun _ _ _ => rfl) fun s => ?_
  split
  · exact ignores_pure _
  · exact ignores_unknownType name classifier

theorem ignores_templates (classifier : String) :
    Ignores x .clear .clear (templates classifier) := by
  refine ignores_iterate_clear (fun outer => ?_)
    (progresses_of_isRound (isRound_templateRound classifier)) _
  refine (ignores_typeName classifier).bind fun name => ?_
  split
  · exact (ignores_expectToken (by decide) _).bind fun _ => ignores_pure _
  · exact ignores_pure _

theorem ignores_instantiate {edge : Edge} (template : Template) (argument : Option DataType)
    (weak : Bool) : Ignores x edge edge (instantiate template argument weak) := by
  intro s s' hs
  obtain ⟨hm, hc⟩ := hs
  exact ⟨_, rfl, .intro hm hc⟩

theorem ignores_closeTemplates (classifier : String) (scope : Option StructureId) (weak : Bool)
    (outer : List Template) (use : TypeUse) :
    Ignores x .clear .clear (closeTemplates classifier scope weak outer use) := by
  induction outer generalizing use with
  | nil => exact ignores_pure _
  | cons template outer ih =>
    refine (ignores_expectToken (by decide) _).bind fun _ =>
      (ignores_instantiate _ _ _).bind fun id => ?_
    exact (ignores_await _ _ _ _).bind fun _ => ih _

theorem ignores_typeUse (classifier : String) (scope : Option StructureId) (weak : Bool) :
    Ignores x .clear .clear (typeUse classifier scope weak) := by
  refine (ignores_templates classifier).bind fun (outer, name) =>
    ignores_consult (fun _ _ _ => rfl) fun s => ?_
  exact ignores_closeTemplates classifier scope weak outer _

theorem ignores_typeParameter (classifier : String) (scope : Option StructureId) :
    Ignores x .clear .clear (typeParameter classifier scope) := by
  refine ignores_isAt (fun _ => isBoundary_of_is nofun nofun) ?_ ?_
  · refine ignores_advance.bind fun _ => (ignores_typeUse _ _ _).bind fun t => ?_
    exact (ignores_expectToken (by decide) _).bind fun _ => ignores_pure _
  · exact ignores_pure _

theorem isBoundary_of_literal {t : Token} (h : isLiteral t = true) : isBoundary t = false := by
  refine isBoundary_of_kind (fun hkind => ?_) fun hkind => ?_ <;>
    simp [isLiteral, hkind] at h

theorem ignores_defaultValue (statement : String) :
    Ignores x .clear .clear (defaultValue statement) := by
  refine (ignores_expect (fun _ => isBoundary_of_literal) _ _).bind fun t =>
    ignores_consult (fun _ _ _ => rfl) fun s => ?_
  split
  · exact ignores_pure _
  · exact ignores_pure _

theorem ignores_checkDefault (t : Option DataType) (default : Default) (statement : String) :
    Ignores x .clear .clear (checkDefault t default statement) := by
  refine (ignores_modify fun s s' hs => hs.ask t [default]).bind fun _ =>
    ignores_consult (fun _ _ _ => rfl) fun s => ?_
  extract_lets d
  split
  · exact ignores_fail _
  · exact ignores_pure _

end Types

section Modifiers

theorem ignores_modifiers (words : List String) : Ignores x .clear .clear (modifiers words) := by
  refine ignores_iterate_clear (fun taken => ignores_get fun s s' hs => ?_)
    (progresses_modifierRound words) _
  rw [hs.current]
  split
  · rename_i t ht
    split
    · rename_i hword
      have hidentifier : t.kind = .identifier :=
        beq_iff_eq.1 (Bool.and_eq_true_iff.1 hword).1
      exact (ignores_advance.bind fun _ => ignores_pure _) s s'
        (hs.inner_of_current ht (isBoundary_of_identifier hidentifier))
    · exact ignores_pure _ s s' hs
  · exact ignores_pure _ s s' hs

theorem ignores_reportModifiers {edge : Edge} (modifiers : List Token) :
    Ignores x edge edge (reportModifiers modifiers) := by
  refine ignores_modify fun s s' hs => ?_
  induction modifiers generalizing s s' with
  | nil => exact hs
  | cons t modifiers ih => exact ih _ _ (hs.report (by rfl))

end Modifiers

section Enumerations

theorem ignores_valueParts (id : EnumerationId) :
    Ignores x .clear .clear (valueParts id) := by
  refine ignores_iterate_clear (fun parts => ?_)
    (progresses_of_isRound (isRound_valuePartRound id)) _
  refine (ignores_expectName _).bind fun part => ignores_consult (fun _ _ _ => rfl) fun s => ?_
  split
  · exact ignores_fail _
  · refine ignores_isAt (fun _ => isBoundary_of_is nofun nofun) ?_ ?_
    · exact ignores_advance.bind fun _ => ignores_pure _
    · exact ignores_pure _

theorem ignores_enumerationValue (id : EnumerationId) (comment : Option Comment)
    (first : Token) : Ignores x .clear .any (enumerationValue id comment first) := by
  unfold enumerationValue
  extract_lets named
  have hnamed : Ignores x .clear .any (named ()) := by
    refine (ignores_expectName _).bind fun name => ?_
    extract_lets complete
    have hcomplete (parts : Option (List Nat)) : Ignores x .clear .any (complete parts) :=
      ignores_expectSemicolon.bind fun _ => ignores_modifyDocument _
    refine ignores_isAt (fun _ => isBoundary_of_is nofun nofun) ?_ ?_
    · refine ignores_advance.bind fun _ => Ignores.bind ?_ hcomplete
      exact (ignores_valueParts id).bind fun _ => ignores_pure _
    · exact (ignores_pure none).bind hcomplete
  split
  · exact (ignores_unexpected _ : Ignores x .clear .clear _).bind fun _ => hnamed
  · exact hnamed

theorem ignores_enumerationHeader (comment : Option Comment) (modifiers : List Token)
    (owner : Option StructureId) :
    Ignores x .clear .clear (enumerationHeader comment modifiers owner) := by
  unfold enumerationHeader
  refine (ignores_expectKeyword _).bind fun keyword =>
    (ignores_typeParameter _ _).bind fun use? => ?_
  extract_lets parameter
  refine (ignores_expectName _).bind fun name => ?_
  have hwrite (flags : Bool) : Ignores x .clear .clear (do
      let s ← get
      let id := s.document.enumerations.next
      let header : Enumeration :=
        { name
          location := s.locationOf keyword
          comment
          package := s.package
          parameter := parameter.type?
          flags
          cast := castOf modifiers
          owner }
      modifyDocument (·.insertEnumeration header)
      await parameter.name? "enumeration parameter" owner (.enumerationParameter id)
      return id) :=
    ignores_consult (fun _ _ _ => rfl) fun s => ignores_insert _ _ _ _ _ _
  refine ignores_isAt (fun _ => isBoundary_of_is nofun nofun) ?_ ?_
  · exact ignores_advance.bind fun _ => hwrite _
  · exact hwrite _

end Enumerations

section Values

theorem ignores_specimenBase : Ignores x .clear .clear specimenBase := by
  refine (ignores_declaredType _).bind fun (name, t) => ?_
  cases t with
  | specimen base => exact ignores_pure base
  | _ => exact ignores_failAt _ _ _

theorem nearly_identifier (comment : Option Comment) (modifiers : List Token) :
    Nearly x .clear (identifier comment modifiers) := by
  refine (ignores_expectKeyword _).bind_nearly fun keyword =>
    (ignores_typeParameter _ _).bind_nearly fun use? => ?_
  extract_lets parameter
  refine (ignores_expectName _).bind_nearly fun name => (nearly_emptyBody _).bind (fun _ => ?_)
    fun _ => ?_
  · exact ignores_consult (fun _ _ _ => rfl) fun s => ignores_insert _ _ _ _ _ _
  · exact still_get.bind fun s => (still_modifyDocument _).bind fun _ =>
      (still_await _ _ _ _).bind fun _ => still_pure _

theorem nearly_specimen (comment : Option Comment) (modifiers : List Token) :
    Nearly x .clear (specimen comment modifiers) := by
  refine (ignores_expectKeyword _).bind_nearly fun keyword =>
    (ignores_typeParameter _ _).bind_nearly fun use? => ?_
  refine (ignores_expectName _).bind_nearly fun name => ?_
  extract_lets complete
  have hcomplete (base : Option SpecimenId) : Nearly x .clear (complete base) := by
    refine (nearly_emptyBody _).bind (fun _ => ?_) fun _ => ?_
    · exact ignores_consult (fun _ _ _ => rfl) fun s => ignores_insert _ _ _ _ _ _
    · exact still_get.bind fun s => (still_modifyDocument _).bind fun _ =>
        (still_await _ _ _ _).bind fun _ => still_pure _
  refine nearly_isAt (fun _ => isBoundary_of_is nofun nofun) ?_ ?_
  · refine ignores_advance.bind_nearly fun _ => Ignores.bind_nearly ?_ hcomplete
    exact ignores_specimenBase.bind fun base => ignores_pure (some base)
  · exact (ignores_pure none).bind_nearly hcomplete

end Values

section Structures

variable {id : StructureId}

theorem ignores_addMember {edge : Edge} (m : Member) : Ignores x edge edge (addMember id m) :=
  ignores_modifyDocument _

theorem ignores_structureBase : Ignores x .clear .clear structureBase := by
  refine (ignores_declaredType _).bind fun (name, t) => ?_
  cases t with
  | struct base => exact ignores_pure base
  | _ => exact ignores_failAt _ _ _

theorem ignores_baseField (base : StructureId) (name : String) (location : Location) :
    Ignores x .clear .clear (baseField base name location) := by
  refine ignores_consult (fun _ _ _ => rfl) fun s => ?_
  split
  · exact ignores_pure _
  · exact ignores_fail _

/-- Each alter starts at the keyword or the comma in front of it. -/
theorem ignores_alters (base : StructureId) : Ignores x .inner .clear (alters id base) := by
  refine ignores_iterate (fun _ s s' hs => ?_)
    (progresses_of_isRound fun _ => isRound_alterRound base) _
  refine (ignores_advance s s' hs).bind fun _ s s' hs => ?_
  refine (ignores_expectName _ s s' hs).bind fun name s s' hs => ?_
  refine (ignores_baseField _ _ _ s s' hs).bind fun field s s' hs => ?_
  refine (ignores_expectToken (by decide) _ s s' hs).bind fun _ s s' hs => ?_
  refine (ignores_defaultValue _ s s' hs).bind fun default s s' hs => ?_
  refine ignoresAt_consult (fun _ _ _ => rfl) hs ?_
  refine (ignores_checkDefault _ _ _ s s' hs).bind fun _ s s' hs => ?_
  refine (ignores_addMember _ s s' hs).bind fun _ s s' hs => ?_
  refine (ignoresAt_isAt (fun _ => isBoundary_comma) hs).bind fun found s s' hs => ?_
  cases found with
  | true => exact ⟨s', rfl, hs⟩
  | false => exact ⟨s', rfl, hs⟩

theorem isBoundary_of_identificationKind {t : Token} {kind : Identification.Kind}
    (h : identificationKind? t = some kind) : isBoundary t = false := by
  have htext : kind.keyword = t.text := by simpa using List.find?_some h
  cases kind <;>
    simp [isBoundary, isSemicolon, isOpening, isClosing, Token.is, ← htext,
      Identification.Kind.keyword]

theorem ignores_identification (comment : Option Comment) (modifiers : List Token) :
    Ignores x .clear .any (identification id comment modifiers) := by
  refine (ignores_expectKeyword _).bind fun keyword => ?_
  extract_lets inFront
  refine ignores_get fun s s' hs => ?_
  rw [hs.current]
  extract_lets behind complete
  have hcomplete : Ignores x .clear .any (complete ⟨⟩) :=
    ignores_expectSemicolon.bind fun _ =>
      ignores_consult (fun _ _ _ => rfl) fun s => ignores_addMember _
  split
  · rename_i hbehind
    obtain ⟨kind, hkind⟩ := Option.isSome_iff_exists.1 hbehind
    obtain ⟨t, hc, hword⟩ := Option.bind_eq_some_iff.1 hkind
    exact (ignores_advance.bind fun _ => hcomplete) s s'
      (hs.inner_of_current hc (isBoundary_of_identificationKind hword))
  · exact hcomplete s s' hs

theorem ignores_upcopy (comment : Option Comment) :
    Ignores x .clear .any (upcopy id comment) := by
  refine (ignores_expectKeyword _).bind fun keyword => (ignores_expectKeyword _).bind fun _ => ?_
  refine (ignores_typeName _).bind fun name => ignores_consult (fun _ _ _ => rfl) fun s => ?_
  split
  · exact ignores_unknownType name "upcopy"
  · rename_i base _
    have hcomplete : Ignores x .clear .any (do
        expectSemicolon
        addMember id (.upcopy { base, location := s.locationOf keyword, comment, owner := id })) :=
      ignores_expectSemicolon.bind fun _ => ignores_addMember _
    split
    · exact (ignores_failAt _ _ _ : Ignores x .clear .clear _).bind fun _ => hcomplete
    · exact hcomplete
  · exact ignores_failAt _ _ _

theorem ignores_operator (comment : Option Comment) (modifiers : List Token) :
    Ignores x .clear .any (operator id comment modifiers) := by
  refine (ignores_expectKeyword _).bind fun keyword => ignores_get fun s s' hs => ?_
  rw [hs.current]
  split
  · exact ignores_failHere _ _ s s' hs
  · rename_i action haction
    obtain ⟨t, hc, hsymbol⟩ := Option.bind_eq_some_iff.1 haction
    have hrelation : t.kind = .relation := by
      simp only [operatorAction?] at hsymbol
      split at hsymbol
      · exact beq_iff_eq.1 ‹_›
      · cases hsymbol
    refine Ignores.bind ignores_advance (fun _ => ignores_expectSemicolon.bind fun _ => ?_) s s'
      (hs.inner_of_current hc (isBoundary_of_kind (by simp [hrelation]) (by simp [hrelation])))
    exact ignores_consult (fun _ _ _ => rfl) fun s => ignores_addMember _

theorem ignores_overriddenField (keyword : Token) (name : String) :
    Ignores x .clear .clear (overriddenField id keyword name) := by
  refine ignores_consult (fun _ _ _ => rfl) fun s => ?_
  split
  · exact ignores_baseField _ _ _
  · exact ignores_failAt _ _ _

theorem ignores_field (comment : Option Comment) (modifiers : List Token) (weak : Bool) :
    Ignores x .clear .any (field id comment modifiers weak) := by
  refine ignores_get fun s s' hs => ?_
  -- a field starts with its type, so the location is that of a token if it is read at all
  cases hcurrent : s.current with
  | none =>
    have htype := ignores_typeUse "field" (some id) weak s s' hs
    obtain ⟨e, t, hfail⟩ := typeUse_at_end hcurrent "field" (some id) weak
    obtain ⟨e', t', hfail', ht⟩ := After.of_error htype hfail
    unfold IgnoresAt After
    rw [run_bind_of_error hfail]
    exact ⟨e', t', run_bind_of_error hfail' _, ht⟩
  | some t =>
    rw [hs.here hcurrent]
    extract_lets location
    refine Ignores.bind (ignores_typeUse _ _ _) (fun use => ?_) s s' hs
    refine (ignores_expectName _).bind fun name => ?_
    extract_lets complete
    have hcomplete (default : Option Default) : Ignores x .clear .any (complete default) := by
      have hoverridden : Ignores x .clear .clear
          ((taken? modifiers ["override"]).mapM fun keyword =>
            overriddenField id keyword name.value) := by
        cases taken? modifiers ["override"] with
        | none => exact ignores_pure _
        | some keyword => exact (ignores_overriddenField keyword _).bind fun _ => ignores_pure _
      refine hoverridden.bind fun overridden => ignores_expectSemicolon.bind fun _ => ?_
      refine ignores_consult (fun _ _ _ => rfl) fun s => ?_
      exact (ignores_addMember _).bind fun _ => ignores_await _ _ _ _
    refine ignores_isAt (fun _ => isBoundary_of_is nofun nofun) ?_ ?_
    · refine ignores_advance.bind fun _ => (ignores_defaultValue _).bind fun default => ?_
      exact (ignores_checkDefault _ _ _).bind fun _ =>
        (ignores_pure (some default)).bind hcomplete
    · exact (ignores_pure none).bind hcomplete

theorem ignores_structureHeader (comment : Option Comment) (modifiers : List Token) :
    Ignores x .clear .clear (structureHeader comment modifiers) := by
  refine (ignores_expectKeyword _).bind fun keyword => (ignores_expectName _).bind fun name => ?_
  refine ignores_consult (fun _ _ _ => rfl) fun s => ?_
  refine (ignores_modifyDocument _).bind fun _ => ?_
  refine ignores_isAt (fun _ => isBoundary_of_is nofun nofun) ?_ ?_
  · refine ignores_advance.bind fun _ => ignores_structureBase.bind fun base => ?_
    refine (ignores_modifyDocument _).bind fun _ => ?_
    refine ignores_isAt (fun _ => isBoundary_of_is nofun nofun) ?_ ?_
    · exact (ignores_alters base).bind fun _ => ignores_pure _
    · exact ignores_pure _
  · exact ignores_pure _

end Structures

section Interfaces

/-- A parameter starts at its arrow. -/
theorem ignores_parameter (id : InterfaceId) (position : Nat) (comment : Option Comment)
    (arrow : Token) : Ignores x .inner .any (parameter id position comment arrow) := by
  refine ignores_advance.bind fun _ => (ignores_typeUse _ _ _).bind fun use => ?_
  refine (ignores_expectName _).bind fun name => ignores_expectSemicolon.bind fun _ => ?_
  refine ignores_consult (fun _ _ _ => rfl) fun s => ?_
  exact (ignores_modifyDocument _).bind fun _ => ignores_await _ _ _ _

theorem ignores_methodHeader (id : InterfaceId) (comment : Option Comment) :
    Ignores x .clear .any (methodHeader id comment) := by
  refine (ignores_expectKeyword _).bind fun keyword => (ignores_expectName _).bind fun name => ?_
  refine (ignores_openBody _).bind fun _ => ignores_consult (fun _ _ _ => rfl) fun s => ?_
  exact (ignores_modifyDocument _).bind fun _ => ignores_pure _

theorem ignores_interfaceHeader (comment : Option Comment) :
    Ignores x .clear .clear (interfaceHeader comment) := by
  refine (ignores_expectKeyword _).bind fun keyword => (ignores_expectName _).bind fun name => ?_
  refine ignores_consult (fun _ _ _ => rfl) fun s => ?_
  exact (ignores_modifyDocument _).bind fun _ => ignores_pure _

end Interfaces

section Factories

theorem ignores_factoryKind (keyword : Token) (modifiers : List Token) :
    Ignores x .clear .clear (factoryKind keyword modifiers) := by
  unfold factoryKind
  split
  · exact ignores_pure _
  · exact ignores_failAt _ _ _

theorem ignores_factoryFunction (kind : Factory.Kind) (modifiers : List Token) :
    Ignores x .clear .clear (factoryFunction kind modifiers) := by
  unfold factoryFunction
  split
  · split
    · exact ignores_pure _
    · exact ignores_failAt _ _ _
  · exact ignores_pure _

theorem ignores_filter (id : FactoryId) (comment : Option Comment) (keyword : Token) :
    Ignores x .clear .any (filter id comment keyword) := by
  refine (ignores_expectKeyword _).bind fun _ => ignores_consult (fun _ _ _ => rfl) fun s => ?_
  extract_lets factory known
  have hknown : Ignores x .clear .any (known ⟨⟩) := by
    simp only [known]
    split
    · exact ignores_failAt _ _ _
    · refine (ignores_expectName _).bind fun name => ?_
      split
      · exact ignores_fail _
      · refine (ignores_expectKeyword _).bind fun _ => (ignores_expectName _).bind fun method => ?_
        exact ignores_expectSemicolon.bind fun _ => ignores_modifyDocument _
  split
  · exact (ignores_failAt _ _ _ : Ignores x .clear .clear _).bind fun _ => hknown
  · exact hknown

theorem ignores_factoryHeader (comment : Option Comment) (modifiers : List Token) :
    Ignores x .clear .clear (factoryHeader comment modifiers) := by
  refine (ignores_expectKeyword _).bind fun keyword =>
    (ignores_factoryKind _ _).bind fun kind => ?_
  refine (ignores_factoryFunction _ _).bind fun function => ?_
  refine (ignores_typeParameter _ _).bind fun parameter? => ?_
  split
  · exact ignores_failHere _ _
  · refine (ignores_expectName _).bind fun name => ignores_consult (fun _ _ _ => rfl) fun s => ?_
    exact ignores_insert _ _ _ _ _ _

end Factories

section Packages

theorem isBoundary_of_packageElement {t : Token} (h : isPackageElement t = true) :
    isBoundary t = false := by
  refine isBoundary_of_kind (fun hkind => ?_) fun hkind => ?_ <;>
    simp [isPackageElement, hkind] at h

theorem ignores_packagePath : Ignores x .clear .clear packagePath := by
  refine ignores_iterate_clear (fun elements => ?_) (progresses_of_isRound isRound_packageRound) _
  have helement (position : Nat) : Ignores x .clear .clear (packageElement position) := by
    refine (ignores_expect (fun _ => isBoundary_of_packageElement) _ _).bind fun t =>
      ignores_consult (fun _ _ _ => rfl) fun s => ?_
    split
    · split
      · exact ignores_pure _
      · exact ignores_failAt _ _ _
    · exact ignores_pure _
  refine (helement _).bind fun e => ignores_isAt (fun _ => isBoundary_of_is nofun nofun) ?_ ?_
  · exact ignores_advance.bind fun _ => ignores_pure _
  · exact ignores_pure _

theorem ignores_package : Ignores x .clear .any package := by
  refine (ignores_expectKeyword _).bind fun keyword => ignores_packagePath.bind fun short => ?_
  extract_lets complete
  have hcomplete (full : List PackageElement) : Ignores x .clear .any (complete full) := by
    refine ignores_expectSemicolon.bind fun _ => ignores_modify fun s s' hs => ?_
    obtain ⟨hm, hc⟩ := hs
    simp only
    split
    · exact .intro hm hc
    · exact .intro hm hc
  refine ignores_isAt (fun _ => isBoundary_of_is nofun nofun) ?_ ?_
  · exact ignores_advance.bind fun _ => ignores_packagePath.bind hcomplete
  · exact (ignores_pure short).bind hcomplete

theorem ignores_importStatement (comment : Option Comment) :
    Ignores x .clear .any (importStatement comment) := by
  refine (ignores_expectKeyword _).bind fun keyword =>
    (ignores_expect (fun t ht => ?_) _ _).bind fun source => ?_
  · have hkind : t.kind = .string := beq_iff_eq.1 ht
    exact isBoundary_of_kind (by simp [hkind]) (by simp [hkind])
  · exact ignores_expectSemicolon.bind fun _ =>
      ignores_consult (fun _ _ _ => rfl) fun s => ignores_pure _

end Packages

end Idl.Grammar
