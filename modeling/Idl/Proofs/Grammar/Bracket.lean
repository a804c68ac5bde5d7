import Idl.Grammar.Declaration
import Idl.Proofs.Reading.Recovery

/-!
What the items of bodies take. Up to its semicolon an item is read without a bracket, but for an
enumeration in a structure and for a method, which have bodies of their own; nothing can fail
behind the semicolon. So the items of every body stay in it, and spare the semicolon at the end.
-/

namespace Idl.Grammar

variable {checks : List Check} {ending : Bool}

section Types

theorem takes_typeName (classifier : String) : Takes 1 false (typeName classifier) := by
  refine takes_iterate (fun (path, first?) => ?_) _
  refine (takes_expectIdentifier _ _).bind_left fun t => ?_
  extract_lets first
  refine takes_ifAt (by simp) ?_ ?_
  · exact (still_pure _).takes
  · exact (still_pure _).takes

theorem takes_templates (classifier : String) : Takes 1 false (templates classifier) := by
  refine takes_iterate (fun outer => ?_) _
  refine (takes_typeName classifier).bind_left fun name => ?_
  split
  · exact (takes_expectToken (by simp) _).some.bind_left fun _ => (still_pure _).takes
  · exact (still_pure _).takes

theorem still_instantiate (template : Template) (argument : Option DataType) (weak : Bool) :
    Still (instantiate template argument weak) :=
  still_modifyGet fun _ => rfl

theorem takes_closeTemplates (classifier : String) (scope : Option StructureId) (weak : Bool)
    (outer : List Template) (use : TypeUse) :
    Takes 0 false (closeTemplates classifier scope weak outer use) := by
  induction outer generalizing use with
  | nil => exact (still_pure _).takes
  | cons template outer ih =>
    refine (takes_expectToken (by simp) _).some.bind_left fun _ => ?_
    refine (still_instantiate _ _ _).takes.bind_left fun id => ?_
    exact (still_await _ _ _ _).takes.bind_left fun _ => ih _

theorem takes_typeUse (classifier : String) (scope : Option StructureId) (weak : Bool) :
    Takes 1 false (typeUse classifier scope weak) :=
  (takes_templates classifier).bind_left fun _ => takes_get fun _ =>
    takes_closeTemplates _ _ _ _ _

theorem takes_typeParameter (classifier : String) (scope : Option StructureId) :
    Takes 0 false (typeParameter classifier scope) := by
  refine takes_ifAt (by simp) ?_ (still_pure _).takes
  refine (takes_typeUse _ _ _).some.bind_left fun t => ?_
  exact (takes_expectToken (by simp) _).some.bind_left fun _ => (still_pure _).takes

theorem isPlain_of_isLiteral {t : Token} (h : isLiteral t = true) : isPlain false t = true := by
  simp only [isLiteral, Bool.or_eq_true, beq_iff_eq] at h
  refine isPlain_of_kind ?_ ?_ <;> rcases h with ((h | h) | h) | h <;> rw [h] <;> exact nofun

theorem takes_defaultValue (statement : String) : Takes 1 false (defaultValue statement) := by
  refine (takes_expect (fun _ => isPlain_of_isLiteral) _ _).bind_left fun t => takes_get fun s => ?_
  split
  · exact (still_pure _).takes
  · exact (still_pure _).takes

theorem takes_checkDefault (t : Option DataType) (default : Default) (statement : String) :
    Takes 0 false (checkDefault t default statement) := by
  have hask : Still (modify (·.ask t [default])) := still_modify fun _ => rfl
  refine hask.takes.bind_left fun _ => takes_get fun s => ?_
  extract_lets d
  split
  · exact takes_fail _
  · exact (still_pure _).takes

theorem takes_unknownType {α : Type} (name : TypeName) (classifier : String) :
    Takes 0 ending (unknownType name classifier : Parser α) :=
  takes_failAt _ _ _

end Types

section Modifiers

theorem takes_modifiers (words : List String) : Takes 0 false (modifiers words) := by
  refine takes_iterate (fun taken s => ?_) _
  apply After.bind
  apply after_get
  split
  · rename_i t ht
    split
    · rename_i hword
      have hk := beq_iff_eq.1 (Bool.and_eq_true_iff.1 hword).1
      exact (takesAt_advance_bind ht
        (isPlain_of_kind (by rw [hk]; exact nofun) (by rw [hk]; exact nofun))
        (still_pure _).takes).mono (Nat.zero_le _)
    · exact State.takes_of_cursor rfl
  · exact State.takes_of_cursor rfl

theorem cursor_foldl_report (modifiers : List Token) (message : State → Token → Message)
    (s : State) : (modifiers.foldl (fun s t => s.report (message s t)) s).cursor = s.cursor := by
  induction modifiers generalizing s with
  | nil => rfl
  | cons t modifiers ih => exact ih _

theorem still_reportModifiers (modifiers : List Token) : Still (reportModifiers modifiers) :=
  still_modify fun s => cursor_foldl_report modifiers _ s

end Modifiers

section Enumerations

theorem takes_valueParts (id : EnumerationId) : Takes 1 false (valueParts id) := by
  refine takes_iterate (fun parts => ?_) _
  refine (takes_expectName _).bind_left fun part => takes_get fun s => ?_
  split
  · exact takes_fail _
  · refine takes_ifAt (by simp) ?_ ?_
    · exact (still_pure _).takes
    · exact (still_pure _).takes

theorem takes_enumerationValue (id : EnumerationId) (comment : Option Comment) (first : Token) :
    Takes 1 true (enumerationValue id comment first) := by
  unfold enumerationValue
  extract_lets named
  have hnamed : Takes 1 true (named ()) := by
    refine (takes_expectName _).bind_left fun name => ?_
    have hcomplete (parts : Option (List Nat)) : Takes 0 true (do
        expectSemicolon
        let value : EnumerationValue :=
          { name, location := name.location, comment, enumeration := id, parts }
        modifyDocument (·.modifyEnumeration id (·.addValue value))) :=
      takes_expectSemicolon.some.bind_still fun _ => still_modifyDocument _
    refine takes_ifAt (by simp) ?_ ?_
    · exact ((takes_valueParts id).some.bind_still fun _ => still_pure _).bind_left hcomplete
    · exact (still_pure none).takes.bind_left hcomplete
  split
  · exact (takes_unexpected _ : Takes 1 false _).bind_left fun _ => hnamed.some
  · exact hnamed

theorem takes_enumerationHeader (comment : Option Comment) (modifiers : List Token)
    (owner : Option StructureId) :
    Takes 1 false (enumerationHeader comment modifiers owner) := by
  unfold enumerationHeader
  refine (takes_expectKeyword _).bind_left fun keyword => ?_
  refine (takes_typeParameter _ _).bind_left fun use? => ?_
  extract_lets parameter
  refine (takes_expectName _).some.bind_left fun name => ?_
  intro s
  apply After.bind
  apply After.bind
  apply after_get
  apply after_pure
  extract_lets write
  have hwrite : Still (write ⟨⟩) := by
    refine still_get.bind fun s => ?_
    extract_lets id header
    exact (still_modifyDocument _).bind fun _ => (still_await _ _ _ _).bind fun _ => still_pure _
  split
  · rename_i hflags
    obtain ⟨t, ht, hat⟩ := (Option.any_eq_true _ _).1 hflags
    exact (takesAt_advance_bind ht (isPlain_of_is (by simp) hat) hwrite.takes).mono (Nat.zero_le _)
  · exact hwrite.takes s

theorem itemStays_enumeration (id : EnumerationId) : ItemStays (enumerationItem id) :=
  fun _ _ _ _ _ hc hs hfirst hclosing =>
    stays_salvage ((takes_enumerationValue _ _ _).stays _) hc hs hfirst hclosing

theorem stays_enumeration (comment : Option Comment) (modifiers : List Token)
    (owner : Option StructureId) : Stays 1 (enumeration comment modifiers owner) := by
  refine (takes_enumerationHeader _ _ _).some.bind_stays fun id => ?_
  refine (stays_body (itemStays_enumeration id)).bind_left fun _ => ?_
  exact ((still_modifyDocument _).bind fun _ => still_pure _).stays

theorem spares_enumeration (comment : Option Comment) (modifiers : List Token)
    (owner : Option StructureId) : Spares (enumeration comment modifiers owner) := by
  refine (takes_enumerationHeader _ _ _).bind_spares fun id => ?_
  unfold body
  rw [bind_assoc]
  exact spares_openBody_bind

end Enumerations

section Structures

variable {id : StructureId}

theorem takes_baseField (base : StructureId) (name : String) (location : Location) :
    Takes 0 false (baseField base name location) := by
  refine takes_get fun s => ?_
  split
  · exact (still_pure _).takes
  · exact takes_fail _

theorem takes_overriddenField (keyword : Token) (name : String) :
    Takes 0 false (overriddenField id keyword name) := by
  refine takes_get fun s => ?_
  split
  · exact takes_baseField _ _ _
  · exact takes_failAt _ _ _

theorem still_addMember (member : Member) : Still (addMember id member) :=
  still_modifyDocument _

theorem takes_identification (comment : Option Comment) (modifiers : List Token) :
    Takes 1 true (identification id comment modifiers) := by
  unfold identification
  refine (takes_expectKeyword _).bind_left fun keyword => ?_
  extract_lets inFront
  intro s
  apply After.bind
  apply after_get
  extract_lets behind complete
  have hcomplete : Takes 0 true (complete ⟨⟩) :=
    takes_expectSemicolon.some.bind_still fun _ => still_get.bind fun _ => still_addMember _
  split
  · rename_i hbehind
    obtain ⟨kind, hkind⟩ := Option.isSome_iff_exists.1 hbehind
    obtain ⟨t, ht, hword⟩ := Option.bind_eq_some_iff.1 hkind
    -- The word is known by its text alone, which is that of no bracket and of no semicolon.
    have hplain : isPlain false t = true := by
      have htext : kind.keyword = t.text := by simpa using List.find?_some hword
      have hne : t.text ≠ "\x7b" ∧ t.text ≠ "\x7d" ∧ t.text ≠ ";" := by
        rw [← htext]
        cases kind <;> decide
      simp [isPlain, isBracket, isOpening, isClosing, isSemicolon, Token.is, hne]
    exact (takesAt_advance_bind ht hplain hcomplete).mono (Nat.zero_le _)
  · exact hcomplete s

theorem takes_upcopy (comment : Option Comment) : Takes 1 true (upcopy id comment) := by
  unfold upcopy
  refine (takes_expectKeyword _).bind_left fun keyword => ?_
  refine (takes_expectKeyword _).some.bind_left fun _ => ?_
  refine (takes_typeName _).some.bind_left fun name => takes_get fun s => ?_
  split
  · exact takes_unknownType _ _
  · have hcomplete (member : Member) : Takes 0 true (do expectSemicolon; addMember id member) :=
      takes_expectSemicolon.some.bind_still fun _ => still_addMember _
    extract_lets complete
    split
    · exact (takes_failAt _ _ _).bind_left fun _ => hcomplete _
    · exact hcomplete _
  · exact takes_failAt _ _ _

theorem takes_operator (comment : Option Comment) (modifiers : List Token) :
    Takes 1 true (operator id comment modifiers) := by
  unfold operator
  refine (takes_expectKeyword _).bind_left fun keyword s => ?_
  apply After.bind
  apply after_get
  split
  · exact takes_failHere _ _ s
  · rename_i action haction
    obtain ⟨t, ht, hsymbol⟩ := Option.bind_eq_some_iff.1 haction
    have hplain : isPlain false t = true := by
      unfold operatorAction? at hsymbol
      split at hsymbol
      · rename_i hk
        have hk := beq_iff_eq.1 hk
        exact isPlain_of_kind (by rw [hk]; exact nofun) (by rw [hk]; exact nofun)
      · cases hsymbol
    have hcomplete := takes_expectSemicolon.some.bind_still fun _ => still_get.bind fun s =>
      @still_addMember id (.operator
        { action
          form := (modifiers.findSome? fun t => Operator.Form.ofKeyword? t.text).getD .native
          location := s.locationOf keyword
          comment
          owner := id })
    exact (takesAt_advance_bind ht hplain hcomplete).mono (Nat.zero_le _)

theorem takes_field (comment : Option Comment) (modifiers : List Token) (weak : Bool) :
    Takes 1 true (field id comment modifiers weak) := by
  refine takes_get fun s => ?_
  extract_lets location
  refine (takes_typeUse _ _ _).bind_left fun use => ?_
  refine (takes_expectName _).some.bind_left fun name => ?_
  intro s
  apply After.bind
  apply After.bind
  apply after_get
  apply after_pure
  extract_lets complete
  have hcomplete (default : Option Default) : Takes 0 true (complete default) := by
    have hoverridden : Takes 0 false ((taken? modifiers ["override"]).mapM fun keyword =>
        overriddenField id keyword name.value) := by
      cases taken? modifiers ["override"] with
      | none => exact (still_pure _).takes
      | some keyword => exact (takes_overriddenField keyword _).bind_still fun _ => still_pure _
    refine hoverridden.bind_left fun overridden => ?_
    refine takes_expectSemicolon.some.bind_still fun _ => still_get.bind fun s => ?_
    exact (still_addMember _).bind fun _ => still_await _ _ _ _
  split
  · rename_i hsign
    obtain ⟨t, ht, hat⟩ := (Option.any_eq_true _ _).1 hsign
    have hdefault : Takes 0 true (do
        let default ← defaultValue "field"
        checkDefault use.type? default "field"
        complete (some default)) :=
      (takes_defaultValue _).some.bind_left fun _ =>
        (takes_checkDefault _ _ _).bind_left fun _ => hcomplete _
    exact (takesAt_advance_bind ht (isPlain_of_is (by simp) hat) hdefault).mono (Nat.zero_le _)
  · exact (still_pure none).takes.bind_left hcomplete s

theorem stays_member (comment : Option Comment) (first : Token) :
    Stays 1 (member id comment first) := by
  unfold member
  extract_lets dispatch
  have hdispatch : Stays 1 (dispatch ()) := by
    refine (takes_modifiers _).bind_stays fun taken => stays_get fun s => ?_
    extract_lets t form isReference complete
    have hcomplete (nested : Option EnumerationId) : Still (complete nested) :=
      (still_reportModifiers _).bind fun _ => still_pure _
    have plain {p : Parser Unit} (hp : Takes 1 true p) :
        Stays 1 (do p; let nested ← pure none; complete nested) :=
      hp.stays.bind_left fun _ => ((still_pure _).bind hcomplete).stays
    clear_value form
    cases form with
    | identification => exact plain (takes_identification comment taken)
    | upcopy => exact plain (takes_upcopy comment)
    | operator => exact plain (takes_operator comment taken)
    | field => exact plain (takes_field comment taken _)
    | enumeration =>
      refine Stays.bind_left ?_ fun nested => (hcomplete nested).stays
      exact (stays_enumeration comment taken _).bind_left fun _ => (still_pure _).stays
  split
  · exact (takes_unexpected _).bind_stays fun _ => hdispatch
  · exact hdispatch

theorem spares_member (comment : Option Comment) (first : Token) :
    Spares (member id comment first) := by
  unfold member
  extract_lets dispatch
  have hdispatch : Spares (dispatch ()) := by
    refine (takes_modifiers _).bind_spares fun taken => spares_get fun s => ?_
    extract_lets t form isReference complete
    have hcomplete (nested : Option EnumerationId) : Still (complete nested) :=
      (still_reportModifiers _).bind fun _ => still_pure _
    have plain {p : Parser Unit} (hp : Takes 1 true p) :
        Spares (do p; let nested ← pure none; complete nested) :=
      hp.spares.bind_still fun _ => (still_pure _).bind hcomplete
    clear_value form
    cases form with
    | identification => exact plain (takes_identification comment taken)
    | upcopy => exact plain (takes_upcopy comment)
    | operator => exact plain (takes_operator comment taken)
    | field => exact plain (takes_field comment taken _)
    | enumeration =>
      refine Spares.bind_still ?_ hcomplete
      exact (spares_enumeration comment taken _).bind_still fun _ => still_pure _
  split
  · exact (takes_unexpected _ : Takes 0 false _).bind_spares fun _ => hdispatch
  · exact hdispatch

theorem itemStays_structure (checks : List Check) (id : StructureId) :
    ItemStays (structureItem checks id) := by
  refine fun comment first s c R hc hs hfirst hclosing =>
    stays_construct (stays_member comment first s) (fun nested s' => ?_) hc hs hfirst hclosing
  cases nested with
  | none => rfl
  | some e =>
    simp only [acceptNested]
    split
    · rfl
    · rfl

end Structures

section Interfaces

theorem takes_unknownStatement {α : Type} {least : Nat} (t : Token) (context options : String) :
    Takes least ending (unknownStatement t context options : Parser α) :=
  takes_failAt _ _ _

/-- A parameter starts with an arrow. -/
theorem takesAt_parameter (id : InterfaceId) (position : Nat) (comment : Option Comment)
    {arrow : Token} {s : State} (hs : s.current = some arrow) (hk : arrow.kind = .arrow) :
    TakesAt 1 true (parameter id position comment arrow) s := by
  unfold parameter
  refine (takesAt_advance_bind hs
    (isPlain_of_kind (by rw [hk]; exact nofun) (by rw [hk]; exact nofun)) ?_)
  refine (takes_typeUse _ _ _).some.bind_left fun use => ?_
  refine (takes_expectName _).some.bind_left fun name => ?_
  refine takes_expectSemicolon.some.bind_still fun _ => still_get.bind fun s => ?_
  exact (still_modifyDocument _).bind fun _ => still_await _ _ _ _

theorem takesAt_methodRead (id : InterfaceId) (position : Nat) (comment : Option Comment)
    {first : Token} {s : State} (hs : s.current = some first) :
    TakesAt 1 true (if first.kind == .arrow then parameter id position comment first
      else unknownStatement first "method" "-->, <-- or <->") s := by
  split
  · rename_i hk
    exact takesAt_parameter id position comment hs (beq_iff_eq.1 hk)
  · exact takes_unknownStatement _ _ _ s

theorem itemStays_method (id : InterfaceId) (position : Nat) :
    ItemStays (methodItem id position) :=
  fun comment _ _ _ _ hc hs hfirst hclosing =>
    stays_salvage (takesAt_methodRead id position comment hfirst).staysAt hc hs hfirst hclosing

theorem stays_method (id : InterfaceId) (comment : Option Comment) :
    Stays 1 (method id comment) := by
  unfold method methodHeader
  simp only [bind_assoc, pure_bind]
  refine (takes_expectKeyword _).some.bind_stays fun keyword => ?_
  refine (takes_expectName _).some.bind_stays fun name => ?_
  refine stays_openBody_bind fun _ => still_get.leaves_bind fun s => ?_
  exact (still_modifyDocument _).leaves_bind fun _ => leaves_items (itemStays_method id _)

theorem spares_method (id : InterfaceId) (comment : Option Comment) :
    Spares (method id comment) := by
  unfold method methodHeader
  simp only [bind_assoc, pure_bind]
  refine (takes_expectKeyword _).bind_spares fun keyword => ?_
  exact (takes_expectName _).bind_spares fun name => spares_openBody_bind

theorem itemStays_interface (id : InterfaceId) : ItemStays (interfaceItem id) := by
  refine fun comment first s c R hc hs hfirst hclosing => stays_salvage ?_ hc hs hfirst hclosing
  split
  · exact stays_method id comment s
  · exact (takes_unknownStatement _ _ _ : Takes 1 false _).stays s

end Interfaces

section Factories

theorem takes_filter (id : FactoryId) (comment : Option Comment) (keyword : Token) :
    Takes 1 true (filter id comment keyword) := by
  unfold filter
  refine (takes_expectKeyword _).bind_left fun _ => takes_get fun s => ?_
  extract_lets factory known
  have hknown : Takes 0 true (known ⟨⟩) := by
    simp only [known]
    split
    · exact takes_failAt _ _ _
    · refine (takes_expectName _).some.bind_left fun name => takes_get fun s => ?_
      split
      · exact takes_fail _
      · refine (takes_expectKeyword _).some.bind_left fun _ => ?_
        refine (takes_expectName _).some.bind_left fun method => ?_
        refine takes_expectSemicolon.some.bind_still fun _ => still_get.bind fun s => ?_
        exact still_modifyDocument _
  split
  · exact (takes_failAt _ _ _).bind_left fun _ => hknown
  · exact hknown

theorem takes_factoryRead (id : FactoryId) (comment : Option Comment) (first : Token) :
    Takes 1 true (if first.isKeyword "filter" then filter id comment first
      else unknownStatement first "factory" "filter") := by
  split
  · exact takes_filter id comment first
  · exact takes_unknownStatement _ _ _

theorem itemStays_factory (id : FactoryId) : ItemStays (factoryItem id) :=
  fun comment first s _ _ hc hs hfirst hclosing =>
    stays_salvage ((takes_factoryRead id comment first).stays s) hc hs hfirst hclosing

end Factories

end Idl.Grammar
