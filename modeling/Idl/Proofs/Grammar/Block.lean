import Idl.Proofs.Grammar.Bracket
import Idl.Proofs.Grammar.Round
import Idl.Proofs.Reading.Block

/-!
Headers of declarations. The header of every form is read without a bracket and without a
semicolon. Four forms have a body whose items are skipped one by one where they are broken; a
specimen and an identifier have none, and fail at whatever stands in their block.
-/

namespace Idl.Grammar

variable {checks : List Check} {least : Nat} {ending : Bool}

section Headers

variable {α β : Type} {s : State}

theorem takes_inappropriate (t : Token) (classifier options : String) :
    Takes least ending (inappropriate t classifier options : Parser α) :=
  takes_failAt _ _ _

theorem takes_declaredType (classifier : String) : Takes 0 false (declaredType classifier) := by
  refine (takes_typeName _).some.bind_left fun name => takes_get fun s => ?_
  split
  · exact (still_pure _).takes
  · exact takes_unknownType _ _

/-- What holds wherever a parser ends, and of each way on from there. -/
theorem After.bind_of_forall {p : Parser α} {f : α → Parser β} {done : β → State → Prop}
    (h : ∀ a s', After (f a) s' done fun _ => True) : After (p >>= f) s done fun _ => True := by
  apply After.bind
  unfold After
  split
  · exact h _ _
  · trivial

theorem after_ifAt {kind : Token.Kind} {text : String} {then_ else_ : Parser α}
    {done : α → State → Prop} {failed : State → Prop}
    (ht : ∀ t, s.current = some t → t.is kind text = true → After then_ s done failed)
    (he : After else_ s done failed) :
    After (isAt kind text >>= fun found => if found = true then then_ else else_) s done
      failed := by
  apply After.bind
  apply After.bind
  apply after_get
  apply after_pure
  split
  · rename_i hfound
    obtain ⟨t, hc, hat⟩ := (Option.any_eq_true _ _).1 hfound
    exact ht t hc hat
  · exact he

/-- Behind an altered field another one follows only if there is a comma. -/
theorem after_alterRound (id base : StructureId) :
    After (alterRound id base) s
      (fun r s' => r = .again () → ∃ t, s'.current = some t ∧ isPlain false t = true)
      fun _ => True := by
  refine After.bind_of_forall fun _ _ => ?_
  refine After.bind_of_forall fun name _ => ?_
  refine After.bind_of_forall fun field _ => ?_
  refine After.bind_of_forall fun _ _ => ?_
  refine After.bind_of_forall fun default _ => ?_
  refine After.bind_of_forall fun s' _ => ?_
  refine After.bind_of_forall fun _ _ => ?_
  refine After.bind_of_forall fun _ s' => ?_
  refine after_ifAt (fun t hc hat => ?_) (after_pure nofun)
  have hcomma : isPlain false t = true := by
    simp only [Token.is, Bool.and_eq_true, beq_iff_eq] at hat
    simp [isPlain, isBracket, isOpening, isClosing, isSemicolon, Token.is, hat.1, hat.2]
  exact after_pure fun _ => ⟨t, hc, hcomma⟩

theorem takesAt_alterRound (id base : StructureId) {t : Token} (hc : s.current = some t)
    (ht : isPlain false t = true) : TakesAt 0 false (alterRound id base) s := by
  have hround : TakesAt (0 + 1) false (alterRound id base) s := by
    refine takesAt_advance_bind hc ht ?_
    refine (takes_expectName _).some.bind_left fun name => ?_
    refine (takes_baseField _ _ _).bind_left fun field => ?_
    refine (takes_expectToken (by simp) _).some.bind_left fun _ => ?_
    refine (takes_defaultValue _).some.bind_left fun default => takes_get fun s => ?_
    refine (takes_checkDefault _ _ _).bind_left fun _ => ?_
    refine (still_addMember _).takes.bind_left fun _ => ?_
    refine ((still_get.bind fun _ => still_pure _).bind fun comma => ?_).takes
    split
    · exact still_pure _
    · exact still_pure _
  exact hround.mono (Nat.zero_le _)

/-- Each round starts at the word `alter` or at a comma. -/
theorem takesAt_alters (id base : StructureId) {t : Token} (hc : s.current = some t)
    (ht : isPlain false t = true) : TakesAt 0 false (alters id base) s := by
  rw [alters_eq]
  refine after_iterate
    (I := fun _ s' => s.Takes 0 false s' ∧ ∃ t, s'.current = some t ∧ isPlain false t = true)
    (fun _ s' ⟨hs', t, hc, ht⟩ => ?_) ⟨State.takes_of_cursor rfl, t, hc, ht⟩
  refine After.mono ((takesAt_alterRound id base hc ht).and (after_alterRound id base))
    (fun r s'' ⟨htakes, hcomma⟩ => ?_) fun _ ⟨htakes, _⟩ => hs'.trans htakes
  cases r with
  | again a' => exact ⟨⟨hs'.trans htakes, hcomma rfl⟩, .inr (hs'.trans htakes)⟩
  | done b => exact hs'.trans htakes

theorem takes_structureBase : Takes 0 false structureBase := by
  refine (takes_declaredType _).bind_left fun (name, t) => ?_
  cases t with
  | struct base => exact (still_pure _).takes
  | _ => exact takes_inappropriate _ _ _

theorem takes_structureHeader (comment : Option Comment) (modifiers : List Token) :
    Takes 0 false (structureHeader comment modifiers) := by
  unfold structureHeader
  refine (takes_expectKeyword _).some.bind_left fun keyword => ?_
  refine (takes_expectName _).some.bind_left fun name => takes_get fun s => ?_
  extract_lets id header finish
  have hfinish : Takes 0 false (finish ⟨⟩) := (still_pure _).takes
  refine (still_modifyDocument _).takes.bind_left fun _ => ?_
  refine takes_ifAt (by simp) ?_ hfinish
  refine takes_structureBase.bind_left fun base => ?_
  refine (still_modifyDocument _).takes.bind_left fun _ s' => ?_
  refine after_ifAt (fun t hc hat => ?_) (hfinish s')
  apply After.bind
  refine After.mono (takesAt_alters id base hc (isPlain_of_is (by simp) hat)) (fun _ s'' h => ?_)
    fun _ h => h
  exact After.mono (hfinish s'') (fun _ _ h' => h.trans h') fun _ h' => h.trans h'

theorem takes_specimenBase : Takes 0 false specimenBase := by
  refine (takes_declaredType _).bind_left fun (name, t) => ?_
  cases t with
  | specimen base => exact (still_pure _).takes
  | _ => exact takes_inappropriate _ _ _

theorem takes_interfaceHeader (comment : Option Comment) :
    Takes 0 false (interfaceHeader comment) := by
  refine (takes_expectKeyword _).some.bind_left fun keyword => ?_
  refine (takes_expectName _).some.bind_left fun name => takes_get fun s => ?_
  extract_lets id header
  exact ((still_modifyDocument _).bind fun _ => still_pure _).takes

theorem takes_factoryHeader (comment : Option Comment) (modifiers : List Token) :
    Takes 0 false (factoryHeader comment modifiers) := by
  unfold factoryHeader
  refine (takes_expectKeyword _).some.bind_left fun keyword => ?_
  refine Takes.bind_left ?_ fun kind => ?_
  · unfold factoryKind
    split
    · exact (still_pure _).takes
    · exact takes_inappropriate _ _ _
  refine Takes.bind_left ?_ fun function => ?_
  · unfold factoryFunction
    split
    · split
      · exact (still_pure _).takes
      · exact takes_failAt _ _ _
    · exact (still_pure _).takes
  refine (takes_typeParameter _ _).bind_left fun parameter? => ?_
  split
  · exact takes_failHere _ _
  · refine (takes_expectName _).some.bind_left fun name => takes_get fun s => ?_
    extract_lets id header
    refine ((still_modifyDocument _).bind fun _ => ?_).takes
    exact (still_await _ _ _ _).bind fun _ => still_pure _

end Headers

section Forms

variable (comment : Option Comment) (taken : List Token)

theorem shuns_structureDeclaration : Shuns false (structureDeclaration checks comment taken) := by
  refine (takes_structureHeader _ _).bind_shuns fun id => ?_
  refine (shuns_body (itemStays_structure checks id)).bind_still fun _ => ?_
  have hsettle : Still (modify fun s : State =>
      s.settle fun session pending => session.settleScope checks id pending : Parser Unit) :=
    still_modify fun _ => rfl
  exact hsettle.bind fun _ => still_pure _

theorem shuns_enumeration (owner : Option StructureId) :
    Shuns false (enumeration comment taken owner) := by
  refine (takes_enumerationHeader _ _ _).bind_shuns fun id => ?_
  refine (shuns_body (itemStays_enumeration id)).bind_still fun _ => ?_
  exact (still_modifyDocument _).bind fun _ => still_pure _

theorem shuns_interface : Shuns false (interface comment) :=
  (takes_interfaceHeader _).bind_shuns fun id =>
    (shuns_body (itemStays_interface id)).bind_still fun _ => still_pure _

theorem shuns_factory : Shuns false (factory comment taken) :=
  (takes_factoryHeader _ _).bind_shuns fun id =>
    (shuns_body (itemStays_factory id)).bind_still fun _ => still_pure _

theorem shuns_identifier : Shuns true (identifier comment taken) := by
  unfold identifier
  refine (takes_expectKeyword _).bind_shuns fun keyword => ?_
  refine (takes_typeParameter _ _).bind_shuns fun parameter? => ?_
  extract_lets parameter
  refine (takes_expectName _).bind_shuns fun name => ?_
  refine (shuns_emptyBody _).bind_still fun _ => still_get.bind fun s => ?_
  extract_lets id identifier
  refine (still_modifyDocument _).bind fun _ => ?_
  exact (still_await _ _ _ _).bind fun _ => still_pure _

theorem shuns_specimen : Shuns true (specimen comment taken) := by
  unfold specimen
  refine (takes_expectKeyword _).bind_shuns fun keyword => ?_
  refine (takes_typeParameter _ _).bind_shuns fun parameter? => ?_
  refine (takes_expectName _).bind_shuns fun name => ?_
  have hcomplete (base : Option SpecimenId) : Shuns true (do
      emptyBody "specimen"
      let s ← get
      let parameter := parameter?.getD (.known (inheritedParameter s.document base))
      let id := s.document.specimens.next
      let specimen : Specimen :=
        { name
          location := s.locationOf keyword
          comment
          package := s.package
          parameter := parameter.type?
          base
          cast := castOf taken }
      modifyDocument (·.insertSpecimen specimen)
      await parameter.name? "specimen parameter" none (.specimenParameter id)
      return id) := by
    refine (shuns_emptyBody _).bind_still fun _ => still_get.bind fun s => ?_
    extract_lets parameter id specimen
    refine (still_modifyDocument _).bind fun _ => ?_
    exact (still_await _ _ _ _).bind fun _ => still_pure _
  refine shuns_ifAt (by simp) ?_ ?_
  · exact (takes_specimenBase.bind_still fun _ => still_pure _).bind_shuns hcomplete
  · exact (still_pure none).takes.bind_shuns hcomplete

end Forms

end Idl.Grammar
