import Idl.Proofs.Grammar.Bracket
import Idl.Proofs.Grammar.Report
import Idl.Proofs.Reading.Repetition

/-!
Progress of the items of bodies, whatever state they are read in. An item that is read has taken a
token, and so has one with a body of its own when it comes to that body.
-/

namespace Idl.Grammar

theorem itemReadsOn_enumeration (id : EnumerationId) : ItemReadsOn (enumerationItem id) :=
  itemReadsOn_salvage (fun comment first s _ => (takes_enumerationValue id comment first).readsOn s)
    fun comment first => (brief_enumerationValue id comment first).speaks fun _ _ => trivial

theorem readsOn_enumeration (comment : Option Comment) (modifiers : List Token)
    (owner : Option StructureId) : ReadsOn (enumeration comment modifiers owner) := by
  refine (takes_enumerationHeader _ _ _).readsOn.bind fun id => ?_
  have hbody : Speaks (fun _ => True) (body "enumeration" (enumerationItem id)) :=
    speaks_body (fun _ _ => trivial) (tells_enumerationItem (fun _ _ => trivial) id)
  exact hbody.forward.bind fun _ =>
    (forward_modifyDocument _).bind fun _ => (quiet_pure id).forward

theorem itemReadsOn_method (id : InterfaceId) (position : Nat) :
    ItemReadsOn (methodItem id position) := by
  refine itemReadsOn_salvage (fun comment first s ht => ?_) fun comment first => ?_
  · exact After.mono (takesAt_methodRead id position comment ht)
      (fun _ _ h => h.remaining_le) fun _ _ => trivial
  · split
    · exact (brief_parameter id position comment first).speaks fun _ _ => trivial
    · exact (brief_unknownStatement _ _ _).speaks fun _ _ => trivial

theorem readsOn_methodHeader (id : InterfaceId) (comment : Option Comment) :
    ReadsOn (methodHeader id comment) :=
  (takes_expectKeyword _).readsOn.bind fun _ => (brief_expectName _).forward.bind fun _ =>
    (brief_openBody _).forward.bind fun _ => quiet_get.forward.bind fun _ =>
      (forward_modifyDocument _).bind fun _ => (quiet_pure _).forward

theorem speaks_method (id : InterfaceId) (comment : Option Comment) :
    Speaks (fun _ => True) (method id comment) :=
  (brief_methodHeader id comment).speaks_bind (fun _ _ => trivial) fun position =>
    speaks_items (fun _ _ => trivial) (tells_methodItem (fun _ _ => trivial) id position)

theorem readsOn_method (id : InterfaceId) (comment : Option Comment) :
    ReadsOn (method id comment) :=
  (readsOn_methodHeader id comment).bind fun position =>
    (speaks_items (fun _ _ => trivial)
      (tells_methodItem (fun _ _ => trivial) id position)).forward

theorem itemReadsOn_interface (id : InterfaceId) : ItemReadsOn (interfaceItem id) := by
  refine itemReadsOn_salvage (fun comment first s _ => ?_) fun comment first => ?_
  · split
    · exact readsOn_method id comment s
    · exact (takes_unknownStatement _ _ _ : Takes 1 false _).readsOn s
  · split
    · exact speaks_method id comment
    · exact (brief_unknownStatement _ _ _).speaks fun _ _ => trivial

theorem itemReadsOn_factory (id : FactoryId) : ItemReadsOn (factoryItem id) := by
  refine itemReadsOn_salvage (fun comment first s _ => ?_) fun comment first => ?_
  · exact (takes_factoryRead id comment first).readsOn s
  · split
    · exact (brief_filter id comment first).speaks fun _ _ => trivial
    · exact (brief_unknownStatement _ _ _).speaks fun _ _ => trivial

theorem readsOn_member (id : StructureId) (comment : Option Comment) (first : Token) :
    ReadsOn (member id comment first) := by
  unfold member
  extract_lets dispatch
  have hdispatch : ReadsOn (dispatch ()) := by
    refine (brief_modifiers _).forward.bind_readsOn fun taken => readsOn_get fun s => ?_
    extract_lets t form isReference complete
    have hcomplete (nested : Option EnumerationId) : Forward (complete nested) :=
      (speaks_reportModifiers (P := fun _ => True) (fun _ _ => trivial) _).forward.bind
        fun _ => (quiet_pure _).forward
    have plain {p : Parser Unit} (hp : Takes 1 true p) :
        ReadsOn (do p; let nested ← pure none; complete nested) :=
      hp.readsOn.bind fun _ => (quiet_pure _).forward.bind hcomplete
    clear_value form
    cases form with
    | identification => exact plain (takes_identification comment taken)
    | upcopy => exact plain (takes_upcopy comment)
    | operator => exact plain (takes_operator comment taken)
    | field => exact plain (takes_field comment taken _)
    | enumeration =>
      refine ReadsOn.bind ?_ hcomplete
      exact (readsOn_enumeration comment taken _).bind fun _ => (quiet_pure _).forward
  split
  · exact (brief_unexpected _).forward.bind_readsOn fun _ => hdispatch
  · exact hdispatch

theorem cursor_acceptNested (checks : List Check) (id : StructureId)
    (nested : Option EnumerationId) (s : State) :
    (acceptNested checks id nested s).2.cursor = s.cursor := by
  cases nested with
  | none => rfl
  | some e =>
    simp only [acceptNested]
    split <;> rfl

theorem itemReadsOn_structure (checks : List Check) (id : StructureId) :
    ItemReadsOn (structureItem checks id) := by
  intro comment first s ht hc
  have htells : s.Tells (fun _ => True) (structureItem checks id comment first s) :=
    tells_structureItem (fun _ _ => trivial) (Check.forall_speaks checks) id comment first s
  refine ⟨htells.rest, remaining_construct_lt ht hc (cursor_acceptNested checks id)
    (readsOn_member id comment first) ?_⟩
  exact (speaks_member (P := fun _ => True) (fun _ _ => trivial) id comment first).forward

end Idl.Grammar
