import Idl.Grammar.Value
import Idl.Proofs.Grammar.Enumeration

/-!
What the reading of identifiers and specimens builds: one node at the end, with a name that
waits for the underlying type.
-/

namespace Idl.Grammar

variable {checks : List Check} {others : List Binding} {m fail : Mark} {s : State}

theorem builds_identifier (hs : s.Ready others m) (comment : Option Comment)
    (modifiers : List Token) :
    Builds checks m m (identifier comment modifiers) s fun id s' =>
      m.extent.identifiers ≤ id.index ∧ id.index < s'.document.identifiers.size := by
  unfold identifier
  refine (quiet_expectKeyword _).builds_bind hs fun keyword s₁ hs₁ _ => ?_
  refine (builds_typeParameter hs₁ s₁.hasScope_none _).bind hs₁ (Mark.le_refl m)
    fun use? s₂ hs₂ _ hu => ?_
  extract_lets parameter
  have hparameter : parameter.Usable none s₂ := .getD hu (TypeUse.usable_builtin _ _ _)
  refine (quiet_expectName _).builds_bind hs₂ fun name s₃ hs₃ hr₃ => ?_
  refine (quiet_emptyBody _).builds_bind hs₃ fun _ s₄ hs₄ hr₄ => ?_
  apply builds_get
  extract_lets id node
  have hlinked := (hparameter.reads (hr₃.trans hr₄)).linked
  refine (builds_write_return (.identifier node hlinked) s₄.hasScope_none).mono
    (Mark.le_refl m) ?_
  rintro id' s₅ ⟨rfl, hd⟩
  refine ⟨hs₄.mark.1.2.2.1, ?_⟩
  simp [hd, Document.insertIdentifier, id, Arena.next]

/-- The base of a specimen is a specimen that is there. -/
theorem builds_specimenBase (hs : s.Ready others fail) :
    Builds checks fail fail specimenBase s fun b s' =>
      s.Reads s' ∧ b.index < s.document.specimens.size := by
  refine (builds_declaredType hs "base").bind hs (Mark.le_refl fail)
    fun (name, t) s₁ hs₁ _ ⟨hr, ht⟩ => ?_
  cases t with
  | specimen base => exact builds_pure ⟨hr, (hs.sound.linked.named ht).1⟩
  | _ => exact (fails_inappropriate _ _ _).builds hs₁

theorem linked_inheritedParameter {d : Document} (hd : d.Linked) (base : Option SpecimenId) :
    (inheritedParameter d base).Below d.extent := by
  unfold inheritedParameter
  cases ht : (base.bind d.specimens.get?).bind (·.parameter) with
  | none => trivial
  | some t =>
    obtain ⟨x, hx, ht⟩ := Option.bind_eq_some_iff.1 ht
    obtain ⟨b, _, hb⟩ := Option.bind_eq_some_iff.1 hx
    exact (hd.specimens b x hb).parameter t ht

theorem builds_specimen (hs : s.Ready others m) (comment : Option Comment)
    (modifiers : List Token) :
    Builds checks m m (specimen comment modifiers) s fun id s' =>
      m.extent.specimens ≤ id.index ∧ id.index < s'.document.specimens.size := by
  unfold specimen
  refine (quiet_expectKeyword _).builds_bind hs fun keyword s₁ hs₁ _ => ?_
  refine (builds_typeParameter hs₁ s₁.hasScope_none _).bind hs₁ (Mark.le_refl m)
    fun use? s₂ hs₂ _ hu => ?_
  refine (quiet_expectName _).builds_bind hs₂ fun name s₃ hs₃ hr₃ => ?_
  refine (quiet_isAtKeyword _).builds_bind hs₃ fun inherit s₄ hs₄ hr₄ => ?_
  extract_lets write
  have hwrite (base : Option SpecimenId) (s₅ : State) (hs₅ : s₅.Ready others m)
      (hr : s₂.Reads s₅)
      (hbase : ∀ b, base = some b → b.index < s₅.document.specimens.size) :
      Builds checks m m (write base) s₅ fun id s' =>
        m.extent.specimens ≤ id.index ∧ id.index < s'.document.specimens.size := by
    refine (quiet_emptyBody _).builds_bind hs₅ fun _ s₆ hs₆ hr₆ => ?_
    apply builds_get
    extract_lets parameter id node
    have hlinked : TypeLinked s₆.document parameter.type? := by
      cases use? with
      | none =>
        rintro _ ⟨⟩
        exact linked_inheritedParameter hs₆.sound.linked base
      | some use => exact ((hu use rfl).reads (hr.trans hr₆)).linked
    rw [← hr₆.document] at hbase
    refine (builds_write_return (.specimen node hlinked hbase) s₆.hasScope_none).mono
      (Mark.le_refl m) ?_
    rintro id' s₇ ⟨rfl, hd⟩
    refine ⟨hs₆.mark.1.2.2.2.1, ?_⟩
    simp [hd, Document.insertSpecimen, id, Arena.next]
  split
  · refine quiet_advance.builds_bind hs₄ fun _ s₅ hs₅ hr₅ => ?_
    refine Builds.bind hs₅ (Mark.le_refl m) (Q := fun base s' =>
      s₅.Reads s' ∧ ∀ b, base = some b → b.index < s₅.document.specimens.size) ?_
      fun base s₆ hs₆ _ hread => ?_
    · refine (builds_specimenBase hs₅).bind_sure fun b s₆ hb => ⟨.refl s₆, hb.1, ?_⟩
      rintro _ ⟨⟩
      exact hb.2
    · obtain ⟨hr₆, hbase⟩ := hread
      rw [← hr₆.document] at hbase
      exact hwrite base s₆ hs₆ (((hr₃.trans hr₄).trans hr₅).trans hr₆) hbase
  · exact hwrite none s₄ hs₄ (hr₃.trans hr₄) fun _ h => by cases h

section Defer

variable {names : List (String × DataType)}

theorem defers_identifier (comment : Option Comment) (modifiers : List Token) :
    Defers names none 1 (identifier comment modifiers) fun _ => True := by
  unfold identifier
  refine (defers_expectKeyword _).bind_left fun keyword _ => ?_
  refine (defers_typeParameter _).bind_left fun use? hu => ?_
  extract_lets parameter
  have hparameter : parameter.Unknown names := .getD hu
  refine (quiet_expectName _).defers_bind fun name => ?_
  refine (quiet_emptyBody _).defers_bind fun _ => defers_get fun s _ => ?_
  extract_lets id node
  exact defers_write_return (fun _ => by rfl) hparameter _ _ _

theorem quiet_specimenBase : Quiet specimenBase := by
  refine (quiet_declaredType _).bind fun (name, t) => ?_
  cases t with
  | specimen base => exact quiet_pure _
  | _ => exact quiet_inappropriate _ _ _

theorem defers_specimen (comment : Option Comment) (modifiers : List Token) :
    Defers names none 1 (specimen comment modifiers) fun _ => True := by
  unfold specimen
  refine (defers_expectKeyword _).bind_left fun keyword _ => ?_
  refine (defers_typeParameter _).bind_left fun use? hu => ?_
  refine (quiet_expectName _).defers_bind fun name => ?_
  refine (quiet_isAtKeyword _).defers_bind fun inherit => ?_
  extract_lets write
  have hwrite (base : Option SpecimenId) : Defers names none 0 (write base) fun _ => True := by
    refine (quiet_emptyBody _).defers_bind fun _ => defers_get fun s _ => ?_
    extract_lets parameter id node
    have hparameter : parameter.Unknown names := .getD hu
    exact defers_write_return (fun _ => by rfl) hparameter _ _ _
  split
  · exact quiet_advance.defers_bind fun _ => quiet_specimenBase.map.defers_bind hwrite
  · exact (quiet_pure none).defers_bind hwrite

end Defer

end Idl.Grammar
