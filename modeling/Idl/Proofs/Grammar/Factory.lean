import Idl.Grammar.Factory
import Idl.Proofs.Document.Field
import Idl.Proofs.Grammar.Type
import Idl.Proofs.Reading.Body

/-!
What the reading of factories builds: a node, its filters, and a name that waits for the type of
the objects.
-/

namespace Idl.Grammar

variable {checks : List Check} {others : List Binding} {m fail : Mark} {s : State}

theorem quiet_factoryKind (keyword : Token) (modifiers : List Token) :
    Quiet (factoryKind keyword modifiers) := by
  unfold factoryKind
  split
  · exact quiet_pure _
  · exact quiet_inappropriate _ _ _

theorem quiet_factoryFunction (kind : Factory.Kind) (modifiers : List Token) :
    Quiet (factoryFunction kind modifiers) := by
  unfold factoryFunction
  split
  · split
    · exact quiet_pure _
    · exact quiet_failAt _ _ _
  · exact quiet_pure _

theorem builds_filter (hs : s.Ready others fail) {id : FactoryId}
    (hid : m.extent.factories ≤ id.index) (comment : Option Comment) (keyword : Token) :
    Builds checks m fail (filter id comment keyword) s fun _ _ => True := by
  unfold filter
  refine (quiet_expectKeyword _).builds_bind hs fun _ s₁ hs₁ _ => ?_
  apply builds_get
  extract_lets factory found
  have hfound (s₂ : State) (hs₂ : s₂.Ready others fail) (hr : s₁.Reads s₂) :
      Builds checks m fail (found ()) s₂ fun _ _ => True := by
    simp only [found]
    split
    · exact (fails_failAt _ _ _).builds hs₂
    · refine (quiet_expectName _).builds_bind hs₂ fun name s₃ hs₃ hr₃ => ?_
      split
      · exact (fails_fail _).builds hs₃
      · rename_i f hf
        refine (quiet_expectKeyword _).builds_bind hs₃ fun _ s₄ hs₄ hr₄ => ?_
        refine (quiet_expectName _).builds_bind hs₄ fun method s₅ hs₅ hr₅ => ?_
        refine quiet_expectSemicolon.builds_bind hs₅ fun _ s₆ hs₆ hr₆ => ?_
        have hd : s₆.document = s₁.document :=
          ((((hr.trans hr₃).trans hr₄).trans hr₅).trans hr₆).document
        have hfield : s₆.document.HoldsField f := hd ▸ Document.holdsField_of_findField? hf
        exact (builds_modify (.filter hid hfield)).mono (Mark.le_refl m) fun _ _ _ => trivial
  split
  · exact (quiet_failAt _ _ _).builds_bind hs₁ fun _ => hfound
  · exact hfound s₁ hs₁ (State.Reads.refl s₁)

theorem builds_factoryItem (hs : s.Ready others fail) {id : FactoryId}
    (hid : m.extent.factories ≤ id.index) (comment : Option Comment) (first : Token) :
    Builds checks m fail
      (if first.isKeyword "filter" then filter id comment first
      else unknownStatement first "factory" "filter") s fun _ _ => True := by
  split
  · exact builds_filter hs hid comment first
  · exact (fails_unknownStatement _ _ _).builds hs

theorem edits_factoryItem (hs : s.Sound others) {id : FactoryId}
    (hid : m.extent.factories ≤ id.index) (comment : Option Comment) (first : Token) :
    Edits checks m s (factoryItem id comment first s) :=
  edits_salvage hs (builds_factoryItem hs.ready hid comment first)

theorem builds_factoryHeader (hs : s.Ready others m) (comment : Option Comment)
    (modifiers : List Token) :
    Builds checks m m (factoryHeader comment modifiers) s fun id s' =>
      m.extent.factories ≤ id.index ∧ id.index < s'.document.factories.size := by
  unfold factoryHeader
  refine (quiet_expectKeyword _).builds_bind hs fun keyword s₁ hs₁ _ => ?_
  refine (quiet_factoryKind _ _).builds_bind hs₁ fun kind s₂ hs₂ _ => ?_
  refine (quiet_factoryFunction _ _).builds_bind hs₂ fun function s₃ hs₃ _ => ?_
  refine (builds_typeParameter hs₃ s₃.hasScope_none _).bind hs₃ (Mark.le_refl m)
    fun use? s₄ hs₄ _ hu => ?_
  split
  · exact (fails_failHere _ _).builds hs₄
  · rename_i parameter
    refine (quiet_expectName _).builds_bind hs₄ fun name s₅ hs₅ hr₅ => ?_
    apply builds_get
    extract_lets id header
    have hlinked := ((hu parameter rfl).reads hr₅).linked
    refine (builds_write_return (.factory header rfl hlinked) s₅.hasScope_none).mono
      (Mark.le_refl m) ?_
    rintro id' s₆ ⟨rfl, hd⟩
    refine ⟨hs₅.mark.1.2.2.2.2.2.1, ?_⟩
    simp [hd, Document.insertFactory, id, Arena.next]

theorem builds_factory (hs : s.Ready others m) (comment : Option Comment)
    (modifiers : List Token) :
    Builds checks m m (factory comment modifiers) s fun id s' =>
      m.extent.factories ≤ id.index ∧ id.index < s'.document.factories.size := by
  refine (builds_factoryHeader hs comment modifiers).bind hs (Mark.le_refl m)
    fun id s₁ hs₁ _ ⟨hid, hlt⟩ => ?_
  refine (builds_body hs₁ fun comment t s' hs' _ _ _ => .inl ?_).bind hs₁ (Mark.le_refl m)
    fun _ s₂ hs₂ g _ => ?_
  · exact edits_factoryItem hs'.sound hid comment t
  · exact builds_pure ⟨hid, Nat.lt_of_lt_of_le hlt g.extent.2.2.2.2.2.1⟩

section Defer

variable {names : List (String × DataType)} {scope : Option StructureId}

theorem defers_filter (id : FactoryId) (comment : Option Comment) (keyword : Token) :
    Defers names scope 0 (filter id comment keyword) fun _ => True := by
  unfold filter
  refine (quiet_expectKeyword _).defers_bind fun _ => defers_get fun s _ => ?_
  extract_lets factory found
  have hfound : Defers names scope 0 (found ()) fun _ => True := by
    simp only [found]
    split
    · exact (fails_failAt _ _ _).defers
    · refine (quiet_expectName _).defers_bind fun name => ?_
      split
      · exact (fails_fail _).defers
      · refine (quiet_expectKeyword _).defers_bind fun _ => ?_
        refine (quiet_expectName _).defers_bind fun method => ?_
        exact quiet_expectSemicolon.defers_bind fun _ => defers_modifyDocument fun _ => by rfl
  split
  · exact (quiet_failAt _ _ _).defers_bind fun _ => hfound
  · exact hfound

theorem defers_factoryHeader (comment : Option Comment) (modifiers : List Token) :
    Defers names none 1 (factoryHeader comment modifiers) fun _ => True := by
  unfold factoryHeader
  refine (defers_expectKeyword _).bind_left fun keyword _ => ?_
  refine (quiet_factoryKind _ _).defers_bind fun kind => ?_
  refine (quiet_factoryFunction _ _).defers_bind fun function => ?_
  refine (defers_typeParameter _).bind_left fun use? hu => ?_
  split
  · exact (fails_failHere _ _).defers
  · rename_i parameter
    refine (quiet_expectName _).defers_bind fun name => defers_get fun s _ => ?_
    extract_lets id header
    exact defers_write_return (fun _ => by rfl) (hu parameter rfl) _ _ _

theorem defers_factory (comment : Option Comment) (modifiers : List Token) :
    Defers names none 1 (factory comment modifiers) fun _ => True := by
  refine (defers_factoryHeader comment modifiers).bind_left fun id _ => ?_
  refine (defers_body fun comment t s hs => .salvage ?_).bind_left fun _ _ =>
    (quiet_pure _).defers
  split
  · exact (defers_filter id comment t s hs).mono (fun _ _ h => h.1) fun _ h => h
  · exact (fails_unknownStatement _ _ _ s).mono (fun _ _ h => h.elim) fun _ hr => .of_reads hr

end Defer

end Idl.Grammar
