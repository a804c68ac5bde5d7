import Idl.Grammar.Enumeration
import Idl.Proofs.Grammar.Type
import Idl.Proofs.Reading.Body

/-!
What the reading of enumerations builds: a node, its values, and a name that waits for the
underlying type.
-/

namespace Idl.Grammar

variable {checks : List Check} {others : List Binding} {m fail : Mark} {s : State}

theorem quiet_valueParts (id : EnumerationId) : Quiet (valueParts id) := by
  refine quiet_iterate (fun parts => ?_) _
  refine (quiet_expectName _).bind fun part => quiet_get.bind fun s => ?_
  split
  · exact quiet_fail _
  · refine (quiet_isAt _ _).bind fun bar => ?_
    split
    · exact quiet_advance.bind fun _ => quiet_pure _
    · exact quiet_pure _

/-- The parts of a value are positions of values that are there. -/
theorem builds_valueParts (hs : s.Ready others fail) (id : EnumerationId) :
    Builds checks fail fail (valueParts id) s fun parts s' =>
      ∀ position ∈ parts, s'.document.HasValue id position := by
  refine builds_iterate_of (I := fun parts s' => ∀ position ∈ parts,
    s'.document.HasValue id position) hs (fun _ h => absurd h List.not_mem_nil)
    fun parts s₁ hs₁ hparts => ?_
  refine (quiet_expectName _).builds_bind hs₁ fun part s₂ hs₂ hr₂ => ?_
  apply builds_get
  split
  · exact (fails_fail _).builds hs₂
  · rename_i position hposition
    obtain ⟨e, he, hfound⟩ := Option.bind_eq_some_iff.1 hposition
    have hlt : position < e.values.length := (List.findIdx?_eq_some_iff_getElem.1 hfound).1
    refine (quiet_isAt _ _).builds_bind hs₂ fun bar s₃ hs₃ hr₃ => ?_
    have hmore (s' : State) (hr : s₂.Reads s') :
        ∀ p ∈ parts ++ [position], s'.document.HasValue id p := by
      rw [hr.document]
      refine List.forall_mem_append.2 ⟨hr₂.document ▸ hparts, ?_⟩
      exact List.forall_mem_singleton.2 ⟨e, he, hlt⟩
    split
    · exact quiet_advance.builds_bind hs₃ fun _ s₄ hs₄ hr₄ =>
        builds_pure (hmore s₄ (hr₃.trans hr₄))
    · exact builds_pure (hmore s₃ hr₃)

theorem builds_enumerationValue (hs : s.Ready others fail) (hd : m ≤ fail) {id : EnumerationId}
    (hid : m.extent.enumerations ≤ id.index) (comment : Option Comment) (first : Token) :
    Builds checks m fail (enumerationValue id comment first) s fun _ _ => True := by
  unfold enumerationValue
  extract_lets named
  have hnamed (s₁ : State) (hs₁ : s₁.Ready others fail) :
      Builds checks m fail (named ()) s₁ fun _ _ => True := by
    refine (quiet_expectName _).builds_bind hs₁ fun name s₂ hs₂ _ => ?_
    refine (quiet_isAt _ _).builds_bind hs₂ fun composed s₃ hs₃ _ => ?_
    extract_lets complete
    have hcomplete (parts : Option (List Nat)) (s₄ : State) (hs₄ : s₄.Ready others fail)
        (hparts : ∀ ps, parts = some ps → ∀ position ∈ ps, s₄.document.HasValue id position) :
        Builds checks m fail (complete parts) s₄ fun _ _ => True := by
      refine quiet_expectSemicolon.builds_bind hs₄ fun _ s₅ hs₅ hr₅ => ?_
      rw [← hr₅.document] at hparts
      exact (builds_modify (.value hid rfl hparts)).mono (Mark.le_refl m) fun _ _ _ => trivial
    have hread {p : Parser (Option (List Nat))} {s₄ : State} (hs₄ : s₄.Ready others fail)
        (hp : Builds checks fail fail p s₄ fun parts s' =>
          ∀ ps, parts = some ps → ∀ position ∈ ps, s'.document.HasValue id position) :
        Builds checks m fail (p >>= complete) s₄ fun _ _ => True :=
      hp.bind hs₄ hd fun parts s₅ hs₅ _ hparts => hcomplete parts s₅ hs₅ hparts
    split
    · refine quiet_advance.builds_bind hs₃ fun _ s₄ hs₄ _ => hread hs₄ ?_
      refine (builds_valueParts hs₄ id).bind_sure fun ps s₅ hps => ?_
      exact after_pure ⟨State.Reads.refl s₅, fun _ h => by cases h; exact hps⟩
    · exact hread hs₃ (builds_pure nofun)
  split
  · exact (quiet_unexpected _).builds_bind hs fun _ s₁ hs₁ _ => hnamed s₁ hs₁
  · exact hnamed s hs

theorem edits_enumerationItem (hs : s.Sound others) (hd : m ≤ s.mark) {id : EnumerationId}
    (hid : m.extent.enumerations ≤ id.index) (comment : Option Comment) (first : Token) :
    Edits checks m s (enumerationItem id comment first s) :=
  edits_salvage hs (builds_enumerationValue hs.ready hd hid comment first)

theorem builds_enumerationHeader (hs : s.Ready others m) {owner : Option StructureId}
    (howner : s.HasScope owner) (comment : Option Comment) (modifiers : List Token) :
    Builds checks m m (enumerationHeader comment modifiers owner) s fun id s' =>
      m.extent.enumerations ≤ id.index ∧ s'.document.HasOwner id owner := by
  unfold enumerationHeader
  refine (quiet_expectKeyword _).builds_bind hs fun keyword s₁ hs₁ hr₁ => ?_
  have howner₁ := howner.reads hr₁
  refine (builds_typeParameter hs₁ howner₁ _).bind hs₁ (Mark.le_refl m) fun use? s₂ hs₂ g hu => ?_
  have howner₂ := howner₁.mono g
  extract_lets parameter
  have hparameter : parameter.Usable owner s₂ := .getD hu (TypeUse.usable_builtin _ _ _)
  refine (quiet_expectName _).builds_bind hs₂ fun name s₃ hs₃ hr₃ => ?_
  refine (quiet_isAtKeyword _).builds_bind hs₃ fun flags s₄ hs₄ hr₄ => ?_
  extract_lets write
  have hwrite (s₅ : State) (hs₅ : s₅.Ready others m) (hr : s₂.Reads s₅) :
      Builds checks m m (write ()) s₅ fun id s' =>
        m.extent.enumerations ≤ id.index ∧ s'.document.HasOwner id owner := by
    apply builds_get
    extract_lets id header
    refine (builds_write_return (.enum header rfl (hparameter.reads hr).linked
      (howner₂.reads hr)) (howner₂.reads hr)).mono (Mark.le_refl m) ?_
    rintro id' s₆ ⟨rfl, hd⟩
    refine ⟨hs₅.mark.1.2.1, ?_⟩
    simp [hd, Document.HasOwner, Document.insertEnumeration, id, header, Arena.get?_insert]
  split
  · exact quiet_advance.builds_bind hs₄ fun _ s₅ hs₅ hr₅ =>
      hwrite s₅ hs₅ ((hr₃.trans hr₄).trans hr₅)
  · exact hwrite s₄ hs₄ (hr₃.trans hr₄)

theorem builds_enumeration (hs : s.Ready others m) {owner : Option StructureId}
    (howner : s.HasScope owner) (comment : Option Comment) (modifiers : List Token) :
    Builds checks m m (enumeration comment modifiers owner) s fun id s' =>
      m.extent.enumerations ≤ id.index ∧ s'.document.HasOwner id owner := by
  refine (builds_enumerationHeader hs howner comment modifiers).bind hs (Mark.le_refl m)
    fun id s₁ hs₁ _ ⟨hid, ho⟩ => ?_
  refine (builds_body hs₁ fun comment t s' hs' _ _ _ => .inl ?_).bind hs₁ (Mark.le_refl m)
    fun _ s₂ hs₂ g _ => ?_
  · exact edits_enumerationItem hs'.sound hs'.mark hid comment t
  · refine (builds_modify (.assignValues hid)).bind_sure fun _ s₃ hd => ?_
    refine ⟨.refl s₃, hid, ?_⟩
    rw [hd]
    exact (ho.mono g.owners).mono (Document.keepsOwners_modifyEnumeration _ id fun _ => rfl)

section Defer

variable {names : List (String × DataType)} {scope : Option StructureId}

theorem defers_enumerationValue (id : EnumerationId) (comment : Option Comment) (first : Token) :
    Defers names scope 0 (enumerationValue id comment first) fun _ => True := by
  unfold enumerationValue
  extract_lets named
  have hnamed : Defers names scope 0 (named ()) fun _ => True := by
    refine (quiet_expectName _).defers_bind fun name => ?_
    refine (quiet_isAt _ _).defers_bind fun composed => ?_
    extract_lets complete
    have hcomplete (parts : Option (List Nat)) :
        Defers names scope 0 (complete parts) fun _ => True :=
      quiet_expectSemicolon.defers_bind fun _ => defers_modifyDocument fun _ => by rfl
    split
    · refine quiet_advance.defers_bind fun _ => ?_
      exact (quiet_valueParts id).map.defers_bind hcomplete
    · exact (quiet_pure none).defers_bind hcomplete
  split
  · exact (quiet_unexpected _).defers_bind fun _ => hnamed
  · exact hnamed

/-- The name under a nested enumeration waits in its structure. -/
theorem defers_enumerationHeader (comment : Option Comment) (modifiers : List Token) :
    Defers names scope 1 (enumerationHeader comment modifiers scope) fun _ => True := by
  unfold enumerationHeader
  refine (defers_expectKeyword _).bind_left fun keyword _ => ?_
  refine (defers_typeParameter _).bind_left fun use? hu => ?_
  extract_lets parameter
  have hparameter : parameter.Unknown names := .getD hu
  refine (quiet_expectName _).defers_bind fun name => ?_
  refine (quiet_isAtKeyword _).defers_bind fun flags => ?_
  extract_lets write
  have hwrite : Defers names scope 0 (write ()) fun _ => True := by
    refine defers_get fun s _ => ?_
    extract_lets id header
    exact defers_write_return (fun _ => by rfl) hparameter _ _ _
  split
  · exact quiet_advance.defers_bind fun _ => hwrite
  · exact hwrite

theorem defers_enumeration (comment : Option Comment) (modifiers : List Token) :
    Defers names scope 1 (enumeration comment modifiers scope) fun _ => True := by
  refine (defers_enumerationHeader comment modifiers).bind_left fun id _ => ?_
  refine (defers_body fun comment t s hs => .salvage ?_).bind_left fun _ _ => ?_
  · exact (defers_enumerationValue id comment t s hs).mono (fun _ _ h => h.1) fun _ h => h
  · exact .bind_left (defers_modifyDocument fun _ => by rfl) fun _ _ => (quiet_pure _).defers

end Defer

end Idl.Grammar
