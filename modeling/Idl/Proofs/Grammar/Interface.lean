import Idl.Grammar.Interface
import Idl.Proofs.Grammar.Type
import Idl.Proofs.Reading.Body

/-!
What the reading of interfaces builds: a node, its methods, and their parameters. A method is
added before its parameters are read. If the source ends inside of it, the method stays where it
is, and the interface is broken as well.
-/

namespace Idl.Grammar

variable {checks : List Check} {others : List Binding} {m fail : Mark} {s : State}

/-- The method at a position of an interface is there. -/
def HoldsMethod (d : Document) (id : InterfaceId) (position : Nat) : Prop :=
  ∃ i, d.interfaces.get? id = some i ∧ position < i.methods.length

theorem HoldsMethod.mono {d d' : Document} {id : InterfaceId} {position : Nat}
    (h : HoldsMethod d id position) (g : d.Grows d') : HoldsMethod d' id position := by
  obtain ⟨i, hi, hp⟩ := h
  obtain ⟨i', hi', hle⟩ := g.methods id i hi
  exact ⟨i', hi', Nat.lt_of_lt_of_le hp hle⟩

theorem builds_parameter (hs : s.Ready others fail) (hd : m ≤ fail) {id : InterfaceId}
    {method : Nat} (hid : m.extent.interfaces ≤ id.index)
    (hm : HoldsMethod s.document id method) (comment : Option Comment) (arrow : Token) :
    Builds checks m fail (parameter id method comment arrow) s fun _ _ => True := by
  unfold parameter
  refine quiet_advance.builds_bind hs fun _ s₁ hs₁ hr₁ => ?_
  refine (builds_typeUse hs₁ s₁.hasScope_none _ _).bind hs₁ hd fun use s₂ hs₂ g ⟨hu, _⟩ => ?_
  refine (quiet_expectName _).builds_bind hs₂ fun name s₃ hs₃ hr₃ => ?_
  refine quiet_expectSemicolon.builds_bind hs₃ fun _ s₄ hs₄ hr₄ => ?_
  apply builds_get
  have hm₄ : HoldsMethod s₄.document id method := by
    rw [(hr₃.trans hr₄).document]
    rw [← hr₁.document] at hm
    exact hm.mono g
  obtain ⟨i, hi, hlt⟩ := hm₄
  have hmethod : i.methods[method]? = some i.methods[method] := List.getElem?_eq_getElem hlt
  have hlinked := (hu.reads (hr₃.trans hr₄)).linked
  extract_lets count node
  have hcount : count.getD 0 = i.methods[method].parameters.length := by
    simp [count, hi, hmethod]
  rw [hcount]
  exact (builds_write (.parameter (p := node) hid hi hmethod hlinked) s₄.hasScope_none).mono
    (Mark.le_refl m) fun _ _ _ => trivial

theorem builds_methodItem (hs : s.Ready others fail) (hd : m ≤ fail) {id : InterfaceId}
    {method : Nat} (hid : m.extent.interfaces ≤ id.index)
    (hm : HoldsMethod s.document id method) (comment : Option Comment) (first : Token) :
    Builds checks m fail
      (if first.kind == .arrow then parameter id method comment first
      else unknownStatement first "method" "-->, <-- or <->") s fun _ _ => True := by
  split
  · exact builds_parameter hs hd hid hm comment first
  · exact (fails_unknownStatement _ _ _).builds hs

theorem edits_methodItem (hs : s.Sound others) (hd : m ≤ s.mark) {id : InterfaceId}
    {method : Nat} (hid : m.extent.interfaces ≤ id.index)
    (hm : HoldsMethod s.document id method) (comment : Option Comment) (first : Token) :
    Edits checks m s (methodItem id method comment first s) :=
  edits_salvage hs (builds_methodItem hs.ready hd hid hm comment first)

/-- A parameter that is read is more than its arrow. -/
theorem after_parameter_remaining (id : InterfaceId) (method : Nat) (comment : Option Comment)
    {arrow : Token} (ht : s.current = some arrow) :
    After (parameter id method comment arrow) s (fun _ s' => s'.remaining < s.remaining)
      fun s' => s'.cursor.rest <:+ s.cursor.rest := by
  have hlt := State.remaining_advance_lt ht
  apply After.bind
  apply after_modify
  refine After.mono (Forward.bind (forward_typeUse _ _ _) (fun use => ?_) s.advance)
    (fun _ s' h => ?_) fun s' h => ?_
  · refine (quiet_expectName _).forward.bind fun name => ?_
    refine quiet_expectSemicolon.forward.bind fun _ => quiet_get.forward.bind fun _ => ?_
    extract_lets count node
    exact (forward_modifyDocument _).bind fun _ => forward_await _ _ _ _
  · exact Nat.lt_of_le_of_lt h.length_le hlt
  · exact h.trans (State.reads_advance s).rest

theorem remaining_methodItem_lt (id : InterfaceId) (method : Nat) (comment : Option Comment)
    {first : Token} (ht : s.current = some first) (hc : isClosing first = false) :
    (methodItem id method comment first s).remaining < s.remaining := by
  refine remaining_salvage_lt ht hc ?_
  split
  · exact after_parameter_remaining id method comment ht
  · exact (fails_unknownStatement _ _ _ s).mono (fun _ _ h => h.elim) fun _ h => h.rest

theorem builds_methodHeader (hs : s.Ready others fail) {id : InterfaceId}
    (hid : m.extent.interfaces ≤ id.index) (hlt : id.index < s.document.interfaces.size)
    (comment : Option Comment) :
    Builds checks m fail (methodHeader id comment) s fun position s' =>
      HoldsMethod s'.document id position := by
  unfold methodHeader
  refine (quiet_expectKeyword _).builds_bind hs fun keyword s₁ hs₁ hr₁ => ?_
  refine (quiet_expectName _).builds_bind hs₁ fun name s₂ hs₂ hr₂ => ?_
  refine (quiet_openBody _).builds_bind hs₂ fun _ s₃ hs₃ hr₃ => ?_
  apply builds_get
  extract_lets position node
  refine (builds_modify (.method hid rfl)).bind_sure fun _ s₄ hd => ⟨.refl s₄, ?_⟩
  rw [← ((hr₁.trans hr₂).trans hr₃).document] at hlt
  cases hi : s₃.document.interfaces.get? id with
  | none => exact absurd ((Arena.get?_eq_none_iff _ _).1 hi) (Nat.not_le_of_lt hlt)
  | some i =>
    refine ⟨i.addMethod node, ?_, ?_⟩
    · simp [hd, Document.modifyInterface, Arena.get?_modify, hi]
    · simp [position, hi, Interface.addMethod]

/-- A method is built, or broken before it was added, or the source ends inside of it. -/
theorem after_method (hs : s.Ready others m) {id : InterfaceId}
    (hid : m.extent.interfaces ≤ id.index) (hlt : id.index < s.document.interfaces.size)
    (comment : Option Comment) :
    After (method id comment) s (fun _ s' => Edits checks m s s') fun s' =>
      s.Keeps s.mark s' ∨ s.Breaks m s' := by
  apply After.bind
  have hheader : Builds checks m s.mark (methodHeader id comment) s _ :=
    builds_methodHeader hs.sound.ready hid hlt comment
  refine After.mono hheader (fun position s₁ ⟨he, hm⟩ => ?_) fun s' hk => .inl hk
  have hs₁ := he.ready hs
  have hitems : Builds checks m m (items "method" (methodItem id position)) s₁ _ :=
    builds_items hs₁ fun comment t s' hs' g _ _ =>
      .inl (edits_methodItem hs'.sound hs'.mark hid (hm.mono g) comment t)
  have hend : After (items "method" (methodItem id position)) s₁ (fun _ _ => True)
      fun s' => s'.cursor.rest = [] :=
    items_fail_at_end fun comment t s' ht hc _ =>
      remaining_methodItem_lt id position comment ht hc
  refine After.mono (After.and hitems hend) (fun _ s₂ h => he.trans h.1.1) fun s₂ h => ?_
  exact .inr ⟨(he.keeps hs).trans h.1, h.2⟩

theorem edited_interfaceItem (hs : s.Ready others m) {id : InterfaceId}
    (hid : m.extent.interfaces ≤ id.index) (hlt : id.index < s.document.interfaces.size)
    (comment : Option Comment) (first : Token) :
    Edited checks m s (interfaceItem id comment first s) := by
  refine edited_salvage hs ?_
  split
  · exact after_method hs hid hlt comment
  · exact (fails_unknownStatement _ _ _ s).mono (fun _ _ h => h.elim) fun _ h =>
      .inl (h.keeps (Mark.le_refl _))

theorem builds_interfaceHeader (hs : s.Ready others m) (comment : Option Comment) :
    Builds checks m m (interfaceHeader comment) s fun id s' =>
      m.extent.interfaces ≤ id.index ∧ id.index < s'.document.interfaces.size := by
  unfold interfaceHeader
  refine (quiet_expectKeyword _).builds_bind hs fun keyword s₁ hs₁ _ => ?_
  refine (quiet_expectName _).builds_bind hs₁ fun name s₂ hs₂ _ => ?_
  apply builds_get
  extract_lets id header
  refine (builds_modify (.interface header rfl)).bind_sure fun _ s₃ hd => ⟨.refl s₃, ?_, ?_⟩
  · exact hs₂.mark.1.2.2.2.2.1
  · simp [hd, Document.insertInterface, id, Arena.next]

theorem builds_interface (hs : s.Ready others m) (comment : Option Comment) :
    Builds checks m m (interface comment) s fun id s' =>
      m.extent.interfaces ≤ id.index ∧ id.index < s'.document.interfaces.size := by
  refine (builds_interfaceHeader hs comment).bind hs (Mark.le_refl m)
    fun id s₁ hs₁ _ ⟨hid, hlt⟩ => ?_
  refine (builds_body hs₁ fun comment t s' hs' g _ _ => ?_).bind hs₁ (Mark.le_refl m)
    fun _ s₂ hs₂ g _ => ?_
  · exact edited_interfaceItem hs' hid (Nat.lt_of_lt_of_le hlt g.extent.2.2.2.2.1) comment t
  · exact builds_pure ⟨hid, Nat.lt_of_lt_of_le hlt g.extent.2.2.2.2.1⟩

section Defer

variable {names : List (String × DataType)} {scope : Option StructureId}

theorem defers_parameter (id : InterfaceId) (method : Nat) (comment : Option Comment)
    (arrow : Token) : Defers names none 0 (parameter id method comment arrow) fun _ => True := by
  unfold parameter
  refine quiet_advance.defers_bind fun _ => ?_
  refine (defers_typeUse _ _).bind_left fun use hu => ?_
  refine (quiet_expectName _).defers_bind fun name => ?_
  refine quiet_expectSemicolon.defers_bind fun _ => defers_get fun s _ => ?_
  extract_lets count node
  exact defers_write (fun _ => by rfl) hu _ _

theorem defers_methodHeader (id : InterfaceId) (comment : Option Comment) :
    Defers names scope 0 (methodHeader id comment) fun _ => True := by
  unfold methodHeader
  refine (quiet_expectKeyword _).defers_bind fun keyword => ?_
  refine (quiet_expectName _).defers_bind fun name => ?_
  refine (quiet_openBody _).defers_bind fun _ => defers_get fun s _ => ?_
  extract_lets position node
  exact .bind_left (defers_modifyDocument fun _ => by rfl) fun _ _ => (quiet_pure _).defers

theorem defers_method (id : InterfaceId) (comment : Option Comment) :
    Defers names none 0 (method id comment) fun _ => True := by
  refine (defers_methodHeader id comment).bind_left fun position _ =>
    defers_items fun comment t s hs => .salvage ?_
  split
  · exact (defers_parameter id position comment t s hs).mono (fun _ _ h => h.1) fun _ h => h
  · exact (fails_unknownStatement _ _ _ s).mono (fun _ _ h => h.elim) fun _ hr => .of_reads hr

theorem defers_interfaceHeader (comment : Option Comment) :
    Defers names scope 1 (interfaceHeader comment) fun _ => True := by
  unfold interfaceHeader
  refine (defers_expectKeyword _).bind_left fun keyword _ => ?_
  refine (quiet_expectName _).defers_bind fun name => defers_get fun s _ => ?_
  extract_lets id header
  exact .bind_left (defers_modifyDocument fun _ => by rfl) fun _ _ => (quiet_pure _).defers

theorem defers_interface (comment : Option Comment) :
    Defers names none 1 (interface comment) fun _ => True := by
  refine (defers_interfaceHeader comment).bind_left fun id _ => ?_
  refine (defers_body fun comment t s hs => .salvage ?_).bind_left fun _ _ =>
    (quiet_pure _).defers
  split
  · exact (defers_method id comment s hs).mono (fun _ _ h => h.1) fun _ h => h
  · exact (fails_unknownStatement _ _ _ s).mono (fun _ _ h => h.elim) fun _ hr => .of_reads hr

end Defer

end Idl.Grammar
