import Idl.Proofs.Course.Ignore

/-!
Declarations that were opened. The reading of a source comes to every point inside of the body of
a declaration: what is left when the declaration is read is left at that point already. Such a
declaration can only fail where the source ends.
-/

namespace Idl.Grammar

variable {checks : List Check} {comment : Option Comment} {s s' s₁ s₂ s₃ : State}

section Opened

/-- What is left behind a construct was left behind a part of it that nothing is read after. -/
theorem remaining_construct_le {α β : Type} {read : Parser α} {accept : α → State → Bool × State}
    {resume : State → State} {p : Parser β} {finish : β → Parser α}
    (hread : read s = (p >>= finish) s₁) (hfinish : ∀ b, Still (finish b))
    (ha : ∀ a t, (accept a t).2.cursor = t.cursor)
    (hr : ∀ t, (resume t).remaining ≤ t.remaining) :
    After p s₁ (fun _ t => (s.construct read accept resume).remaining ≤ t.remaining)
      fun t => (s.construct read accept resume).remaining ≤ t.remaining := by
  unfold After State.construct
  cases hp : p s₁ with
  | error e t =>
    rw [run_bind_of_error hp] at hread
    simp only [hread]
    exact hr (t.rollback s.mark)
  | ok b t =>
    rw [run_bind_of_ok hp] at hread
    cases hf : finish b t with
    | error e u => exact (After.of_error (hfinish b t) hf).elim
    | ok a u =>
      have hcursor : u.cursor = t.cursor := After.of_ok (hfinish b t) hf
      have haccepted : (accept a u).2.remaining ≤ t.remaining := by
        rw [State.remaining, ha, hcursor]
        exact Nat.le_refl _
      simp only [hread, hf]
      split
      · exact haccepted
      · exact haccepted

/-- Behind its body nothing of a declaration is left to read. -/
theorem declaration_of_opened (checks : List Check) {taken : List Token}
    {form : DeclarationForm} {site : Site}
    (ht : modifiers declarationModifiers s = .ok taken s₁)
    (hf : (s₁.current.bind fun t => DeclarationForm.ofKeyword? t.text) = some form)
    (hh : Header comment taken s₁ form site s₂)
    (ho : openBody site.statement s₂ = .ok () s₃) :
    ∃ finish : Unit → Parser Declaration, (∀ u, Still (finish u)) ∧
      declaration checks comment s = (items site.statement (site.item checks) >>= finish) s₃ := by
  have hreport := still_finish form taken
  rw [declaration_of_form ht hf, readFormWith]
  cases hh with
  | @struct id _ h =>
    have hsettle : Still (modify fun s : State =>
        s.settle fun session pending => session.settleScope checks id pending : Parser Unit) :=
      still_modify fun _ => rfl
    refine ⟨fun _ => do
      modify (·.settle fun session pending => session.settleScope checks id pending)
      reportModifiers (leftOver taken DeclarationForm.struct.groups)
      return .struct id, fun _ => hsettle.bind fun _ => hreport _, ?_⟩
    simp only [readForm, structureDeclaration, body, map_eq_pure_bind, bind_assoc, pure_bind]
    rw [run_bind_of_ok h]
    exact run_bind_of_ok ho _
  | @enum id _ h =>
    refine ⟨fun _ => do
      modifyDocument (·.modifyEnumeration id Enumeration.assignValues)
      reportModifiers (leftOver taken DeclarationForm.enum.groups)
      return .enum id, fun _ => (still_modifyDocument _).bind fun _ => hreport _, ?_⟩
    simp only [readForm, enumeration, body, map_eq_pure_bind, bind_assoc, pure_bind]
    rw [run_bind_of_ok h]
    exact run_bind_of_ok ho _
  | @interface id _ h =>
    refine ⟨fun _ => do
      reportModifiers (leftOver taken DeclarationForm.interface.groups)
      return .interface id, fun _ => hreport _, ?_⟩
    simp only [readForm, interface, body, map_eq_pure_bind, bind_assoc, pure_bind]
    rw [run_bind_of_ok h]
    exact run_bind_of_ok ho _
  | @factory id _ h =>
    refine ⟨fun _ => do
      reportModifiers (leftOver taken DeclarationForm.factory.groups)
      return .factory id, fun _ => hreport _, ?_⟩
    simp only [readForm, factory, body, map_eq_pure_bind, bind_assoc, pure_bind]
    rw [run_bind_of_ok h]
    exact run_bind_of_ok ho _

/-- Behind the body of a nested enumeration nothing of the member is left to read. -/
theorem member_of_opened (comment : Option Comment) {id : StructureId} {e : EnumerationId}
    {first : Token} {taken : List Token} (hk : first.kind = .identifier)
    (ht : modifiers memberModifiers s = .ok taken s₁)
    (hf : MemberForm.ofToken s₁.current = .enumeration)
    (hh : enumerationHeader comment taken (some id) s₁ = .ok e s₂)
    (ho : openBody "enumeration" s₂ = .ok () s₃) :
    ∃ finish : Unit → Parser (Option EnumerationId), (∀ u, Still (finish u)) ∧
      member id comment first s = (items "enumeration" (enumerationItem e) >>= finish) s₃ := by
  let left := leftOver taken (MemberForm.enumeration.groups
    (s₁.current.any (·.isKeyword Template.reference.keyword)))
  refine ⟨fun _ => do
    modifyDocument (·.modifyEnumeration e Enumeration.assignValues)
    reportModifiers left
    return some e, fun _ => (still_modifyDocument _).bind fun _ =>
      (still_reportModifiers _).bind fun _ => still_pure _, ?_⟩
  have hfirst : (first.kind != .identifier) = false := by simp [hk]
  simp only [member, hfirst, Bool.false_eq_true, if_false]
  rw [run_bind_of_ok ht, run_bind_get]
  simp only [hf, enumeration, body, map_eq_pure_bind, bind_assoc, pure_bind]
  rw [run_bind_of_ok hh]
  exact run_bind_of_ok ho _

end Opened

namespace Site

variable {site : Site} {n : Nat}

/-- Where the body is left, there are at least `n` tokens left. -/
def Leaves (checks : List Check) (n : Nat) (site : Site) (s : State) : Prop :=
  After (items site.statement (site.item checks)) s (fun _ t => n ≤ t.remaining)
    fun t => n ≤ t.remaining

theorem Leaves.le_remaining (h : site.Leaves checks n s) : n ≤ s.remaining := by
  have hforward : Forward (items site.statement (site.item checks)) :=
    (speaks_items (fun _ _ => trivial) (site.tells_item checks)).forward
  cases hp : items site.statement (site.item checks) s with
  | ok _ t => exact Nat.le_trans (After.of_ok h hp) (After.of_ok (hforward s) hp).length_le
  | error e t =>
    exact Nat.le_trans (After.of_error h hp) (After.of_error (hforward s) hp).length_le

theorem Leaves.round (h : site.Leaves checks n s)
    (hr : bodyRound site.statement (site.item checks) s = .ok (.again ()) s') :
    site.Leaves checks n s' := by
  have hlt : s'.remaining < s.remaining :=
    (After.of_ok (progresses_bodyRound (site.itemReadsOn checks) site.statement () s) hr).2 () rfl
  have hrun : items site.statement (site.item checks) s =
      items site.statement (site.item checks) s' := iterate_of_again hr hlt
  unfold Leaves After at h ⊢
  rwa [hrun] at h

/-- A construct whose body is read last is left where its body is. -/
theorem leaves_of_construct {α : Type} {read : Parser α} {accept : α → State → Bool × State}
    {resume : State → State} {finish : Unit → Parser α}
    (hread : read s = (items site.statement (site.item checks) >>= finish) s₁)
    (hfinish : ∀ b, Still (finish b)) (ha : ∀ a t, (accept a t).2.cursor = t.cursor)
    (hr : ∀ t, (resume t).remaining ≤ t.remaining)
    (hn : n ≤ (s.construct read accept resume).remaining) : site.Leaves checks n s₁ :=
  After.mono (remaining_construct_le hread hfinish ha hr) (fun _ _ h => Nat.le_trans hn h)
    fun _ h => Nat.le_trans hn h

end Site

theorem Header.remaining_le {taken : List Token} {form : DeclarationForm} {site : Site}
    (h : Header comment taken s form site s') : s'.remaining ≤ s.remaining := by
  cases h with
  | struct h => exact (After.of_ok (takes_structureHeader _ _ s) h).remaining_le
  | enum h => exact (After.of_ok ((takes_enumerationHeader _ _ _).some s) h).remaining_le
  | interface h => exact (After.of_ok (takes_interfaceHeader _ s) h).remaining_le
  | factory h => exact (After.of_ok (takes_factoryHeader _ _ s) h).remaining_le

theorem remaining_modifiers_le {words : List String} {taken : List Token}
    (h : modifiers words s = .ok taken s') : s'.remaining ≤ s.remaining :=
  (After.of_ok ((brief_modifiers _).forward s) h).length_le

theorem remaining_openBody_lt {statement : String} (h : openBody statement s = .ok () s') :
    s'.remaining < s.remaining := by
  obtain ⟨⟨opening, hc, _⟩, rfl⟩ := openBody_of_ok h
  exact State.remaining_shift_lt hc

namespace Moment

/-- The declaration that a source reads next encloses a point: less is left there than at its
start, and all that is left behind it. It is of a form that has items in its body. -/
structure Encloses (checks : List Check) (m : Moment) (comment : Option Comment) (s s' : State) :
    Prop where
  declares : m.Declares comment s
  starts : s'.remaining < s.remaining
  ends : (s.declare checks comment).remaining ≤ s'.remaining
  itemized : s.Itemized
  failed : ∀ e t, declaration checks comment s = .error e t → t.cursor.rest = []

variable {m : Moment} {site : Site}

theorem Encloses.inner (h : m.Encloses checks comment s s₁) (hlt : s₂.remaining ≤ s₁.remaining)
    (hleaves : site.Leaves checks (s.declare checks comment).remaining s₂) :
    m.Encloses checks comment s s₂ :=
  { h with
    starts := Nat.lt_of_le_of_lt hlt h.starts
    ends := hleaves.le_remaining }

/-- Every point inside of a declaration is enclosed by it. -/
theorem Inside.encloses (h : m.Inside checks site s') :
    ∃ comment s, m.Encloses checks comment s s' ∧
      site.Leaves checks (s.declare checks comment).remaining s' := by
  induction h with
  | @top comment taken form site s s₁ s₂ s₃ hd ht hf hh ho =>
    obtain ⟨finish, hfinish, hread⟩ := declaration_of_opened checks ht hf hh ho
    have hleaves : site.Leaves checks (s.declare checks comment).remaining s₃ :=
      Site.leaves_of_construct hread hfinish (fun d t => State.cursor_acceptDeclaration d t)
        (fun t => (State.reads_recoverOutside t).rest.length_le) (Nat.le_refl _)
    have hform {form' : DeclarationForm} (h : s.Announces form') : form = form' := by
      obtain ⟨taken', t, ht', hf'⟩ := h
      cases ht.symm.trans ht'
      exact Option.some.inj (hf.symm.trans hf')
    refine ⟨comment, s, ⟨hd, ?_, hleaves.le_remaining, ⟨fun h => ?_, fun h => ?_⟩,
      fun e t he => ?_⟩, hleaves⟩
    · exact Nat.lt_of_lt_of_le (remaining_openBody_lt ho)
        (Nat.le_trans hh.remaining_le (remaining_modifiers_le ht))
    · cases hform h
      cases hh
    · cases hform h
      cases hh
    · rw [hread] at he
      have hitems : After (items site.statement (site.item checks)) s₃ (fun _ _ => True)
          fun t => t.cursor.rest = [] :=
        items_fail_at_end fun comment t s' hc hclosing _ =>
          (site.itemReadsOn checks comment t s' hc hclosing).2
      have hall : After (items site.statement (site.item checks) >>= finish) s₃
          (fun _ _ => True) fun t => t.cursor.rest = [] := by
        refine After.bind (After.mono hitems (fun _ t _ => ?_) fun _ h => h)
        exact After.mono (hfinish () t) (fun _ _ _ => trivial) fun _ h => h.elim
      exact hall.of_error he
  | @nested id comment t taken e s s₀ s₁ s₂ s₃ h hs hc hk ht hf hh ho ih =>
    obtain ⟨comment', start, he, hleaves⟩ := ih
    have hclosing : isClosing t = false := by simp [isClosing, Token.is, hk]
    have hsemicolon : isSemicolon t = false := by simp [isSemicolon, Token.is, hk]
    have hmember := hleaves.round (bodyRound_item hs hc hclosing hsemicolon)
    obtain ⟨finish, hfinish, hread⟩ := member_of_opened comment hk ht hf hh ho
    have hinner : (Site.enumeration e).Leaves checks
        (start.declare checks comment').remaining s₃ :=
      Site.leaves_of_construct hread hfinish
        (fun nested t => cursor_acceptNested checks id nested t)
        (fun t => (State.reads_recover t).rest.length_le) hmember.le_remaining
    refine ⟨comment', start, he.inner ?_ hinner, hinner⟩
    have hskip : s₀.remaining ≤ s.remaining := by
      cases hs
      exact s.cursor.skipComments_rest_length_le
    have hmodifiers := remaining_modifiers_le ht
    have hheader : s₂.remaining ≤ s₁.remaining :=
      (After.of_ok ((takes_enumerationHeader _ _ _).some s₁) hh).remaining_le
    have hopen := remaining_openBody_lt ho
    omega
  | @method id comment t position s s₀ s₁ h hs hc hk hh ih =>
    obtain ⟨comment', start, he, hleaves⟩ := ih
    have hkind : t.kind = .identifier := beq_iff_eq.1 (Bool.and_eq_true_iff.1 hk).1
    have hclosing : isClosing t = false := by simp [isClosing, Token.is, hkind]
    have hsemicolon : isSemicolon t = false := by simp [isSemicolon, Token.is, hkind]
    have hmember := hleaves.round (bodyRound_item hs hc hclosing hsemicolon)
    have hread : (if t.isKeyword "method" then Grammar.method id comment
        else unknownStatement t "interface" "method") s₀ =
          (items "method" (methodItem id position) >>= pure) s₁ := by
      rw [if_pos hk, bind_pure, Grammar.method, run_bind_of_ok hh]
    have hinner : (Site.method id position).Leaves checks
        (start.declare checks comment').remaining s₁ :=
      Site.leaves_of_construct hread (fun _ => still_pure _) (fun _ _ => rfl)
        (fun t => (State.reads_recover t).rest.length_le) hmember.le_remaining
    refine ⟨comment', start, he.inner ?_ hinner, hinner⟩
    have hskip : s₀.remaining ≤ s.remaining := by
      cases hs
      exact s.cursor.skipComments_rest_length_le
    have hheader : s₁.remaining < s₀.remaining :=
      After.of_ok (readsOn_methodHeader _ _ s₀) hh
    omega
  | @next site s s' h hr hlt ih =>
    obtain ⟨comment, s₀, he, hleaves⟩ := ih
    exact ⟨comment, s₀, he.inner (Nat.le_of_lt hlt) (hleaves.round hr), hleaves.round hr⟩

end Moment

end Idl.Grammar
