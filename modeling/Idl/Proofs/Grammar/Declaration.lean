import Idl.Grammar.Declaration
import Idl.Proofs.Grammar.Factory
import Idl.Proofs.Grammar.Interface
import Idl.Proofs.Grammar.Structure
import Idl.Proofs.Grammar.Value

/-!
What the reading of a declaration builds: one declaration and all that belongs to it, above the
mark at which it started. So a declaration that is broken or rejected leaves nothing but
messages.
-/

namespace Idl.Grammar

variable {checks : List Check} {others : List Binding} {m fail : Mark} {s : State}

theorem builds_declaration (hs : s.Ready others m) (comment : Option Comment) :
    Builds checks m m (declaration checks comment) s fun x s' =>
      x.Above m.extent ∧ x.Below s'.document.extent := by
  unfold declaration
  refine (quiet_modifiers _).builds_bind hs fun taken s₁ hs₁ _ => ?_
  apply builds_get
  split
  · exact (fails_failHere _ _).builds hs₁
  · rename_i form _
    extract_lets finish
    have hfinish {α : Type} {p : Parser α} {node : α → Declaration} {Q : α → State → Prop}
        (hp : Builds checks m m p s₁ Q)
        (hQ : ∀ a s', Q a s' →
          (node a).Above m.extent ∧ (node a).Below s'.document.extent) :
        Builds checks m m (do let x ← node <$> p; finish x) s₁ fun x s' =>
          x.Above m.extent ∧ x.Below s'.document.extent := by
      refine Builds.bind_sure (Q := fun x s' =>
        x.Above m.extent ∧ x.Below s'.document.extent) ?_ fun x s₂ hx => ?_
      · exact hp.bind_sure fun a s₂ ha => after_pure ⟨State.Reads.refl s₂, hQ a s₂ ha⟩
      · apply After.bind
        refine After.mono (after_reportModifiers _ s₂) (fun _ s₃ hr => ?_) fun _ h => h
        refine after_pure ⟨hr, hx.1, ?_⟩
        rw [hr.document]
        exact hx.2
    cases form with
    | struct => exact hfinish (builds_structureDeclaration hs₁ comment taken) fun _ _ h => h
    | interface => exact hfinish (builds_interface hs₁ comment) fun _ _ h => h
    | enum =>
      exact hfinish (builds_enumeration hs₁ s₁.hasScope_none comment taken) fun _ _ h =>
        ⟨h.1, h.2.index_lt⟩
    | specimen => exact hfinish (builds_specimen hs₁ comment taken) fun _ _ h => h
    | identifier => exact hfinish (builds_identifier hs₁ comment taken) fun _ _ h => h
    | factory => exact hfinish (builds_factory hs₁ comment taken) fun _ _ h => h

/-- What a declaration defers has no scope, but in a structure it waits in this structure up to
the end of the body. -/
def State.Declared (checks : List Check) (s : State) (x : Declaration) (s' : State) : Prop :=
  s.Defers none s' ∨ ∃ id s₁, x = .struct id ∧ s.Defers (some id) s₁ ∧
    (s₁.settle fun session pending => session.settleScope checks id pending).Reads s'

/-- A declaration is more than its modifiers. -/
theorem after_declaration_defers (comment : Option Comment) (s : State) :
    After (declaration checks comment) s
      (fun x s' => s.Declared checks x s' ∧ s'.remaining < s.remaining)
      fun s' => s'.cursor.rest <:+ s.cursor.rest := by
  unfold declaration
  apply After.bind
  refine After.mono (quiet_modifiers _ s) (fun taken s₁ hr₁ => ?_) fun _ hr => hr.rest
  apply After.bind
  apply after_get
  split
  · exact (fails_failHere _ _ s₁).mono (fun _ _ h => h.elim) fun _ hr => hr.rest.trans hr₁.rest
  · rename_i form _
    extract_lets finish
    have hless := hr₁.rest.length_le
    have hfinish {x : Declaration} {s₂ : State}
        (hx : ∀ s₃, s₂.Reads s₃ → s.Declared checks x s₃) (hlt : s₂.remaining < s₁.remaining) :
        After (finish x) s₂ (fun x s' => s.Declared checks x s' ∧ s'.remaining < s.remaining)
          fun s' => s'.cursor.rest <:+ s.cursor.rest := by
      apply After.bind
      refine After.mono (after_reportModifiers _ s₂) (fun _ s₃ hr => ?_) fun _ h => h.elim
      refine after_pure ⟨hx s₃ hr, ?_⟩
      exact Nat.lt_of_le_of_lt hr.rest.length_le (Nat.lt_of_lt_of_le hlt hless)
    have hplain {α : Type} {p : Parser α} {node : α → Declaration}
        (hp : Defers s₁.document.typeNames none 1 p fun _ => True) :
        After (do let x ← node <$> p; finish x) s₁
          (fun x s' => s.Declared checks x s' ∧ s'.remaining < s.remaining)
          fun s' => s'.cursor.rest <:+ s.cursor.rest := by
      apply After.bind
      refine After.bind (After.mono (hp s₁ rfl) (fun a s₂ ⟨hd, hl, _⟩ => ?_)
        fun _ hd => hd.rest.trans hr₁.rest)
      refine after_pure (hfinish (fun s₃ hr => .inl ?_) hl)
      exact ((State.Defers.of_reads hr₁).trans hd).trans (.of_reads hr)
    cases form with
    | struct =>
      apply After.bind
      refine After.bind (After.mono (after_structureDeclaration_defers comment taken s₁)
        (fun id s₂ ⟨s', hd, hl, heq⟩ => ?_) fun _ h => h.trans hr₁.rest)
      subst heq
      refine after_pure (hfinish (fun s₃ hr => .inr ⟨id, s', rfl, ?_, hr⟩) hl)
      exact (State.Defers.of_reads hr₁).trans hd
    | interface => exact hplain (defers_interface comment)
    | enum => exact hplain (defers_enumeration comment taken)
    | specimen => exact hplain (defers_specimen comment taken)
    | identifier => exact hplain (defers_identifier comment taken)
    | factory => exact hplain (defers_factory comment taken)

namespace State

theorem reads_recoverOutside (s : State) : s.Reads s.recoverOutside :=
  (reads_recover s).trans (reads_of_rest (List.dropWhile_suffix _))

theorem reads_skipGarbage (s : State) (first : Token) : s.Reads (s.skipGarbage first) :=
  (reads_report s _).trans
    (reads_of_rest ((List.dropWhile_suffix _).trans (List.tail_suffix _)))

/-- A declaration that is broken leaves nothing but messages. -/
theorem reads_declare_of_broken (hs : s.Sound others) {comment : Option Comment} {e : Reported}
    {s' : State} (hp : declaration checks comment s = .error e s') :
    s.Reads (s.declare checks comment) := by
  have hdeclaration : Builds checks s.mark s.mark (declaration checks comment) s _ :=
    builds_declaration hs.ready comment
  exact reads_construct_of_broken hs hdeclaration reads_recoverOutside hp

/-- So does one that does not pass its checks. -/
theorem reads_declare_of_rejected (hs : s.Sound others) {comment : Option Comment}
    {x : Declaration} {s' : State} (hp : declaration checks comment s = .ok x s')
    (ha : (acceptDeclaration checks x s').1 = false) :
    s.Reads (s.declare checks comment) := by
  have hdeclaration : Builds checks s.mark s.mark (declaration checks comment) s _ :=
    builds_declaration hs.ready comment
  have he := (After.of_ok hdeclaration hp).1
  have hv := reads_visit s' checks (.declaration x) false
  have hk := (he.tail (.read hv)).keeps hs.ready
  refine reads_construct_of_rejected hs hp ha ?_
  simp only [acceptDeclaration] at ha ⊢
  split at ha
  · cases ha
  · rename_i hpassed
    simp only [hpassed, Bool.false_eq_true, if_false]
    exact hk

/-- A declaration leaves nothing but messages, or it was read, has passed its checks and is
registered. -/
theorem declare_cases (hs : s.Sound others) (comment : Option Comment) :
    s.Reads (s.declare checks comment) ∨
      ∃ x s', declaration checks comment s = .ok x s' ∧
        (Check.runAll checks s'.document (.declaration x)).passed = true ∧
        s.declare checks comment = register checks x
          { s' with toSession := (s'.toSession.visit checks (.declaration x) false).2 } := by
  cases hp : declaration checks comment s with
  | error e s' => exact .inl (reads_declare_of_broken hs hp)
  | ok x s' =>
    cases ha : (acceptDeclaration checks x s').1 with
    | false => exact .inl (reads_declare_of_rejected hs hp ha)
    | true =>
      have hpassed : (s'.toSession.visit checks (.declaration x) false).1 = true := by
        simp only [acceptDeclaration] at ha
        split at ha
        · assumption
        · cases ha
      have haccept : s.declare checks comment = (acceptDeclaration checks x s').2 :=
        construct_of_accepted hp ha
      simp only [acceptDeclaration, hpassed, if_true] at haccept
      exact .inr ⟨x, s', rfl, (Session.visit_passed _ _ _ _).symm.trans hpassed, haccept⟩

/-- What holds where a declaration is registered, and is kept where a name is bound, holds when
the names that mean it are settled. -/
theorem settled_register {Q : Document → Prop} {x : Declaration} (hs : s.Sound others)
    (hx : x.Below s.document.extent)
    (hbind : ∀ {session : Session} {b : Binding} {ws : List Binding} {t : DataType},
      session.document.Sound (b :: ws) → t.Named session.document.extent → Q session.document →
        Q (session.bind checks b t).document)
    (h : Q (s.document.register x)) : Q (s.register checks x).document := by
  let registered : Session := s.toSession.modifyDocument (·.register x)
  have hregistered : registered.document.Sound (others ++ s.pending) := hs.register hx
  unfold register
  simp only
  split
  · rename_i t ht
    exact Session.settleRegistered_named (I := fun s _ => Q s.document) (fun _ h => h) hbind
      (Declaration.named_of_type? ht hx) hregistered h
  · exact h

theorem onward_register (x : Declaration) (s : State) : s.Onward (s.register checks x) := by
  unfold register
  simp only
  split
  · rename_i t _
    have hf : s.toSession.Follows _ :=
      ((Session.Follows.refl s.toSession).modifyDocument (·.register x)).trans
        (Session.follows_settleRegistered checks _ t s.pending)
    exact ⟨hf.sources, rfl, rfl, rfl, rfl, List.suffix_rfl, hf.messages, hf.calls⟩
  · exact { Onward.refl s with }

theorem onward_declare (checks : List Check) (hs : s.Sound others) (comment : Option Comment) :
    s.Onward (s.declare checks comment) := by
  rcases declare_cases hs comment with hr | ⟨x, s', hp, _, heq⟩
  · exact hr.toOnward
  · have he := (After.of_ok (builds_declaration hs.ready comment) hp).1
    rw [heq]
    have hv := (reads_visit s' checks (.declaration x) false).toOnward
    exact ((he.keeps hs.ready).toOnward.trans hv).trans (onward_register x _)

theorem cursor_register (x : Declaration) (s : State) :
    (s.register checks x).cursor = s.cursor := by
  unfold register
  simp only
  split <;> rfl

theorem cursor_acceptDeclaration (x : Declaration) (s : State) :
    (acceptDeclaration checks x s).2.cursor = s.cursor := by
  simp only [acceptDeclaration]
  split
  · exact cursor_register x _
  · rfl

/-- What is skipped outside of a construct that starts with a token that closes nothing. -/
theorem remaining_recoverOutside_lt {s' : State} {t : Token} (ht : s.current = some t)
    (hc : isClosing t = false) (h : s'.cursor.rest <:+ s.cursor.rest) :
    s'.recoverOutside.remaining < s.remaining := by
  obtain ⟨rest, hrest⟩ := List.head?_eq_some_iff.1 ht
  rw [hrest] at h
  have hlt := length_resumption_lt_of_suffix h hc
  rw [← hrest] at hlt
  exact Nat.lt_of_le_of_lt (List.dropWhile_suffix _).length_le hlt

/-- Whatever becomes of a declaration, it has been read when the next statement follows. -/
theorem remaining_declare_lt {t : Token} (ht : s.current = some t) (hc : isClosing t = false)
    (comment : Option Comment) : (s.declare checks comment).remaining < s.remaining := by
  have hread : After (declaration checks comment) s _ _ := after_declaration_defers comment s
  unfold declare construct
  cases hp : declaration checks comment s with
  | error e s' =>
    have hrest := hread.of_error hp
    have hlt : (s'.rollback s.mark).recoverOutside.remaining < s.remaining :=
      remaining_recoverOutside_lt ht hc hrest
    exact hlt
  | ok x s' =>
    have hlt := (hread.of_ok hp).2
    simp only
    split
    · rwa [remaining, cursor_acceptDeclaration]
    · change (acceptDeclaration checks x s').2.cursor.rest.length < _
      rwa [cursor_acceptDeclaration]

end State

end Idl.Grammar
