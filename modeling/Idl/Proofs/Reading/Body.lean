import Idl.Proofs.Reading.Build
import Idl.Proofs.Reading.Progress

/-!
Bodies. The items of a body are read one after the other; each of them edits the state, or
leaves it in the middle of a construct because the source has ended there. In that case the
body cannot be closed any more either.
-/

namespace Idl.Grammar

variable {checks : List Check} {others : List Binding} {m : Mark} {s : State}

/-- Nothing below the mark has changed, but the source has ended inside a construct. -/
def State.Breaks (m : Mark) (s s' : State) : Prop :=
  s.Keeps m s' ∧ s'.cursor.rest = []

theorem State.cursor_misplaced (s : State) (comment : Option Comment) :
    (s.misplaced comment).cursor = s.cursor := by
  cases comment <;> rfl

theorem State.current_of_end (h : s.cursor.rest = []) : s.skipComments.current = none := by
  simp [current, skipComments, Cursor.current, Cursor.skipComments, h]

/-- The cases of a round: the end of the body, a stray semicolon, an item, or the end of the
source. -/
theorem after_bodyRound {statement : String} {item : Item}
    {ok : Round Unit Unit → State → Prop} {failed : State → Prop}
    (hclose : ∀ t s', s.skipComments.current = some t → s.Reads s' → ok (.done ()) s')
    (hskip : ∀ t s', s.skipComments.current = some t → s.Reads s' →
      s'.remaining < s.remaining → ok (.again ()) s')
    (hitem : ∀ comment t, s.skipComments.current = some t → isClosing t = false →
      isSemicolon t = false → ok (.again ()) (item comment t s.skipComments))
    (hend : ∀ s', s.skipComments.cursor.rest = [] → s.Reads s' →
      s'.cursor.rest = [] → failed s') :
    After (bodyRound statement item) s ok failed := by
  have hr := State.reads_skipComments s
  have hshift (comment : Option Comment) : s.Reads (s.skipComments.misplaced comment).shift :=
    hr.trans ((State.reads_misplaced _ comment).trans (State.reads_shift _))
  apply After.bind
  apply after_modifyGet
  apply After.bind
  apply after_get
  split
  · rename_i hc
    have hrest : s.skipComments.cursor.rest = [] := List.head?_eq_none_iff.1 hc
    exact hend _ hrest (hr.trans (State.reads_report _ _)) hrest
  · rename_i t hc
    split
    · exact hclose t _ hc (hshift _)
    · split
      · refine hskip t _ hc (hshift _) ?_
        refine Nat.lt_of_lt_of_le (State.remaining_shift_lt (t := t) ?_)
          (Nat.le_trans ?_ s.cursor.skipComments_rest_length_le)
        · rw [State.current, State.cursor_misplaced]
          exact hc
        · rw [State.remaining, State.cursor_misplaced]
          exact Nat.le_refl _
      · rename_i hclosing hsemicolon
        exact hitem _ t hc (by simpa using hclosing) (by simpa using hsemicolon)

/-- Items that edit the state, or break off at the end of the source. -/
def Edited (checks : List Check) (m : Mark) (s s' : State) : Prop :=
  Edits checks m s s' ∨ s.Breaks m s'

theorem Edits.edited {s' s'' : State} (he : Edits checks m s s') (hs : s.Ready others m)
    (h : Edited checks m s' s'') : Edited checks m s s'' := by
  rcases h with h | h
  · exact .inl (he.trans h)
  · exact .inr ⟨(he.keeps hs).trans h.1, h.2⟩

/-- A body whose items edit the state is itself an edit. -/
theorem builds_items (hs : s.Ready others m) {statement : String} {item : Item}
    (hitem : ∀ comment t s', s'.Ready others m → s.document.Grows s'.document →
      s'.current = some t → isClosing t = false → Edited checks m s' (item comment t s')) :
    Builds checks m m (items statement item) s fun _ s' => s.document.Grows s'.document := by
  -- Nothing is read behind a break, so the body is closed in an edited state only.
  have hkeeps {s' : State} (h : Edited checks m s s') : s.Keeps m s' := by
    rcases h with h | h
    · exact h.keeps hs
    · exact h.1
  have halive {s' : State} {t : Token} (h : Edited checks m s s')
      (ht : s'.skipComments.current = some t) : Edits checks m s s' := by
    refine h.resolve_right fun hb => ?_
    rw [State.current_of_end hb.2] at ht
    cases ht
  refine after_iterate (I := fun _ s' => Edited checks m s s') (fun _ s' h => ?_) (.inl (.refl s))
  refine after_bodyRound (fun t s'' ht hr => ?_) (fun t s'' ht hr hless => ?_)
    (fun comment t ht hc hn => ?_) fun s'' _ hr _ => ?_
  · have he := (halive h ht).tail (.read hr)
    exact ⟨he, he.grows hs⟩
  · exact ⟨.inl ((halive h ht).tail (.read hr)), .inl hless⟩
  · have he := (halive h ht).tail (.read (State.reads_skipComments s'))
    have hall := he.edited hs (hitem comment t _ (he.ready hs) (he.grows hs) ht hc)
    exact ⟨hall, .inr (hkeeps hall)⟩
  · exact (hkeeps h).trans (hr.keeps (hkeeps h).mark)

theorem builds_body (hs : s.Ready others m) {statement : String} {item : Item}
    (hitem : ∀ comment t s', s'.Ready others m → s.document.Grows s'.document →
      s'.current = some t → isClosing t = false → Edited checks m s' (item comment t s')) :
    Builds checks m m (body statement item) s fun _ s' => s.document.Grows s'.document := by
  refine (quiet_openBody statement).builds_bind hs fun _ s₁ hs₁ hr => ?_
  rw [← hr.document] at hitem ⊢
  exact builds_items hs₁ hitem

section Construct

variable {α : Type} {read : Parser α} {accept : α → State → Bool × State} {resume : State → State}

/-- A construct that is broken leaves nothing but messages. -/
theorem reads_construct_of_broken {Q : α → State → Prop} (hs : s.Sound others)
    (h : Builds checks m s.mark read s Q) (hresume : ∀ s' : State, s'.Reads (resume s'))
    {e : Reported} {s' : State} (hp : read s = .error e s') :
    s.Reads (s.construct read accept resume) := by
  unfold State.construct
  rw [hp]
  exact ((After.of_error h hp).rollback hs).trans (hresume _)

/-- So does one that is read and then rejected. -/
theorem reads_construct_of_rejected (hs : s.Sound others) {a : α} {s' : State}
    (hp : read s = .ok a s') (ha : (accept a s').1 = false)
    (hk : s.Keeps s.mark (accept a s').2) : s.Reads (s.construct read accept resume) := by
  unfold State.construct
  simp only [hp, ha, Bool.false_eq_true, if_false]
  exact hk.rollback hs

theorem construct_of_accepted {a : α} {s' : State} (hp : read s = .ok a s')
    (ha : (accept a s').1 = true) : s.construct read accept resume = (accept a s').2 := by
  unfold State.construct
  simp only [hp, ha, if_true]

end Construct

theorem reads_salvage_of_broken {p : Parser Unit} {Q : Unit → State → Prop} (hs : s.Sound others)
    (h : Builds checks m s.mark p s Q) {e : Reported} {s' : State} (hp : p s = .error e s') :
    s.Reads (s.salvage p) :=
  reads_construct_of_broken hs h State.reads_recover hp

/-- An item that is built is added, and one that is broken leaves nothing but messages. -/
theorem edits_salvage {p : Parser Unit} {Q : Unit → State → Prop} (hs : s.Sound others)
    (h : Builds checks m s.mark p s Q) : Edits checks m s (s.salvage p) := by
  cases hp : p s with
  | ok a s' =>
    have hsalvage : s.salvage p = s' := construct_of_accepted hp rfl
    exact hsalvage ▸ (After.of_ok h hp).1
  | error e s' => exact .read (reads_salvage_of_broken hs h hp)

/-- The same of an item that may break off at the end of the source, with more below the mark
of its start than can be taken back. -/
theorem edited_salvage {p : Parser Unit} (hs : s.Ready others m)
    (h : After p s (fun _ s' => Edits checks m s s') fun s' =>
      s.Keeps s.mark s' ∨ s.Breaks m s') : Edited checks m s (s.salvage p) := by
  unfold State.salvage State.construct
  cases hp : p s with
  | ok a s' => exact .inl (h.of_ok hp)
  | error e s' =>
    rcases h.of_error hp with hk | ⟨hk, hend⟩
    · exact .inl (.read ((hk.rollback hs.sound).trans (State.reads_recover _)))
    · have hk' := hk.rollback_above hs.mark
      refine .inr ⟨hk'.trans ((State.reads_recover _).keeps hk'.mark), ?_⟩
      simp [State.recover, State.rollback, State.modifyDocument, hend, resumption]

/-- A body whose items read on can only fail at the end of the source. -/
theorem items_fail_at_end {statement : String} {item : Item}
    (hitem : ∀ comment t (s' : State), s'.current = some t → isClosing t = false →
      isSemicolon t = false → (item comment t s').remaining < s'.remaining) :
    After (items statement item) s (fun _ _ => True) fun s' => s'.cursor.rest = [] := by
  refine after_iterate (I := fun _ _ => True) (fun _ s' _ => ?_) trivial
  refine after_bodyRound (fun _ _ _ _ => trivial) (fun _ _ _ _ hless => ⟨trivial, .inl hless⟩)
    (fun comment t ht hc hn => ⟨trivial, .inl ?_⟩) fun _ _ _ he => he
  exact Nat.lt_of_lt_of_le (hitem comment t _ ht hc hn) s'.cursor.skipComments_rest_length_le

end Idl.Grammar
