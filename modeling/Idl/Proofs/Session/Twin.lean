import Idl.Outcome
import Idl.Proofs.Session.Bind

/-!
Sessions that differ in where their messages point. A session adds messages and reads none of
them while names are bound, and in the end it only asks for their severities. So two sessions that
agree in all but the locations of their messages go on to do the same.
-/

namespace Idl

/-- The message without its location. -/
def Message.placeless (m : Message) : Message :=
  { m with location := {} }

theorem Message.hasError_placeless (messages : List Message) :
    hasError (messages.map placeless) = hasError messages := by
  rw [hasError, hasError, List.any_map]
  rfl

/-- The outcome without the locations of its messages. -/
def Outcome.placeless (o : Outcome) : Outcome :=
  { o with messages := o.messages.map Message.placeless }

namespace Session

/-- The same session, but for the locations of the messages. -/
inductive Twin (s : Session) : Session → Prop where
  | intro {messages : List Message}
      (h : messages.map Message.placeless = s.messages.map Message.placeless) :
      Twin s { s with messages }

namespace Twin

variable {s s' : Session}

theorem reportAll (h : s.Twin s') {messages messages' : List Message}
    (hm : messages'.map Message.placeless = messages.map Message.placeless) :
    (s.reportAll messages).Twin (s'.reportAll messages') := by
  obtain ⟨h⟩ := h
  exact .intro (by rw [Session.reportAll, List.map_append, List.map_append, h, hm])

theorem report (h : s.Twin s') {m m' : Message} (hm : m'.placeless = m.placeless) :
    (s.report m).Twin (s'.report m') :=
  h.reportAll (congrArg (fun m => [m]) hm)

theorem modifyDocument (h : s.Twin s') (f : Document → Document) :
    (s.modifyDocument f).Twin (s'.modifyDocument f) := by
  obtain ⟨h⟩ := h
  exact .intro h

theorem document (h : s.Twin s') : s'.document = s.document := by
  obtain ⟨h⟩ := h
  rfl

theorem hasError (h : s.Twin s') :
    Message.hasError s'.messages = Message.hasError s.messages := by
  obtain ⟨h⟩ := h
  rw [← Message.hasError_placeless s.messages, ← h, Message.hasError_placeless]

theorem recheckDefault (h : s.Twin s') (f : FieldRef) (t : DataType) (default : Option Default) :
    (s.recheckDefault f t default).Twin (s'.recheckDefault f t default) := by
  unfold Session.recheckDefault
  rw [h.document]
  split
  · exact (h.report rfl).modifyDocument _
  · exact h

theorem recheckAlters (h : s.Twin s') (f : FieldRef) (t : DataType) :
    (s.recheckAlters f t).Twin (s'.recheckAlters f t) := by
  unfold Session.recheckAlters
  rw [h.document]
  exact (h.reportAll rfl).modifyDocument _

theorem ask (h : s.Twin s') (t : Option DataType) (defaults : List Default) :
    (s.ask t defaults).Twin (s'.ask t defaults) := by
  obtain ⟨h⟩ := h
  exact .intro h

theorem recheckSlot (h : s.Twin s') (slot : Slot) :
    (s.recheckSlot slot).Twin (s'.recheckSlot slot) := by
  cases slot with
  | field f =>
    simp only [Session.recheckSlot, Session.recheckDefaults, h.document]
    split
    · exact ((h.ask _ _).recheckDefault f _ _).recheckAlters f _
    · exact h
  | _ => exact h

variable (checks : List Check)

theorem visit (h : s.Twin s') (subject : Subject) (late : Bool) :
    (s'.visit checks subject late).1 = (s.visit checks subject late).1 ∧
      (s.visit checks subject late).2.Twin (s'.visit checks subject late).2 := by
  obtain ⟨h⟩ := h
  exact ⟨rfl, .intro (by simp only [Session.visit, List.map_append, h])⟩

theorem recheck (h : s.Twin s') (x : Declaration) :
    (s.recheck checks x).Twin (s'.recheck checks x) := by
  obtain ⟨hpassed, hvisit⟩ := h.visit checks (.declaration x) true
  have hchecked : s'.isChecked x = s.isChecked x := by
    obtain ⟨h⟩ := h
    rfl
  simp only [Session.recheck, hchecked, hpassed]
  split
  · split
    · exact hvisit
    · exact hvisit.modifyDocument _
  · exact h

theorem bind (h : s.Twin s') (b : Binding) (t : DataType) :
    (s.bind checks b t).Twin (s'.bind checks b t) := by
  rw [bind_eq, bind_eq]
  have hslot := (h.modifyDocument (·.fill b.slot t)).recheckSlot b.slot
  cases b.owner? with
  | none => exact hslot
  | some x => exact hslot.recheck checks x

/-- Names are bound in the same way, if messages do not matter to how they are looked up. -/
theorem settle {find : Session → Binding → Option DataType}
    (hf : ∀ (s : Session) messages b, find { s with messages } b = find s b) (h : s.Twin s')
    (pending : List Binding) :
    (s'.settle checks find pending).2 = (s.settle checks find pending).2 ∧
      (s.settle checks find pending).1.Twin (s'.settle checks find pending).1 := by
  induction pending generalizing s s' with
  | nil => exact ⟨rfl, h⟩
  | cons b rest ih =>
    have hfind : find s' b = find s b := by
      obtain ⟨h⟩ := h
      exact hf s _ b
    simp only [Session.settle, hfind]
    split
    · exact ih (h.bind checks b _)
    · exact ⟨congrArg (b :: ·) (ih h).1, (ih h).2⟩

theorem settleRegistered (h : s.Twin s') (t : DataType) (pending : List Binding) :
    (s'.settleRegistered checks t pending).2 = (s.settleRegistered checks t pending).2 ∧
      (s.settleRegistered checks t pending).1.Twin (s'.settleRegistered checks t pending).1 := by
  have hfind : s'.findRegistered t = s.findRegistered t := by
    funext b
    simp only [Session.findRegistered, h.document]
  rw [Session.settleRegistered, hfind]
  exact h.settle checks (fun _ _ _ => rfl) pending

theorem settleScope (h : s.Twin s') (scope : StructureId) (pending : List Binding) :
    (s'.settleScope checks scope pending).2 = (s.settleScope checks scope pending).2 ∧
      (s.settleScope checks scope pending).1.Twin (s'.settleScope checks scope pending).1 := by
  simp only [Session.settleScope]
  exact ⟨congrArg (_ ++ ·) (h.settle checks (fun _ _ _ => rfl) _).1,
    (h.settle checks (fun _ _ _ => rfl) _).2⟩

theorem settleAll (h : s.Twin s') (last : Bool) (pending : List Binding) :
    (s'.settleAll checks last pending).2 = (s.settleAll checks last pending).2 ∧
      (s.settleAll checks last pending).1.Twin (s'.settleAll checks last pending).1 :=
  h.settle checks (fun _ _ _ => rfl) pending

/-- The outcomes of two such sessions differ in no more. -/
theorem ofSession (h : s.Twin s') (ok : Bool) :
    (Outcome.ofSession s' ok).placeless = (Outcome.ofSession s ok).placeless := by
  obtain ⟨h⟩ := h
  simp only [Outcome.ofSession, Outcome.placeless, h]

theorem finish (h : s.Twin s') (pending : List Binding) :
    (s'.finish checks pending).placeless = (s.finish checks pending).placeless := by
  obtain ⟨hkept, hsettled⟩ := h.settleAll checks true pending
  have hreported :
      ((s.settleAll checks true pending).1.reportUnresolved
        (s.settleAll checks true pending).2).Twin
      ((s'.settleAll checks true pending).1.reportUnresolved
        (s'.settleAll checks true pending).2) :=
    hsettled.reportAll (by rw [hkept])
  obtain ⟨hpassed, hvisit⟩ := hreported.visit checks .document false
  simp only [Session.finish, hreported.hasError, hpassed]
  split
  · exact hreported.ofSession false
  · exact hvisit.ofSession _

end Twin

end Session

end Idl
