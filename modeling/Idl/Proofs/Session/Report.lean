import Idl.Proofs.Reading.Report

/-!
What a session reports while names are bound and declarations are checked: the messages of the
checks, and those about defaults that do not fit.
-/

namespace Idl

theorem Document.Sheds.heading?_eq {d d' : Document} (h : d.Sheds d') (x : Declaration) :
    d'.heading? x = d.heading? x := by
  induction h with
  | refl => rfl
  | dropDefault f _ ih =>
    unfold Document.dropDefault
    refine Eq.trans (heading?_modifyStructure x ?_) ih
    exact fun _ => rfl
  | withdraw y _ ih => exact (heading?_withdraw x y).trans ih

theorem Document.ordinary_of_defaultFault? {d : Document} {t : DataType} {statement : String}
    {default : Default} {fault : Message} (h : d.defaultFault? t statement default = some fault) :
    fault.Ordinary := by
  obtain ⟨wanted, rfl⟩ := eq_of_defaultFault? h
  exact ⟨rfl, rfl⟩

namespace Check

variable {P : Message → Prop}

/-- A check all of whose messages satisfy `P`. -/
def Speaks (P : Message → Prop) (check : Check) : Prop :=
  ∀ d subject, ∀ m ∈ (check.run d subject).messages, P m

theorem forall_speaks (checks : List Check) : ∀ check ∈ checks, check.Speaks fun _ => True :=
  fun _ _ _ _ _ _ => trivial

theorem forall_runAll {checks : List Check} {d : Document} {subject : Subject}
    (hc : ∀ check ∈ checks, ∀ m ∈ (check.run d subject).messages, P m) :
    ∀ m ∈ (runAll checks d subject).messages, P m := by
  intro m hm
  rw [messages_runAll] at hm
  obtain ⟨check, hcheck, hm⟩ := List.mem_flatMap.1 hm
  exact hc check hcheck m hm

end Check

namespace Session

variable {P : Message → Prop} {checks : List Check} {s s' s'' : Session}

/-- Only messages that satisfy `P` were reported, and no node was added. -/
structure Tells (P : Message → Prop) (s s' : Session) : Prop where
  messages : ∃ more, (∀ m ∈ more, P m) ∧ s'.messages = s.messages ++ more
  headings : ∀ x, s'.document.heading? x = s.document.heading? x

theorem tells_of_same (hm : s'.messages = s.messages)
    (hh : ∀ x, s'.document.heading? x = s.document.heading? x) : s.Tells P s' :=
  ⟨⟨[], fun _ h => absurd h List.not_mem_nil, by rw [hm, List.append_nil]⟩, hh⟩

theorem Tells.refl (s : Session) : s.Tells P s :=
  tells_of_same rfl fun _ => rfl

theorem Tells.trans (h : s.Tells P s') (h' : s'.Tells P s'') : s.Tells P s'' where
  messages := by
    obtain ⟨more, hm, heq⟩ := h.messages
    obtain ⟨more', hm', heq'⟩ := h'.messages
    refine ⟨more ++ more', fun m hmem => ?_, by rw [heq', heq, List.append_assoc]⟩
    exact (List.mem_append.1 hmem).elim (hm m) (hm' m)
  headings x := (h'.headings x).trans (h.headings x)

theorem Tells.forall (h : s.Tells P s') (hs : ∀ m ∈ s.messages, P m) : ∀ m ∈ s'.messages, P m := by
  obtain ⟨more, hmore, heq⟩ := h.messages
  rw [heq]
  exact fun m hm => (List.mem_append.1 hm).elim (hs m) (hmore m)

theorem Tells.reportAll (h : s.Tells P s') {messages : List Message}
    (hm : ∀ m ∈ messages, P m) : s.Tells P (s'.reportAll messages) :=
  h.trans ⟨⟨messages, hm, rfl⟩, fun _ => rfl⟩

section Ordinary

variable (hP : ∀ m : Message, m.Ordinary → P m)

include hP

theorem tells_recheckDefault (s : Session) (f : FieldRef) (t : DataType)
    (default : Option Default) : s.Tells P (s.recheckDefault f t default) := by
  refine ⟨?_, (s.sheds_recheckDefault f t default).heading?_eq⟩
  unfold recheckDefault
  split
  · rename_i fault hfault
    obtain ⟨default, _, hfault⟩ := Option.bind_eq_some_iff.1 hfault
    exact ⟨[fault], by simpa using hP _ (Document.ordinary_of_defaultFault? hfault), rfl⟩
  · exact (Tells.refl s).messages

theorem tells_recheckAlters (s : Session) (f : FieldRef) (t : DataType) :
    s.Tells P (s.recheckAlters f t) := by
  refine Tells.trans ((Tells.refl s).reportAll fun m hm => ?_) (tells_of_same rfl
    (sheds_foldl_withdraw (.refl s.document) (s.document.alterFaults f t)).heading?_eq)
  · obtain ⟨fault, hfault, rfl⟩ := List.mem_map.1 hm
    obtain ⟨_, hmessage⟩ := Document.defaultFault?_of_mem_alterFaults hfault
    exact hP _ (Document.ordinary_of_defaultFault? hmessage)

theorem tells_recheckSlot (s : Session) (slot : Slot) : s.Tells P (s.recheckSlot slot) := by
  cases slot with
  | field f =>
    simp only [recheckSlot, recheckDefaults]
    split
    · rename_i t _ default _ _
      let asked := s.ask (some t) (default.toList ++ (s.document.altersOf f).map (·.2))
      have hown : s.Tells P (asked.recheckDefault f t default) :=
        (tells_of_same rfl fun _ => rfl : s.Tells P asked).trans
          (tells_recheckDefault hP asked f t default)
      exact hown.trans (tells_recheckAlters hP _ f t)
    · exact .refl s
  | _ => exact .refl s

theorem Tells.reportUnresolved (h : s.Tells P s') (pending : List Binding) :
    s.Tells P (s'.reportUnresolved pending) := by
  refine h.reportAll fun m hm => ?_
  obtain ⟨b, _, rfl⟩ := List.mem_map.1 hm
  exact hP _ ⟨rfl, rfl⟩

end Ordinary

section Checks

variable (hc : ∀ check ∈ checks, check.Speaks P)

include hc

theorem tells_visit (s : Session) (subject : Subject) (late : Bool) :
    s.Tells P (s.visit checks subject late).2 := by
  rw [visit_eq]
  exact ⟨⟨_, Check.forall_runAll fun check h => hc check (Check.mem_of_mem_called h) _ _, rfl⟩,
    fun _ => rfl⟩

theorem tells_recheck (s : Session) (x : Declaration) : s.Tells P (s.recheck checks x) := by
  refine ⟨?_, (s.sheds_recheck checks x).heading?_eq⟩
  unfold recheck
  split
  · simp only
    split
    · exact (tells_visit hc s _ _).messages
    · exact (tells_visit hc s _ _).messages
  · exact (Tells.refl s).messages

theorem tells_bind (hP : ∀ m : Message, m.Ordinary → P m) (s : Session) (b : Binding)
    (t : DataType) : s.Tells P (s.bind checks b t) := by
  have hfill : s.Tells P (s.modifyDocument (·.fill b.slot t)) :=
    tells_of_same rfl (s.document.alike_fill b.slot t).heading
  have howner (s' : Session) : s'.Tells P (s'.recheckOwner checks b.owner?) := by
    unfold recheckOwner
    split
    · exact tells_recheck hc s' _
    · exact .refl s'
  rw [bind_eq]
  exact (hfill.trans (tells_recheckSlot hP _ b.slot)).trans (howner _)

theorem tells_settle (hP : ∀ m : Message, m.Ordinary → P m)
    {find : Session → Binding → Option DataType} (s : Session) (pending : List Binding) :
    s.Tells P (s.settle checks find pending).1 :=
  settle_invariant (I := fun s' _ => s.Tells P s')
    (fun _ _ b _ t h _ => h.trans (tells_bind hc hP _ b t)) s pending (.refl s)

end Checks

end Session

theorem Grammar.State.tells_of_session {P : Message → Prop} {s : Grammar.State}
    {session : Session} {pending : List Binding} (h : s.toSession.Tells P session) :
    s.Tells P { s with toSession := session, pending } := by
  obtain ⟨more, hm, heq⟩ := h.messages
  exact ⟨more, hm, rfl, List.suffix_rfl, heq, .of_eq h.headings⟩

end Idl
