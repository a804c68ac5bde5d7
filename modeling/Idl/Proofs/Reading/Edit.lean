import Idl.Proofs.Document.Grounded
import Idl.Proofs.Reading.Run

/-!
Edits above a mark: what the reading of a construct does to a state. It reads on, changes the
document above the mark, and at the end of a structure binds names that were read since. A sound
state stays sound under edits, and is the same below the mark: to roll back to the mark takes
all of them back.
-/

namespace Idl.Grammar

variable {checks : List Check}

namespace Mark

instance : LE Mark where
  le a b := a.extent ≤ b.extent ∧ a.pending ≤ b.pending

theorem le_refl (m : Mark) : m ≤ m :=
  ⟨Document.Extent.le_refl _, Nat.le_refl _⟩

end Mark

namespace State

/-- The document is sound for the names that wait here and the names that wait elsewhere. -/
def Sound (others : List Binding) (s : State) : Prop :=
  s.document.Sound (others ++ s.pending)

theorem Sound.reads {others : List Binding} {s s' : State} (h : s.Sound others)
    (hr : s.Reads s') : s'.Sound others := by
  rw [Sound, hr.document, hr.pending]
  exact h

/-- What lies below the mark hangs on nothing above it, and the names behind the mark wait for
slots above it. -/
structure Settled (m : Mark) (s : State) : Prop where
  covered : s.document.CoveredBy m.extent
  scopes : ∀ b ∈ s.pending.take m.pending, ∀ id, b.scope = some id →
    id.index < m.extent.structures
  slots : ∀ b ∈ s.pending.drop m.pending, b.slot.Above m.extent

/-- A state in which the reading of a construct can start or go on, all of it above a mark. -/
structure Ready (others : List Binding) (m : Mark) (s : State) : Prop where
  sound : s.Sound others
  settled : s.Settled m
  mark : m ≤ s.mark

/-- A name behind the mark waits for a slot above it. -/
theorem Ready.above_of_pending {others front back : List Binding} {m : Mark} {s : State}
    {b : Binding} (h : s.Ready others m) (hp : s.pending = front ++ b :: back)
    (hm : m.pending ≤ front.length) : b.slot.Above m.extent := by
  refine h.settled.slots b ?_
  rw [hp, List.drop_append_of_le_length hm]
  exact List.mem_append_right _ List.mem_cons_self

theorem Sound.ready {others : List Binding} {s : State} (h : s.Sound others) :
    s.Ready others s.mark where
  sound := h
  settled :=
    { covered := h.linked.coveredBy
      scopes := fun b hb => h.scopes b (List.mem_append_right _ (List.mem_of_mem_take hb))
      slots := by simp [mark] }
  mark := Mark.le_refl _

/-- The reading has gone on, and nothing below the mark has changed. If the class of each type was
found, it still is, and every check of a default has come back. -/
structure Keeps (m : Mark) (s s' : State) : Prop extends s.Onward s' where
  agree : Document.AgreeBelow m.extent s.document s'.document
  waiting : s'.pending.take m.pending = s.pending.take m.pending
  mark : m ≤ s'.mark
  decided : s.document.Decided → s'.document.Decided ∧ s'.endless = s.endless

namespace Keeps

variable {m : Mark} {s s' s'' : State}

theorem trans (h : s.Keeps m s') (h' : s'.Keeps m s'') : s.Keeps m s'' where
  toOnward := h.toOnward.trans h'.toOnward
  agree := h.agree.trans h'.agree
  waiting := h'.waiting.trans h.waiting
  mark := h'.mark
  decided hd :=
    have ⟨hd', he⟩ := h.decided hd
    have ⟨hd'', he'⟩ := h'.decided hd'
    ⟨hd'', he'.trans he⟩

/-- To roll back to the mark of a sound state takes back all that was done since. -/
theorem rollback {others : List Binding} (h : s.Keeps s.mark s') (hs : s.Sound others) :
    s.Reads (s'.rollback s.mark) where
  toOnward := { h.toOnward with }
  document := by
    have hshared (entry) (he : entry ∈ s.document.shared) :
        entry.2.index < s.document.templates.size := by
      refine (s.document.templates.get?_isSome_iff entry.2).1 ?_
      rw [(hs.linked.shared entry he).2]
      rfl
    exact Eq.trans h.agree (s.document.restore_extent hshared)
  pending := by
    have hw := h.waiting
    simp only [State.mark, List.take_length] at hw
    exact hw
  endless hd := (h.decided hd).2

/-- To roll back to a higher mark changes nothing below. -/
theorem rollback_above {m' : Mark} (h : s.Keeps m s') (hm : m ≤ m') :
    s.Keeps m (s'.rollback m') where
  toOnward := { h.toOnward with }
  agree := Eq.trans (s'.document.restore_restore hm.1) h.agree
  waiting := by
    simp only [State.rollback, List.take_take, Nat.min_eq_left hm.2]
    exact h.waiting
  mark := by
    refine ⟨Document.le_extent_restore hm.1 h.mark.1, ?_⟩
    have hp : m.pending ≤ min m'.pending s'.pending.length := Nat.le_min.2 ⟨hm.2, h.mark.2⟩
    rwa [← List.length_take] at hp
  decided hd :=
    have ⟨hd', he⟩ := h.decided hd
    ⟨hd'.of_filled fun _ _ => Document.filled_of_restore, he⟩

end Keeps

theorem Reads.keeps {m : Mark} {s s' : State} (h : s.Reads s') (hm : m ≤ s.mark) :
    s.Keeps m s' where
  toOnward := h.toOnward
  agree := by rw [h.document]; exact .refl _ _
  waiting := by rw [h.pending]
  mark := by rwa [State.mark, h.document, h.pending]
  decided hd := ⟨h.document ▸ hd, h.endless hd⟩

end State

/-- The edits above a mark. -/
inductive Edit (checks : List Check) (m : Mark) (s : State) : State → Prop where
  | read {s' : State} (h : s.Reads s') : Edit checks m s s'
  /-- The document changes, and a name waits for the slot that is opened. -/
  | change {d' : Document} {opened : List Slot} {new : List Binding}
      (h : s.document.Change m.extent s.pending opened d') (hn : new.map Binding.slot = opened)
      (hscope : ∀ b ∈ new, ∀ id, b.scope = some id → id.index < s.document.structures.size) :
      Edit checks m s { s.modifyDocument fun _ => d' with pending := s.pending ++ new }
  /-- The names behind the mark wait in another order. -/
  | reorder {ws : List Binding} (h : s.pending.Perm ws)
      (ht : ws.take m.pending = s.pending.take m.pending) :
      Edit checks m s { s with pending := ws }
  /-- A name behind the mark is bound that was read inside a structure above the mark. -/
  | bind {front back : List Binding} {b : Binding} {t : DataType} {id : StructureId}
      (hp : s.pending = front ++ b :: back) (hm : m.pending ≤ front.length)
      (ht : s.document.Means t) (hb : b.scope = some id)
      (hid : m.extent.structures ≤ id.index) :
      Edit checks m s
        { s with toSession := s.toSession.bind checks b t, pending := front ++ back }

namespace Edit

variable {others : List Binding} {m : Mark} {s s' : State}

theorem sound (h : Edit checks m s s') (hs : s.Ready others m) : s'.Sound others := by
  cases h with
  | read h => exact hs.sound.reads h
  | change h hn hscope => exact hs.sound.change h hs.mark.1 hn hscope
  | reorder h ht => exact hs.sound.perm (h.append_left others)
  | @bind front back b t id hp hm ht hb hid =>
    have hw := hp ▸ Document.perm_waiting others front b back
    exact (hs.sound.perm hw).bind checks (hs.sound.linked.named ht)

theorem grows (h : Edit checks m s s') (hs : s.Ready others m) :
    s.document.Grows s'.document := by
  cases h with
  | read h => rw [h.document]; exact .refl _
  | change h hn hscope => exact h.grows hs.sound.linked hs.mark.1
  | reorder h ht => exact .refl _
  | @bind front back b t id hp hm ht hb hid =>
    have hw := hp ▸ Document.perm_waiting others front b back
    exact (hs.sound.perm hw).grows_bind checks t

/-- What is bound at the end of a structure is bound without a trace below the mark. -/
theorem agreeBelow_bind (hs : s.Ready others m) {front back : List Binding} {b : Binding}
    {id : StructureId} (hp : s.pending = front ++ b :: back) (hm : m.pending ≤ front.length)
    (hb : b.scope = some id) (hid : m.extent.structures ≤ id.index) (t : DataType) :
    Document.AgreeBelow m.extent s.document (s.toSession.bind checks b t).document := by
  refine Session.agreeBelow_bind checks hs.settled.covered (hs.above_of_pending hp hm)
    (fun o ho => ?_) t
  cases hb.symm.trans ho
  exact hid

/-- An edit closes no circle of parameters but one with a late slot. -/
theorem grounded (h : Edit checks m s s') (hs : s.Ready others m) {late : Slot → Prop}
    (hg : ∀ t, Acc (s.document.Behind late) t) (t : DataType) :
    Acc (s'.document.Behind late) t := by
  cases h with
  | read h => exact h.document ▸ hg t
  | reorder h ht => exact hg t
  | change h hn hscope =>
    exact Document.acc_behind_of_new hg hs.sound.linked (fun _ _ _ => h.standIn) t
  | @bind front back b u o hp hm hu hb hid =>
    have hagree : Document.AgreeBelow m.extent s.document (s.toSession.bind checks b u).document :=
      agreeBelow_bind hs hp hm hb hid u
    have hw := hs.sound.perm (hp ▸ Document.perm_waiting others front b back)
    have hopen := (hw.waiting.slots b.slot).1 (List.mem_map_of_mem List.mem_cons_self)
    have hslot := s.toSession.slot?_bind checks hopen.isSome (t := u)
    have hfilled := hslot b.slot
    rw [if_pos rfl] at hfilled
    refine Document.acc_behind_of_filled hg (fun own hown => ?_) hfilled ?_ t
    · rw [hslot, if_neg hown]
    · have hcore (h : u.standIn? = none) :
          Acc ((s.toSession.bind checks b u).document.Behind late) u :=
        .intro u fun v ⟨slot, hs, _⟩ => by cases h.symm.trans hs
      cases hu with
      | builtin b => exact hcore rfl
      | listed hl =>
        exact Document.acc_behind_of_agree hg hs.settled.covered.closed hagree
          (hs.settled.covered.listed _ hl)
      | nested _ => exact hcore rfl

theorem decided (h : Edit checks m s s') (hs : s.Ready others m) (hd : s.document.Decided) :
    s'.document.Decided ∧ s'.endless = s.endless := by
  have hd' : s'.document.Decided :=
    Document.decided_iff.2 (h.grounded hs (Document.decided_iff.1 hd))
  refine ⟨hd', ?_⟩
  cases h with
  | read h => exact h.endless hd
  | change h hn hscope => rfl
  | reorder h ht => rfl
  | @bind front back b u o hp hm hu hb hid =>
    refine Session.endless_bind checks (hd'.of_filled fun slot t ht => ?_)
    exact ((s.toSession.sheds_bind checks b u).slot? slot).trans ht

theorem keeps (h : Edit checks m s s') (hs : s.Ready others m) : s.Keeps m s' := by
  have hdecided := h.decided hs
  have hlength : m.pending ≤ s.pending.length := hs.mark.2
  have hgrows := h.grows hs
  cases h with
  | read h => exact h.keeps hs.mark
  | change h hn hscope =>
    refine ⟨{ State.Onward.refl s with }, h.agree hs.mark.1,
      List.take_append_of_le_length hlength, ⟨?_, ?_⟩, hdecided⟩
    · exact Document.Extent.le_trans hs.mark.1 hgrows.extent
    · simp only [State.mark, List.length_append]
      omega
  | reorder h ht =>
    refine ⟨{ State.Onward.refl s with }, .refl _ _, ht, ⟨hs.mark.1, ?_⟩, hdecided⟩
    exact Nat.le_trans hlength (Nat.le_of_eq h.length_eq)
  | @bind front back b t id hp hm ht hb hid =>
    have hf := s.toSession.follows_bind checks b t
    refine ⟨⟨hf.sources, rfl, rfl, rfl, rfl, List.suffix_rfl, hf.messages, hf.calls⟩,
      agreeBelow_bind hs hp hm hb hid t, ?_, ⟨?_, ?_⟩, hdecided⟩
    · simp only [hp, List.take_append_of_le_length hm]
    · exact Document.Extent.le_trans hs.mark.1 hgrows.extent
    · simp only [State.mark, List.length_append]
      omega

theorem settled (h : Edit checks m s s') (hs : s.Ready others m) : s'.Settled m := by
  have hk := h.keeps hs
  refine ⟨hs.settled.covered.agree hk.agree, hk.waiting ▸ hs.settled.scopes, ?_⟩
  have hlength : m.pending ≤ s.pending.length := hs.mark.2
  cases h with
  | read h => rw [h.pending]; exact hs.settled.slots
  | change h hn hscope =>
    intro b hb
    rw [List.drop_append_of_le_length hlength] at hb
    rcases List.mem_append.1 hb with hb | hb
    · exact hs.settled.slots b hb
    · have := List.mem_map_of_mem (f := Binding.slot) hb
      rw [hn] at this
      exact (h.adds hs.sound.linked hs.mark.1).above _ this
  | @reorder ws h ht =>
    -- Both lists start alike, so what is behind the mark is the same in another order.
    have hd : (s.pending.drop m.pending).Perm (ws.drop m.pending) := by
      rw [← List.take_append_drop m.pending s.pending, ← List.take_append_drop m.pending ws,
        ht] at h
      exact (List.perm_append_left_iff _).1 h
    exact fun b hb => hs.settled.slots b (hd.mem_iff.2 hb)
  | @bind front back b t id hp hm ht hb hid =>
    intro b' hb'
    refine hs.settled.slots b' ?_
    rw [hp, List.drop_append_of_le_length hm]
    rw [List.drop_append_of_le_length hm] at hb'
    rcases List.mem_append.1 hb' with hb' | hb'
    · exact List.mem_append_left _ hb'
    · exact List.mem_append_right _ (List.mem_cons_of_mem b hb')

theorem ready (h : Edit checks m s s') (hs : s.Ready others m) : s'.Ready others m :=
  ⟨h.sound hs, h.settled hs, (h.keeps hs).mark⟩

theorem mono {m' : Mark} (h : Edit checks m' s s') (hm : m ≤ m') : Edit checks m s s' := by
  cases h with
  | read h => exact .read h
  | change h hn hscope => exact .change (h.mono hm.1) hn hscope
  | @reorder ws h ht =>
    have ht' := congrArg (List.take m.pending) ht
    rw [List.take_take, List.take_take, Nat.min_eq_left hm.2] at ht'
    exact .reorder h ht'
  | bind hp hl ht hb hid =>
    exact .bind hp (Nat.le_trans hm.2 hl) ht hb (Nat.le_trans hm.1.1 hid)

end Edit

theorem State.Ready.reads {others : List Binding} {m : Mark} {s s' : State}
    (hs : s.Ready others m) (h : s.Reads s') : s'.Ready others m :=
  Edit.ready (.read h : Edit [] m s s') hs

/-- Any number of edits above a mark. -/
inductive Edits (checks : List Check) (m : Mark) : State → State → Prop where
  | refl (s : State) : Edits checks m s s
  | tail {s s' s'' : State} (h : Edits checks m s s') (e : Edit checks m s' s'') :
      Edits checks m s s''

namespace Edits

variable {others : List Binding} {m : Mark} {s s' s'' : State}

theorem single (e : Edit checks m s s') : Edits checks m s s' :=
  (refl s).tail e

theorem read (h : s.Reads s') : Edits checks m s s' :=
  single (.read h)

theorem trans (h : Edits checks m s s') (h' : Edits checks m s' s'') : Edits checks m s s'' := by
  induction h' with
  | refl => exact h
  | tail _ e ih => exact ih.tail e

theorem mono {m' : Mark} (h : Edits checks m' s s') (hm : m ≤ m') : Edits checks m s s' := by
  induction h with
  | refl => exact refl s
  | tail _ e ih => exact ih.tail (e.mono hm)

theorem ready (h : Edits checks m s s') (hs : s.Ready others m) : s'.Ready others m := by
  induction h with
  | refl => exact hs
  | tail _ e ih => exact e.ready ih

theorem grows (h : Edits checks m s s') (hs : s.Ready others m) :
    s.document.Grows s'.document := by
  induction h with
  | refl => exact .refl _
  | tail h e ih => exact ih.trans (e.grows (h.ready hs))

theorem keeps (h : Edits checks m s s') (hs : s.Ready others m) : s.Keeps m s' := by
  induction h with
  | refl => exact (State.Reads.refl s).keeps hs.mark
  | tail h e ih => exact ih.trans (e.keeps (h.ready hs))

theorem grounded (h : Edits checks m s s') (hs : s.Ready others m) {late : Slot → Prop}
    (hg : ∀ t, Acc (s.document.Behind late) t) (t : DataType) :
    Acc (s'.document.Behind late) t := by
  induction h generalizing t with
  | refl => exact hg t
  | tail h e ih => exact e.grounded (h.ready hs) ih t

end Edits

end Idl.Grammar
