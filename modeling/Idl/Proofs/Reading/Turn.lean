import Idl.Proofs.Reading.Edit

/-!
Turns: what a session goes through between two statements. A situation is a session with all the
names that wait in it, whichever source they wait in. A declaration that passed its checks is
taken in with all its edits, a name that waits is bound, and whatever else happens concerns
neither the nodes of the document nor the names. A sound situation stays sound, and nothing
that it holds gets lost.
-/

namespace Idl

structure Situation where
  session : Session
  waiting : List Binding

def Situation.Sound (a : Situation) : Prop :=
  a.session.document.Sound a.waiting

namespace Grammar

variable {checks : List Check}

/-- The situation while a source is read; `others` are the names that wait in its importers. -/
def State.situation (others : List Binding) (s : State) : Situation :=
  ⟨s.toSession, others ++ s.pending⟩

inductive Turn (checks : List Check) : Situation → Situation → Prop where
  /-- Imports and the package are noted, sources registered, messages and calls added. -/
  | note {s s' : Session} {ws : List Binding}
      (h : s'.document = s.document.note s'.document.imports s'.document.package)
      (he : s.document.Decided → s'.endless = s.endless) : Turn checks ⟨s, ws⟩ ⟨s', ws⟩
  | reorder {s : Session} {ws ws' : List Binding} (h : ws.Perm ws') : Turn checks ⟨s, ws⟩ ⟨s, ws'⟩
  /-- A declaration is taken in that was edited since `s` and passed the checks. -/
  | declare {others : List Binding} {s s' : State} {x : Declaration} (he : Edits checks s.mark s s')
      (ha : x.Above s.mark.extent) (hb : x.Below s'.document.extent)
      (hp : (Check.runAll checks s'.document (.declaration x)).passed = true) :
      Turn checks (s.situation others) ((s'.modifyDocument (·.register x)).situation others)
  | bind {s : Session} {b : Binding} {ws : List Binding} {t : DataType}
      (ht : t.Named s.document.extent) : Turn checks ⟨s, b :: ws⟩ ⟨s.bind checks b t, ws⟩

namespace Turn

variable {a b : Situation}

theorem sound (h : Turn checks a b) (ha : a.Sound) : b.Sound := by
  cases h with
  | @note s s' ws h _ =>
    unfold Situation.Sound
    simp only
    rw [h]
    exact Document.Sound.note ha _ _
  | reorder h => exact Document.Sound.perm ha h
  | @declare others s s' x he hx hb hp =>
    have hs : s.Sound others := ha
    exact Document.Sound.register (he.ready hs.ready).sound hb
  | bind ht => exact Document.Sound.bind ha checks ht

theorem grows (h : Turn checks a b) (ha : a.Sound) :
    a.session.document.Grows b.session.document := by
  cases h with
  | @note s s' ws h _ =>
    rw [h]
    exact Document.grows_note _ _ _
  | reorder h => exact .refl _
  | @declare others s s' x he hx hb hp =>
    have hs : s.Sound others := ha
    exact (he.grows hs.ready).trans (Document.grows_register _ x)
  | @bind s b ws t ht => exact Document.Sound.grows_bind ha checks t

/-- If in the end the class of each type is found, it was found all along, and every check of a
default has come back. -/
theorem decided (h : Turn checks a b) (ha : a.Sound) (hb : b.session.document.Decided) :
    a.session.document.Decided ∧ b.session.endless = a.session.endless := by
  have hbefore : a.session.document.Decided := hb.of_filled (h.grows ha).filled
  refine ⟨hbefore, ?_⟩
  cases h with
  | note h he => exact he hbefore
  | reorder h => rfl
  | @declare others s s' x he hx hb hp =>
    have hs : s.Sound others := ha
    exact ((he.keeps hs.ready).decided hbefore).2
  | @bind s b ws t ht =>
    exact Session.endless_bind checks
      (hb.of_filled fun slot u hu => ((s.sheds_bind checks b t).slot? slot).trans hu)

end Turn

/-- Any number of turns. -/
inductive Turns (checks : List Check) : Situation → Situation → Prop where
  | refl (a : Situation) : Turns checks a a
  | tail {a b c : Situation} (h : Turns checks a b) (t : Turn checks b c) : Turns checks a c

namespace Turns

variable {a b c : Situation}

theorem single (t : Turn checks a b) : Turns checks a b :=
  (refl a).tail t

theorem trans (h : Turns checks a b) (h' : Turns checks b c) : Turns checks a c := by
  induction h' with
  | refl => exact h
  | tail _ t ih => exact ih.tail t

theorem sound (h : Turns checks a b) (ha : a.Sound) : b.Sound := by
  induction h with
  | refl => exact ha
  | tail _ t ih => exact t.sound ih

theorem grows (h : Turns checks a b) (ha : a.Sound) :
    a.session.document.Grows b.session.document := by
  induction h with
  | refl => exact .refl _
  | tail h t ih => exact ih.trans (t.grows (h.sound ha))

theorem decided (h : Turns checks a b) (ha : a.Sound) (hb : b.session.document.Decided) :
    a.session.document.Decided ∧ b.session.endless = a.session.endless := by
  induction h with
  | refl => exact ⟨hb, rfl⟩
  | tail h t ih =>
    obtain ⟨hbefore, hlast⟩ := t.decided (h.sound ha) hb
    obtain ⟨hfirst, hmore⟩ := ih hbefore
    exact ⟨hfirst, hlast.trans hmore⟩

end Turns

theorem State.Reads.turns {s s' : State} (h : s.Reads s') (others : List Binding) :
    Turns checks (s.situation others) (s'.situation others) := by
  rw [State.situation, State.situation, h.pending]
  exact .single (.note (by rw [h.document]; rfl) h.endless)

theorem turns_settleAll {s : Session} {others pending : List Binding} (last : Bool)
    (hs : (⟨s, others ++ pending⟩ : Situation).Sound) :
    Turns checks ⟨s, others ++ pending⟩
      ⟨(s.settleAll checks last pending).1, others ++ (s.settleAll checks last pending).2⟩ :=
  Session.settleAll_named (I := fun s' ws => Turns checks ⟨s, others ++ pending⟩ ⟨s', ws⟩)
    (fun hp h => h.tail (.reorder hp)) (fun _ ht h => h.tail (.bind ht)) last hs (.refl _)

theorem turns_settleRegistered {s : Session} {others pending : List Binding} {t : DataType}
    (ht : t.Named s.document.extent) (hs : (⟨s, others ++ pending⟩ : Situation).Sound) :
    Turns checks ⟨s, others ++ pending⟩
      ⟨(s.settleRegistered checks t pending).1,
        others ++ (s.settleRegistered checks t pending).2⟩ :=
  Session.settleRegistered_named
    (I := fun s' ws => Turns checks ⟨s, others ++ pending⟩ ⟨s', ws⟩)
    (fun hp h => h.tail (.reorder hp)) (fun _ ht h => h.tail (.bind ht)) ht hs (.refl _)

end Grammar

end Idl
