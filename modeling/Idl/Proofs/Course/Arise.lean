import Idl.Proofs.Course.Ending
import Idl.Proofs.Course.Inside

/-!
The documents of a session: those between two statements, those while a declaration is read, and
the one in the end. What holds at the start, and is kept by turns and by the edits of a
declaration, holds of all of them.
-/

namespace Idl.Grammar

/-- What holds of a document goes on to hold between statements and while a declaration is
read. -/
structure Kept (checks : List Check) (P : Document → Prop) : Prop where
  turn {a b : Situation} (h : Turn checks a b) (ha : a.Sound) (hp : P a.session.document) :
    P b.session.document
  edits {others : List Binding} {s s' : State} (hs : s.Sound others)
    (he : Edits checks s.mark s s') (hp : P s.document) : P s'.document

theorem Kept.turns {checks : List Check} {P : Document → Prop} (hk : Kept checks P)
    {a b : Situation} (h : Turns checks a b) (ha : a.Sound) (hp : P a.session.document) :
    P b.session.document := by
  induction h with
  | refl => exact hp
  | tail h t ih => exact hk.turn t (h.sound ha) ih

theorem kept_linked (checks : List Check) : Kept checks Document.Linked where
  turn h ha _ := (h.sound ha).linked
  edits hs he _ := (he.ready hs.ready).sound.linked

namespace Moment

variable {settings : Settings} {root : Option SourceId} {tokens : List Token} {d : Document}

/-- The document arises in the session that reads a root. -/
inductive Arises (settings : Settings) (root : Option SourceId) (tokens : List Token) :
    Document → Prop where
  | between {m : Moment} (hm : Reached settings root tokens m) :
      Arises settings root tokens m.document
  /-- These are the edits of the declaration up to here. -/
  | within {m : Moment} {comment : Option Comment} {s s' : State}
      (hm : Reached settings root tokens m) (hd : m.Declares comment s)
      (he : Edits settings.checks s.mark s s') : Arises settings root tokens s'.document
  | outcome : Arises settings root tokens (settings.readTokens root tokens).document

/-- The document in which a declaration is checked and registered. -/
theorem Arises.behind {m : Moment} {comment : Option Comment} {x : Declaration} {s s' : State}
    (hm : Reached settings root tokens m) (hd : m.Declares comment s)
    (hp : declaration settings.checks comment s = .ok x s') :
    Arises settings root tokens s'.document :=
  .within hm hd (After.of_ok (builds_declaration (hd.sound hm.sound).ready comment) hp).1

theorem Arises.kept {P : Document → Prop} (hk : Kept settings.checks P)
    (hstart : ∀ source, P (.setMain {} source)) (hd : Arises settings root tokens d) : P d := by
  have hfirst : P (start settings root tokens).situation.session.document := by
    cases root with
    | none => exact hstart none
    | some id => exact hstart _
  have hbetween {m : Moment} (hm : Reached settings root tokens m) : P m.document :=
    hk.turns (Steps.turns hm (sound_start settings root tokens))
      (sound_start settings root tokens) hfirst
  cases hd with
  | between hm => exact hbetween hm
  | @within m comment s s' hm hd he =>
    have hs := hd.sound hm.sound
    cases hd.state
    exact hk.edits hs he (hbetween hm)
  | outcome =>
    obtain ⟨a, ha, hd, _⟩ :=
      Reached.turns_outcome (.refl : Reached settings root tokens (start settings root tokens))
    exact hd ▸ hk.turns ha (sound_start settings root tokens) hfirst

theorem Arises.linked (hd : Arises settings root tokens d) : d.Linked :=
  hd.kept (kept_linked settings.checks) fun source => (Document.sound_setMain source).linked

end Moment

end Idl.Grammar
