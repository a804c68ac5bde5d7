import Idl.Proofs.Course.Binding
import Idl.Proofs.Course.Inheritance
import Idl.Proofs.Session.Fit

/-!
Default literals over a whole session. While a declaration is read a literal is only written
where the type admits it, and what the type stands for lies outside of the declaration, so no
name that is bound then has a say in it. Later a type or a parameter may become known: with its
type a field is checked again, with a parameter nothing is. So a literal that does not fit in
the end is one of a type whose class hangs on a parameter that became known when the structure
had given the literal to the field and the type of the field was known.
-/

namespace Idl

namespace Document

variable {d d' : Document} {e : Extent}
  {late : StructureId → FieldRef → Default → DataType → Slot → Prop}

theorem StandsOn.not_above {t : DataType} {slot : Slot} (h : d.StandsOn t slot)
    (hd : d.ClosedBelow e) (ht : t.Below e) : ¬ slot.Above e := by
  induction h with
  | here hs => exact DataType.not_above_of_standIn hs ht
  | there hs hu _ ih => exact ih (hd _ _ (DataType.not_above_of_standIn hs ht) hu)

/-- What is known of the defaults while a declaration is read above an extent: those of the
registered structures and of those above fit. A field has a type from below, or one that stands
for no other. -/
structure FittedAbove (d : Document) (e : Extent)
    (late : StructureId → FieldRef → Default → DataType → Slot → Prop) : Prop where
  fitted : d.Fitted late fun id => .struct id ∈ d.declarations ∨ e.structures ≤ id.index
  fields : ∀ f t, d.slot? (.field f) = some (some t) → t.Below e ∨ t.standIn? = none

theorem Linked.fittedAbove (hd : d.Linked)
    (hf : d.Fitted late fun id => .struct id ∈ d.declarations) :
    d.FittedAbove d.extent late where
  fitted id hid f x t hg :=
    hf id (hid.resolve_right (Nat.not_le_of_lt hg.index_lt)) f x t hg
  fields _ _ ht := .inl (hd.below_of_slot? ht)

/-- A declaration that was read is taken in. -/
theorem FittedAbove.register (h : d.FittedAbove e late) (hd : d.Linked) {x : Declaration}
    (hx : x.Above e) : (d.register x).Fitted late fun id => .struct id ∈ d.declarations ++ [x] := by
  refine h.fitted.of_slots hd (d.grows_register x) (slot?_register d x) rfl rfl fun id hid => ?_
  refine (List.mem_append.1 hid).imp_right fun hid => ?_
  cases List.mem_singleton.1 hid
  exact hx

end Document

namespace Grammar

open Document

variable {checks : List Check}

section Edits

variable {others : List Binding} {m : Mark} {s s' : State}
  {late : StructureId → FieldRef → Default → DataType → Slot → Prop}

/-- The fields that are altered above the mark lie below it. -/
theorem State.Ready.owner_lt_of_mem_alters (hs : s.Ready others m)
    (hc : s.document.ChainedAbove m.extent) {id : StructureId} {x : Structure}
    (hx : s.document.structures.get? id = some x) {a : Alter} (ha : a ∈ x.alters) :
    a.field.owner.index < m.extent.structures := by
  obtain ⟨b, hb, hf⟩ := hc.rooted id x hx _ (Structure.mem_alters.1 ha)
  exact Nat.lt_of_le_of_lt (owner_le_of_findField? hf) (hs.index_base_lt hc.bases hx hb)

theorem Edit.fitted (h : Edit checks m s s') (hs : s.Ready others m)
    (hc : s.document.ChainedAbove m.extent) (hf : s.document.FittedAbove m.extent late) :
    s'.document.FittedAbove m.extent late := by
  have hagree := (h.keeps hs).agree
  have hmeans {t : DataType} (ht : s.document.Means t) : t.Below m.extent ∨ t.standIn? = none := by
    cases ht with
    | builtin b => exact .inl trivial
    | listed hl => exact .inl (hs.settled.covered.listed _ hl)
    | nested _ => exact .inr rfl
  cases h with
  | read h => exact h.document ▸ hf
  | reorder h ht => exact hf
  | @change d' opened new h hn hscope =>
    have hchange := hf.fitted.change h hs.sound.linked hs.mark.1
    refine ⟨fun id hid => hchange id ?_, fun f t ht => ?_⟩
    · exact hid.imp_left fun hid => hagree.declarations_eq ▸ hid
    · rcases h.type_field ht with ⟨g, hg⟩ | ⟨id, rfl⟩ | ht
      · exact hf.fields g t hg
      · exact .inr rfl
      · exact hmeans ht
  | @bind front back b t o hp hm ht hb hid =>
    have hw := hs.sound.perm (hp ▸ Document.perm_waiting others front b back)
    have hopen := (hw.waiting.slots b.slot).1 (List.mem_map_of_mem List.mem_cons_self)
    have hslot := hs.above_of_pending hp hm
    have hfilled : (s.document.fill b.slot t).ClosedBelow m.extent :=
      (hs.settled.covered.agree (agreeBelow_fill s.document hslot t)).closed
    refine ⟨Session.fitted_bind hw (hs.sound.linked.named ht) hf.fitted
      (fun id f x u _ _ hu hstands => ?_) fun id hid => ?_, fun f u hu => ?_⟩
    · -- the slot lies above the mark, and the type of the field stands for none of these
      rcases hf.fields f u hu with hbelow | hnone
      · exact absurd hslot (hstands.not_above hfilled hbelow)
      · cases hstands with
        | here hs => cases hnone.symm.trans hs
        | there hs _ _ => cases hnone.symm.trans hs
    · rcases hid with hid | hid
      · exact ⟨.inl (hagree.declarations_eq ▸ hid), .inl hid⟩
      · refine ⟨.inr hid, .inr fun y hy a ha heq => ?_⟩
        have hlt := hs.owner_lt_of_mem_alters hc hy ha
        rw [← heq] at hslot
        exact Nat.not_lt_of_le hslot hlt
    · have hbound := (s.toSession.slot?_bind checks hopen.isSome _).symm.trans hu
      split at hbound
      · cases hbound
        exact hmeans ht
      · exact hf.fields f u hbound

theorem Edits.fitted (h : Edits checks m s s') (hs : s.Ready others m)
    (hc : s.document.ChainedAbove m.extent) (hf : s.document.FittedAbove m.extent late) :
    s'.document.FittedAbove m.extent late := by
  induction h with
  | refl => exact hf
  | tail h e ih => exact e.fitted (h.ready hs) (h.chained hs hc) ih

end Edits

namespace Moment

variable {settings : Settings} {root : Option SourceId} {tokens : List Token} {m m' : Moment}

/-- The slot was bound when the structure was registered, gave this default to the field, and the
type of the field was known. Nothing checks the default then. -/
def BoundBehind (settings : Settings) (root : Option SourceId) (tokens : List Token)
    (id : StructureId) (f : FieldRef) (x : Default) (t : DataType) (slot : Slot) : Prop :=
  ∃ s b u, Binds settings root tokens s b u ∧ b.slot = slot ∧
    .struct id ∈ s.document.declarations ∧ s.document.Gives id f x ∧
      s.document.slot? (.field f) = some (some t)

/-- The defaults in the structures that are registered fit. -/
def FitsAt (settings : Settings) (root : Option SourceId) (tokens : List Token) (d : Document) :
    Prop :=
  d.Fitted (BoundBehind settings root tokens) fun id => .struct id ∈ d.declarations

theorem FitsAt.bind {s : Session} {b : Binding} {ws : List Binding} {t : DataType}
    (hf : FitsAt settings root tokens s.document) (hb : Binds settings root tokens s b t)
    (hs : s.document.Sound (b :: ws)) (ht : t.Named s.document.extent) :
    FitsAt settings root tokens (s.bind settings.checks b t).document :=
  Session.fitted_bind hs ht hf (fun _ _ _ _ hid hg hu _ => ⟨s, b, t, hb, rfl, hid, hg, hu⟩)
    fun _ hid => ⟨mem_declarations_of_bind hid, .inl hid⟩

theorem FitsAt.note {s s' : State} (hf : FitsAt settings root tokens s.document)
    (hd : s.document.Linked)
    (h : s'.document = s.document.note s'.document.imports s'.document.package) :
    FitsAt settings root tokens s'.document := by
  rw [h]
  exact hf.of_slots hd (grows_note _ _ _) (slot?_note _ _ _) rfl rfl fun _ hid => hid

/-- A declaration is read, and the names that mean it are settled. -/
theorem Declares.fitsAt (h : settings.checks = Check.standard)
    (hm : Reached settings root tokens m) (hf : FitsAt settings root tokens m.document)
    {comment : Option Comment} {s : State} (hd : m.Declares comment s) :
    FitsAt settings root tokens (s.declare settings.checks comment).document := by
  have hs := hd.sound hm.sound
  have hdocument : s.document = m.document := by
    cases hd.state
    rfl
  rw [← hdocument] at hf
  rcases State.declare_cases hs comment with hr | ⟨x, s', hp, hpassed, heq⟩
  · rw [FitsAt, hr.document]
    exact hf
  · obtain ⟨he, habove, hbelow⟩ := After.of_ok (builds_declaration hs.ready comment) hp
    have hs' := (he.ready hs.ready).sound
    have hchained : s.document.Chained := hdocument ▸ hm.chained h
    let registered := s'.registering settings.checks x
    have hregistered : registered.document.Sound (waitingIn m.importers ++ s'.pending) :=
      hs'.register hbelow
    have hfitted : FitsAt settings root tokens registered.document :=
      (he.fitted hs.ready hchained.rooted.above (hs.linked.fittedAbove hf)).register
        hs'.linked habove
    have hv : (s'.toSession.visit settings.checks (.declaration x) false).1 = true :=
      (Session.visit_passed _ _ _ _).trans hpassed
    rw [heq, State.register]
    simp only
    split
    · rename_i t ht
      exact Session.settleRegistered_named_finds (s := registered)
        (I := fun s _ => FitsAt settings root tokens s.document) (fun _ h => h)
        (fun hfinds hs ht h => h.bind (.registered hm hd hp hv ‹_› hfinds) hs ht)
        (Declaration.named_of_type? ht hbelow) hregistered hfitted
    · exact hfitted

theorem Move.fitsAt (h : settings.checks = Check.standard) (hmove : Move settings m m')
    (hm : Reached settings root tokens m) (hf : FitsAt settings root tokens m.document) :
    FitsAt settings root tokens m'.document := by
  have hs := hm.sound
  cases hmove with
  | declare hd => exact hd.fitsAt h hm hf
  | pass hp => exact hf.note hs.linked hp.notes.document
  | @into levels importers s s' i id text hi ht =>
    have hread : FitsAt settings root tokens s'.document := by
      rw [hi.reads.document]
      exact hf
    have hlinked : s'.document.Linked := hi.reads.document ▸ hs.linked
    exact hread.note hlinked rfl
  | @out levels importer importers atHead s he =>
    have hended : FitsAt settings root tokens s.ended.document := by
      rw [s.reads_ended.document]
      exact hf
    have hs' : s.ended.Sound (waitingIn importers ++ importer.pending) :=
      State.Sound.reads hs s.reads_ended
    rw [State.Sound, List.append_assoc] at hs'
    exact Session.settleAll_named_finds (I := fun s _ => FitsAt settings root tokens s.document)
      (fun _ h => h) (fun hfinds hs ht h => h.bind (.resumed hm he hfinds) hs ht) hs' hended

theorem Reached.fitsAt (h : settings.checks = Check.standard)
    (hm : Reached settings root tokens m) : FitsAt settings root tokens m.document := by
  induction hm.moves with
  | refl => cases root <;> exact fun id hid => absurd hid List.not_mem_nil
  | tail hmoves hmove ih => exact hmove.fitsAt h (Moves.steps hmoves) (ih (Moves.steps hmoves))

/-- In a session with the standard checks, when it has ended, each default literal that a
registered structure gives to a field of its own or of a base is a value of the type of the
field, if this is known; unless the class of the type hangs on the parameter of an identifier or
a specimen that was bound when the default was there and the type of the field was known. -/
theorem default_literals_fit (h : settings.checks = Check.standard) :
    ∀ id, .struct id ∈ (settings.readTokens root tokens).document.declarations →
      ∀ f value kind location t,
        (settings.readTokens root tokens).document.Gives id f (.literal value kind location) →
        (settings.readTokens root tokens).document.slot? (.field f) = some (some t) →
        (settings.readTokens root tokens).document.accepts t kind value = some true ∨
          ∃ slot, BoundBehind settings root tokens id f (.literal value kind location) t slot ∧
            (settings.readTokens root tokens).document.StandsOn t slot := by
  obtain ⟨m, outcome, hmoves, hconcludes⟩ := Reached.exists_conclusion
    (.refl : Reached settings root tokens (start settings root tokens))
  have hm : Reached settings root tokens m := hmoves.steps
  have hf := hm.fitsAt h
  have hlast : FitsAt settings root tokens outcome.document := by
    cases hconcludes with
    | ended hi hend =>
      have hended : FitsAt settings root tokens m.state.ended.document := by
        rw [m.state.reads_ended.document]
        exact hf
      have hs : m.state.ended.Sound (waitingIn m.importers) :=
        State.Sound.reads hm.sound m.state.reads_ended
      rw [Session.document_finish]
      exact Session.settleAll_named_finds (I := fun s _ => FitsAt settings root tokens s.document)
        (fun _ h => h) (fun hfinds hs ht h => h.bind (.ended hm hi hend hfinds) hs ht) hs hended
    | halted ha hh => exact hf.note hm.sound.linked hh.notes.document
  rw [hm.readTokens_eq hconcludes]
  exact fun id hid f value kind location t => hlast id hid f _ t

/-- The literal of an alter, where the type is declared behind the field and behind the alter. -/
theorem default_literals_fit_behind_alter :
    let settings : Settings := {}
    let tokens := Token.tokenize
      "structure A \x7b E f; \x7d structure B inherit A alter f = a \x7b \x7d enum E \x7b a; \x7d"
    let d := (settings.readTokens none tokens).document
    .struct ⟨1⟩ ∈ d.declarations ∧
      d.Gives ⟨1⟩ ⟨⟨0⟩, 0⟩ (.literal "a" .identifier ⟨none, 1, 54⟩) ∧
      d.slot? (.field ⟨⟨0⟩, 0⟩) = some (some (.enum ⟨0⟩)) ∧
      d.accepts (.enum ⟨0⟩) .identifier "a" = some true := by
  intro settings tokens d
  have hrun : .struct ⟨1⟩ ∈ d.declarations ∧
      d.slot? (.field ⟨⟨0⟩, 0⟩) = some (some (.enum ⟨0⟩)) ∧
      (d.structures.get? ⟨1⟩).map (fun s => s.alters.map fun a => (a.field, a.default)) =
        some [(⟨⟨0⟩, 0⟩, .literal "a" .identifier ⟨none, 1, 54⟩)] := by
    decide +kernel
  obtain ⟨hid, hslot, halters⟩ := hrun
  obtain ⟨s, hs, halters⟩ := Option.map_eq_some_iff.1 halters
  obtain ⟨a, ha, heq⟩ := List.mem_map.1 (halters ▸ List.mem_singleton_self _)
  obtain ⟨hfield, hdefault⟩ := Prod.mk.inj heq
  have hgives : d.Gives ⟨1⟩ a.field a.default := .alter hs ha
  rw [hfield, hdefault] at hgives
  refine ⟨hid, hgives, hslot, ?_⟩
  rcases default_literals_fit rfl ⟨1⟩ hid _ _ _ _ _ hgives hslot with h | ⟨slot, _, hstands⟩
  · exact h
  · cases hstands with
    | here hs => cases hs
    | there hs _ _ => cases hs

/-- A number is kept for a specimen of which it turns out later that it stands for an
enumeration. Where the specimen is declared last the field is checked, and the number is
dropped. -/
theorem default_literal_kept_behind_parameter :
    let settings : Settings := {}
    let kept := settings.readTokens none (Token.tokenize
      "specimen<E> P \x7b\x7d\nstructure S \x7b P f = 5; \x7d\nenum E \x7b a; \x7d")
    let dropped := settings.readTokens none (Token.tokenize
      "enum E \x7b a; \x7d\nstructure S \x7b P f = 5; \x7d\nspecimen<E> P \x7b\x7d")
    (kept.ok = true ∧ .struct ⟨0⟩ ∈ kept.document.declarations ∧
      (kept.document.field? ⟨⟨0⟩, 0⟩).map (fun f => (f.type, f.default)) =
        some (some (.specimen ⟨0⟩), some (.literal "5" .integer ⟨none, 2, 21⟩)) ∧
      kept.document.accepts (.specimen ⟨0⟩) .integer "5" = some false) ∧
    dropped.ok = false ∧ .struct ⟨0⟩ ∈ dropped.document.declarations ∧
      (dropped.document.field? ⟨⟨0⟩, 0⟩).map (fun f => (f.type, f.default)) =
        some (some (.specimen ⟨0⟩), none) := by
  decide +kernel

end Moment

end Grammar

end Idl
