import Idl.Proofs.Course.Arise
import Idl.Proofs.Course.Move

/-!
Classes over a whole session. A name that is known when it is read means something older, so the
parameters of identifiers and specimens could only run in a circle through one whose name had to
wait. Nothing keeps such a name from being bound to a type that leads back to it; and then the way
to the class of the type does not end.
-/

namespace Idl

namespace Document

variable {late : Slot → Prop}

/-- The document between statements, when every slot that is open is late. -/
structure GroundedSoFar (d : Document) (late : Slot → Prop) : Prop where
  grounded : ∀ t, Acc (d.Behind late) t
  unknown : ∀ slot, d.IsOpen slot → late slot

namespace GroundedSoFar

variable {s : Session} {others pending : List Binding}

theorem bind {checks : List Check} {b : Binding} {ws : List Binding} {t : DataType}
    (h : s.document.GroundedSoFar late) (hs : s.document.Sound (b :: ws)) :
    (s.bind checks b t).document.GroundedSoFar late := by
  have hopen := (hs.waiting.slots b.slot).1 List.mem_cons_self
  have hslot := s.slot?_bind checks hopen.isSome (t := t)
  refine ⟨acc_behind_of_late h.grounded fun own hl => ?_, fun own hown => h.unknown own ?_⟩
  · rw [hslot, if_neg]
    rintro rfl
    exact hl (h.unknown _ hopen)
  · rw [IsOpen, hslot] at hown
    split at hown
    · cases hown
    · exact hown

theorem settleAll (h : s.document.GroundedSoFar late) (checks : List Check) (last : Bool)
    (hs : s.document.Sound (others ++ pending)) :
    (s.settleAll checks last pending).1.document.GroundedSoFar late :=
  Session.settleAll_named (I := fun s _ => s.document.GroundedSoFar late) (fun _ h => h)
    (fun hs _ h => h.bind hs) last hs h

end GroundedSoFar

end Document

namespace Grammar

open Document

namespace Moment

variable {settings : Settings} {root : Option SourceId} {tokens : List Token} {m m' : Moment}
  {d : Document}

/-- The document at a moment, or behind the declaration that is read there, before the names
are settled that mean it. -/
inductive Shows (checks : List Check) (m : Moment) : Document → Prop where
  | between : Shows checks m m.document
  | behind {comment : Option Comment} {x : Declaration} {s s' : State}
      (hd : m.Declares comment s) (hp : declaration checks comment s = .ok x s') :
      Shows checks m s'.document

/-- A declaration was read, and the name of this type was left to wait. -/
def LeftToWait (settings : Settings) (root : Option SourceId) (tokens : List Token) (slot : Slot) :
    Prop :=
  ∃ m d, Reached settings root tokens m ∧ m.Shows settings.checks d ∧ d.IsOpen slot

/-- The way behind each type ends, if the types are left out whose names had to wait. -/
def GroundedAt (settings : Settings) (root : Option SourceId) (tokens : List Token)
    (d : Document) : Prop :=
  ∀ t, Acc (d.Behind (LeftToWait settings root tokens)) t

theorem GroundedAt.soFar (hg : GroundedAt settings root tokens m.document)
    (hm : Reached settings root tokens m) :
    m.document.GroundedSoFar (LeftToWait settings root tokens) :=
  ⟨hg, fun _ hslot => ⟨m, _, hm, .between, hslot⟩⟩

theorem GroundedAt.note {s s' : State} (hg : GroundedAt settings root tokens s.document)
    (h : s'.document = s.document.note s'.document.imports s'.document.package) :
    GroundedAt settings root tokens s'.document := by
  rw [h]
  exact acc_behind_of_late hg fun own _ => slot?_note _ _ _ own

theorem Declares.groundedWithin (hm : Reached settings root tokens m)
    (hg : GroundedAt settings root tokens m.document) {comment : Option Comment} {s s' : State}
    (hd : m.Declares comment s) (he : Edits settings.checks s.mark s s') :
    GroundedAt settings root tokens s'.document := by
  have hs := hd.sound hm.sound
  cases hd.state
  exact he.grounded hs.ready hg

/-- A declaration is read, and the names that mean it are bound. -/
theorem Declares.groundedAt (hm : Reached settings root tokens m)
    (hg : GroundedAt settings root tokens m.document) {comment : Option Comment} {s : State}
    (hd : m.Declares comment s) :
    GroundedAt settings root tokens (s.declare settings.checks comment).document := by
  have hs := hd.sound hm.sound
  rcases State.declare_cases hs comment with hr | ⟨x, s', hp, _, heq⟩
  · rw [GroundedAt, hr.document]
    exact hd.groundedWithin hm hg (.refl s)
  · obtain ⟨he, _, hbelow⟩ := After.of_ok (builds_declaration hs.ready comment) hp
    have hs' : State.Sound (waitingIn m.importers)
        { s' with toSession := (s'.toSession.visit settings.checks (.declaration x) false).2 } :=
      (he.ready hs.ready).sound
    have hsofar : (s'.document.register x).GroundedSoFar (LeftToWait settings root tokens) := by
      refine ⟨acc_behind_of_late (hd.groundedWithin hm hg he)
        fun own _ => slot?_register s'.document x own, fun slot hslot => ?_⟩
      exact ⟨m, _, hm, .behind hd hp, (slot?_register s'.document x slot).symm.trans hslot⟩
    have hsettled : (State.register settings.checks x _).document.GroundedSoFar
        (LeftToWait settings root tokens) :=
      State.settled_register (Q := fun d => d.GroundedSoFar _) hs' hbelow
        (fun hs _ h => h.bind hs) hsofar
    rw [heq]
    exact hsettled.grounded

theorem Move.groundedAt (hmove : Move settings m m') (hm : Reached settings root tokens m)
    (hg : GroundedAt settings root tokens m.document) :
    GroundedAt settings root tokens m'.document := by
  cases hmove with
  | declare hd => exact hd.groundedAt hm hg
  | pass hp => exact hg.note hp.notes.document
  | @into levels importers s s' i id text hi ht =>
    have hread : GroundedAt settings root tokens s'.document := by
      rw [hi.reads.document]
      exact hg
    exact hread.note rfl
  | @out levels importer importers atHead s he =>
    have hsofar : s.ended.document.GroundedSoFar (LeftToWait settings root tokens) := by
      rw [s.reads_ended.document]
      exact hg.soFar hm
    have hs' : s.ended.Sound (waitingIn importers ++ importer.pending) :=
      State.Sound.reads hm.sound s.reads_ended
    rw [State.Sound, List.append_assoc] at hs'
    exact (hsofar.settleAll settings.checks false hs').grounded

theorem Reached.groundedAt (hm : Reached settings root tokens m) :
    GroundedAt settings root tokens m.document := by
  induction hm.moves with
  | refl =>
    refine fun t => .intro t fun u ⟨slot, hs, hu, _⟩ => ?_
    cases root <;> cases t <;> cases hs <;> cases hu
  | tail hmoves hmove ih => exact hmove.groundedAt (Moves.steps hmoves) (ih (Moves.steps hmoves))

theorem Arises.groundedAt (hd : Arises settings root tokens d) :
    GroundedAt settings root tokens d := by
  cases hd with
  | between hm => exact hm.groundedAt
  | within hm hd he => exact hd.groundedWithin hm hm.groundedAt he
  | outcome =>
    obtain ⟨m, outcome, hmoves, hconcludes⟩ := Reached.exists_conclusion
      (.refl : Reached settings root tokens (start settings root tokens))
    have hm : Reached settings root tokens m := hmoves.steps
    rw [hm.readTokens_eq hconcludes]
    cases hconcludes with
    | ended hi hend =>
      have hsofar : m.state.ended.document.GroundedSoFar (LeftToWait settings root tokens) := by
        rw [m.state.reads_ended.document]
        exact hm.groundedAt.soFar hm
      have hs : m.state.ended.Sound (waitingIn m.importers) :=
        State.Sound.reads hm.sound m.state.reads_ended
      rw [Session.document_finish]
      exact (hsofar.settleAll settings.checks true hs).grounded
    | halted ha hh => exact hm.groundedAt.note hh.notes.document

/-- In every document of a session the way from a type over the parameters of identifiers and
specimens ends, and then the class of the type is all that can be found on it; or it leads into a
circle, and a name had to wait for one of the parameters in there. -/
theorem classes_end_but_behind_late_names (hd : Arises settings root tokens d) (t : DataType) :
    (d.Grounded t ∧ ∀ classOf : DataType → Option LiteralClass,
        (∀ t, classOf t = d.classStep classOf t) → d.literal? t = some (classOf t)) ∨
      ∃ slot, LeftToWait settings root tokens slot ∧ d.StandsOn t slot ∧ d.Circles slot := by
  rcases grounded_or_circles hd.groundedAt t with h | h
  · exact .inl ⟨h, fun _ hclass => literal?_eq_some_iff.2 (h.resolves hclass)⟩
  · exact .inr h

/-- The specimen `A` has to wait for `B`, and there the way goes on to a builtin. -/
theorem classes_end_but_behind_late_names_forward :
    let d := (({} : Settings).readTokens none (Token.tokenize
      "specimen<B> A \x7b \x7d specimen<integer> B \x7b \x7d")).document
    d.slot? (.specimenParameter ⟨0⟩) = some (some (.specimen ⟨1⟩)) ∧
      d.Grounded (.specimen ⟨0⟩) ∧ d.literal? (.specimen ⟨0⟩) = some (some .integer) := by
  intro d
  have hA : d.slot? (.specimenParameter ⟨0⟩) = some (some (.specimen ⟨1⟩)) := by decide +kernel
  have hB : d.slot? (.specimenParameter ⟨1⟩) = some (some (.builtin .integer)) := by
    decide +kernel
  have hinteger {slot : Slot} (h : d.StandsOn (.builtin .integer) slot) : False := by
    cases h with
    | here hs | there hs => cases hs
  have hbehindB {slot : Slot} (h : d.StandsOn (.specimen ⟨1⟩) slot) :
      slot = .specimenParameter ⟨1⟩ := by
    cases h with
    | here hs => exact (Option.some.inj hs).symm
    | there hs hu h =>
      cases hs
      cases hB.symm.trans hu
      exact (hinteger h).elim
  refine ⟨hA, ?_, by decide +kernel⟩
  rcases classes_end_but_behind_late_names (.outcome : Arises {} none _ d) (.specimen ⟨0⟩) with
    ⟨h, _⟩ | ⟨slot, _, hs, u, hu, hcircle⟩
  · exact h
  · cases hs with
    | here hs =>
      cases hs
      cases hA.symm.trans hu
      cases hbehindB hcircle
    | there hs hv hs' =>
      cases hs
      cases hA.symm.trans hv
      cases hbehindB hs'
      cases hB.symm.trans hu
      exact (hinteger hcircle).elim

/-- A specimen is its own parameter; the session is fine with it, and the way to its class does
not end. -/
theorem specimen_leads_back_to_itself :
    let outcome := ({} : Settings).readTokens none (Token.tokenize "specimen<A> A \x7b \x7d")
    outcome.ok = true ∧ outcome.messages = [] ∧
      outcome.document.declarations = [.specimen ⟨0⟩] ∧
      ¬ outcome.document.Grounded (.specimen ⟨0⟩) := by
  intro outcome
  have hslot : outcome.document.slot? (.specimenParameter ⟨0⟩) = some (some (.specimen ⟨0⟩)) := by
    decide +kernel
  refine ⟨by decide +kernel, by decide +kernel, by decide +kernel, fun h => ?_⟩
  exact h.not_circles (.here rfl) ⟨_, hslot, .here rfl⟩

end Moment

end Grammar

end Idl
