import Idl.Proofs.Course.Moment

/-!
The end of a session. What becomes of a moment up to the outcome is a number of turns as well,
whether the root is read to its end or an import stops everything. At the end of a root that was
read, the names that wait are looked up for the last time, and those that are left are reported.
-/

namespace Idl

open Grammar

namespace Session

variable (s : Session) (checks : List Check) (pending : List Binding)

def settled : Session :=
  (s.settleAll checks true pending).1

def left : List Binding :=
  (s.settleAll checks true pending).2

/-- The session when the names that were never declared have been reported. -/
def reported : Session :=
  (s.settled checks pending).reportUnresolved (s.left checks pending)

theorem finish_eq : s.finish checks pending =
    if Message.hasError (s.reported checks pending).messages then
      .ofSession (s.reported checks pending) false
    else
      .ofSession ((s.reported checks pending).visit checks .document false).2
        ((s.reported checks pending).visit checks .document false).1 :=
  rfl

/-- Where nothing waits and nothing was wrong, the document is what is left. -/
theorem finish_nil {s : Session} {checks : List Check}
    (hclean : Message.hasError s.messages = false)
    (hverdict : Check.runAll checks s.document .document = {}) :
    (s.finish checks []).document = s.document ∧ (s.finish checks []).messages = s.messages ∧
      (s.finish checks []).ok = true := by
  have hreported : s.reported checks [] = s := by
    change s.reportAll [] = s
    rw [reportAll, List.append_nil]
  have hpassed : (s.visit checks .document false).1 = true :=
    (s.visit_passed checks .document false).trans (congrArg Verdict.passed hverdict)
  have hmessages : (s.visit checks .document false).2.messages = s.messages := by
    rw [visit_eq]
    change s.messages ++ (Check.runAll checks s.document .document).messages = s.messages
    rw [hverdict, List.append_nil]
  rw [finish_eq, hreported, if_neg (ne_true_of_eq_false hclean)]
  exact ⟨rfl, hmessages, hpassed⟩

theorem hasError_reported (h : s.left checks pending ≠ []) :
    Message.hasError (s.reported checks pending).messages = true := by
  obtain ⟨b, hb⟩ := List.exists_mem_of_ne_nil _ h
  refine List.any_eq_true.2 ⟨b.unresolved, ?_, rfl⟩
  exact List.mem_append_right _ (List.mem_map_of_mem hb)

theorem document_finish :
    (s.finish checks pending).document = (s.settled checks pending).document := by
  rw [finish_eq]
  split <;> rfl

theorem endless_finish :
    (s.finish checks pending).endless = (s.settled checks pending).endless := by
  rw [finish_eq]
  split <;> rfl

/-- The checks of the whole document only add to a session in which nothing was wrong. -/
theorem messages_finish : ∃ more, (s.finish checks pending).messages =
    (s.settled checks pending).messages ++ (s.left checks pending).map Binding.unresolved ++ more ∧
      (s.left checks pending ≠ [] → more = []) := by
  rw [finish_eq]
  split
  · exact ⟨[], (List.append_nil _).symm, fun _ => rfl⟩
  · rename_i h
    exact ⟨_, rfl, fun hleft => absurd (s.hasError_reported checks pending hleft) h⟩

/-- A session with a name that was never declared has failed. -/
theorem left_eq_nil_of_ok (h : (s.finish checks pending).ok = true) :
    s.left checks pending = [] := by
  refine Decidable.byContradiction fun hleft => ?_
  rw [finish_eq, if_pos (s.hasError_reported checks pending hleft)] at h
  cases h

end Session

namespace Grammar

/-- The state a source ends in, whether it was read or an import has stopped everything. -/
def ending : EStateM.Result Stopped State Unit → State
  | .ok _ s => s
  | .error _ s => s

theorem State.turns_settled {checks : List Check} {s : State} (hs : s.Sound []) :
    Turns checks (s.situation [])
      ⟨s.toSession.settled checks s.pending, s.toSession.left checks s.pending⟩ :=
  @turns_settleAll checks s.toSession [] s.pending true hs

theorem After.ending {p : SourceReader Unit} {s : State} {P : State → Prop}
    (h : After p s (fun _ s' => P s') P) : P (ending (p s)) := by
  cases hp : p s with
  | ok a s' => exact h.of_ok hp
  | error e s' => exact h.of_error hp

namespace Moment

variable {settings : Settings} {root : Option SourceId} {tokens : List Token} {m : Moment}

theorem turns_unwind (importers : List Reading) (levels : Nat)
    (result : EStateM.Result Stopped State Unit)
    (hs : (ending result).Sound (waitingIn importers)) :
    Turns settings.checks ((ending result).situation (waitingIn importers))
      ((ending (unwind settings levels importers result)).situation []) := by
  induction importers generalizing levels result with
  | nil => exact .refl _
  | cons importer rest ih =>
    cases result with
    | ok a inner =>
      let back := State.resume settings.checks importer inner
      have hresume : Turns settings.checks (inner.situation (waitingIn (importer :: rest)))
          (back.situation (waitingIn rest)) := State.turns_resume hs
      have hsource := proceeds_source settings (levels + 2) (waitingIn rest) back
        (hresume.sound hs)
      have hread := hresume.trans hsource.ending
      exact hread.trans (ih (levels + 1) _ (hread.sound hs))
    | error e inner =>
      let back := State.leave ⟨inner.toSession, importer⟩ inner
      have hleave : back.situation (waitingIn rest) =
          inner.situation (waitingIn (importer :: rest)) := State.situation_leave _ inner
      have hback : (back.situation (waitingIn rest)).Sound := hleave ▸ hs
      have hrest := ih (levels + 1) (.error e back) hback
      exact hleave ▸ hrest

theorem turns_run (hs : m.situation.Sound) :
    Turns settings.checks m.situation ((ending (m.run settings)).situation []) := by
  have hread : After (iterate (statementRound settings (source settings m.levels)) m.atHead)
      m.state _ _ := proceeds_iterate (fun atHead =>
    proceeds_statementRound settings (proceeds_source settings m.levels) atHead) m.atHead
      (waitingIn m.importers) m.state hs
  exact hread.ending.trans (turns_unwind m.importers m.levels _ (hread.ending.sound hs))

/-- After the last look-up of a root that was read, the names that are left belong to the open
slots. -/
theorem sound_settled {s : State}
    (hs : source settings settings.levels (.root root tokens) = .ok () s) :
    (s.toSession.settled settings.checks s.pending).document.Sound
      (s.toSession.left settings.checks s.pending) := by
  have hstart := sound_start settings root tokens
  have hrun : Turns settings.checks (start settings root tokens).situation
      ((ending ((start settings root tokens).run settings)).situation []) := turns_run hstart
  have hsource : (start settings root tokens).run settings = .ok () s := hs
  rw [hsource] at hrun
  exact (hrun.trans (State.turns_settled (hrun.sound hstart))).sound hstart

/-- From every moment that is reached, turns lead to the document of the outcome. -/
theorem Reached.turns_outcome (h : Reached settings root tokens m) :
    ∃ a : Situation, Turns settings.checks m.situation a ∧
      (settings.readTokens root tokens).document = a.session.document ∧
      (settings.readTokens root tokens).endless = a.session.endless := by
  have hrun : Turns settings.checks m.situation ((ending (m.run settings)).situation []) :=
    turns_run h.sound
  rw [h.run_eq] at hrun
  unfold Settings.readTokens
  cases hr : source settings settings.levels (.root root tokens) with
  | ok a s =>
    rw [hr] at hrun
    have hsettled := hrun.trans (State.turns_settled (hrun.sound h.sound))
    exact ⟨_, hsettled, s.toSession.document_finish settings.checks s.pending,
      s.toSession.endless_finish settings.checks s.pending⟩
  | error e s =>
    rw [hr] at hrun
    exact ⟨_, hrun, rfl, rfl⟩

/-- Where the class of each type is found in the end, the session has come to its outcome. -/
theorem endless_of_decided (h : (settings.readTokens root tokens).document.Decided) :
    (settings.readTokens root tokens).endless = false := by
  obtain ⟨a, hturns, hdocument, hendless⟩ :=
    Reached.turns_outcome (.refl : Reached settings root tokens (start settings root tokens))
  rw [hdocument] at h
  rw [hendless, (hturns.decided (sound_start settings root tokens) h).2]
  cases root <;> rfl

end Moment

end Grammar

end Idl
