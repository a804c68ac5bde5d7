import Idl.Proofs.Course.Ending
import Idl.Proofs.Course.Success

/-!
Complete messages. Whoever reports a message has a value for each hole of its template: the
grammar and the standard checks have, as their messages are ordinary, and so has an import that
fails. A session keeps all that was reported up to its outcome, so what holds of the outcome
holds of every message there ever was.
-/

namespace Idl.Grammar

namespace State

/-- An import that fails is reported with all that its message mentions. -/
theorem Halts.complete {settings : Settings} {s s' : State} (h : s.Halts settings s') :
    ∃ failure : Message, s'.messages = s.messages ++ [failure] ∧ failure.hasOpenHole = false := by
  cases h with
  | missing h ht | tooDeep h ht | closed h ht =>
    refine ⟨_, congrArg (· ++ [_]) ?_, rfl⟩
    exact h.silent.messages.trans (List.append_nil _)

end State

namespace Moment

variable {settings : Settings} {root : Option SourceId} {tokens : List Token} {m : Moment}
  {outcome : Outcome}

/-- The outcome keeps what was reported before. -/
theorem Concludes.messages (h : m.Concludes settings outcome) :
    m.state.messages <+: outcome.messages := by
  cases h with
  | ended hi h =>
    obtain ⟨more, heq, _⟩ :=
      m.state.ended.toSession.messages_finish settings.checks m.state.ended.pending
    have hsettled : m.state.ended.messages <+:
        (m.state.ended.toSession.settled settings.checks m.state.ended.pending).messages :=
      (Session.follows_settleAll settings.checks _ true _).messages
    rw [heq, List.append_assoc]
    exact (m.state.reads_ended.messages.trans hsettled).trans (List.prefix_append _ _)
  | @halted s ha h =>
    obtain ⟨failure, heq, _⟩ := h.complete
    change m.state.messages <+: s.messages
    rw [heq]
    exact List.prefix_append _ _

theorem Reached.messages (h : Reached settings root tokens m) :
    m.state.messages <+: (settings.readTokens root tokens).messages := by
  obtain ⟨m', outcome, hmoves, hconcludes⟩ := h.exists_conclusion
  rw [Reached.readTokens_eq (h.trans hmoves.steps) hconcludes]
  exact (hmoves.messages h.sound).trans hconcludes.messages

section Complete

variable (hc : ∀ check ∈ settings.checks, check ∈ Check.standard)

include hc

theorem speaks_complete :
    ∀ check ∈ settings.checks, check.Speaks fun message => message.hasOpenHole = false :=
  fun check h d subject message hm =>
    (Check.speaks_standard check (hc check h) d subject message hm).closed

theorem Reached.complete (h : Reached settings root tokens m) :
    ∀ message ∈ m.state.messages, message.hasOpenHole = false :=
  h.forall_messages (fun _ h => h.closed) (speaks_complete hc)

theorem Reached.complete_of_concludes (h : Reached settings root tokens m)
    (hconcludes : m.Concludes settings outcome) :
    ∀ message ∈ outcome.messages, message.hasOpenHole = false := by
  cases hconcludes with
  | ended hi hend =>
    have hended := (m.state.tells_ended fun _ h => h.closed).forall (h.complete hc)
    exact Session.forall_messages_finish _ _ (fun _ h => h.closed) (speaks_complete hc) hended
  | @halted s ha hhalts =>
    obtain ⟨failure, heq, hclosed⟩ := hhalts.complete
    intro message hmem
    change message ∈ s.messages at hmem
    rw [heq, List.mem_append, List.mem_singleton] at hmem
    rcases hmem with hmem | rfl
    · exact h.complete hc message hmem
    · exact hclosed

end Complete

/-- With the standard checks, each message that is reported in a session has a value for every
hole of its template, and stays in the session up to its outcome. So has the message about a
root that cannot be read. -/
theorem messages_are_complete (hc : ∀ check ∈ settings.checks, check ∈ Check.standard) :
    (∀ root text,
      (∀ message ∈ (settings.readText root text).messages, message.hasOpenHole = false) ∧
      ∀ m, Reached settings root (Token.tokenize text) m →
        m.state.messages <+: (settings.readText root text).messages) ∧
    ∀ root, ∀ message ∈ (settings.readSource root).messages, message.hasOpenHole = false := by
  have htext (root : Option SourceId) (text : String) :
      ∀ message ∈ (settings.readText root text).messages, message.hasOpenHole = false := by
    obtain ⟨m, outcome, hmoves, hconcludes⟩ := Reached.exists_conclusion
      (.refl : Reached settings root (Token.tokenize text) _)
    have hm : Reached settings root (Token.tokenize text) m := hmoves.steps
    rw [Settings.readText, hm.readTokens_eq hconcludes]
    exact hm.complete_of_concludes hc hconcludes
  refine ⟨fun root text => ⟨htext root text, fun m hm => hm.messages⟩, fun root => ?_⟩
  unfold Settings.readSource
  split
  · exact htext _ _
  · intro message hmem
    rw [Outcome.unreadable, List.mem_singleton] at hmem
    rw [hmem]
    rfl

/-- The imported source ends too early, and the import behind it is too deep. -/
theorem messages_are_complete_halted :
    let shelf : Shelf :=
      { texts := [("r", "import \x22a\x22; import \x22b\x22;"), ("a", "structure S \x7b A a"),
        ("b", "import \x22c\x22;"), ("c", "")] }
    let settings : Settings := { provider := some shelf.provider, maxImportDepth := 1 }
    let outcome := settings.readSource (SourceId.ofValue "r")
    outcome.messages.map (·.kind) =
        [.expectSemicolon, .unexpectedEndOfInput, .importDepthExceeded] ∧
      (∀ message ∈ outcome.messages, message.hasOpenHole = false) ∧
      ∀ message ∈ (settings.readSource (SourceId.ofValue "q")).messages,
        message.hasOpenHole = false := by
  intro shelf settings outcome
  have hchecks : ∀ check ∈ settings.checks, check ∈ Check.standard := fun _ h => h
  have hall := (messages_are_complete hchecks).2
  exact ⟨by decide +kernel, hall (SourceId.ofValue "r"), hall (SourceId.ofValue "q")⟩

end Moment

end Idl.Grammar
