import Idl.Proofs.Course.Failure
import Idl.Proofs.Course.Grounded
import Idl.Proofs.Course.Nesting

/-!
The reading terminates. No round of a body or of a source reads back, and one behind which another
follows has read a token, however broken the source is. So a repetition ends as it would if nobody
asked whether its rounds read on. What a round reads in between starts behind a token as well: the
argument of a template, and the body of a construct inside of another one. What need not end is the
check of a default, and only where a parameter that had to wait leads back to itself.
-/

namespace Idl.Grammar

section Bodies

/-- An item that starts in the state `s` has opened a body of its own, whose items are read from
the state `s'` on. -/
inductive Opens (s : State) : Site → Site → State → Prop where
  | enumeration {id : StructureId} {e : EnumerationId} {comment : Option Comment}
      {taken : List Token} {s₁ s₂ s' : State} (ht : modifiers memberModifiers s = .ok taken s₁)
      (hh : enumerationHeader comment taken (some id) s₁ = .ok e s₂)
      (ho : openBody "enumeration" s₂ = .ok () s') : Opens s (.struct id) (.enumeration e) s'
  | method {id : InterfaceId} {comment : Option Comment} {position : Nat} {s' : State}
      (hh : methodHeader id comment s = .ok position s') :
      Opens s (.interface id) (.method id position) s'

theorem Opens.remaining_lt {s s' : State} {site inner : Site} (h : Opens s site inner s') :
    s'.remaining < s.remaining := by
  cases h with
  | @enumeration _ _ _ _ s₁ s₂ _ ht hh ho =>
    have hmodifiers : s₁.remaining ≤ s.remaining :=
      (After.of_ok ((brief_modifiers _).forward s) ht).length_le
    have hheader : s₂.remaining < s₁.remaining :=
      After.of_ok ((takes_enumerationHeader _ _ _).readsOn s₁) hh
    have hopen : s'.remaining ≤ s₂.remaining :=
      (After.of_ok ((brief_openBody _).forward s₂) ho).length_le
    omega
  | method hh => exact After.of_ok (readsOn_methodHeader _ _ s) hh

end Bodies

section Types

theorem progresses_typeNameRound (classifier : String) : Progresses (typeNameRound classifier) :=
  progresses_of_isRound (isRound_typeNameRound classifier)

theorem progresses_templateRound (classifier : String) : Progresses (templateRound classifier) :=
  progresses_of_isRound (isRound_templateRound classifier)

end Types

section Sources

/-- How an import is read in between does not matter: the importer goes on behind it. -/
theorem progresses_statementRound (settings : Settings) (read : SourceReader Unit) :
    Progresses (statementRound settings read) := by
  intro atHead s
  unfold After
  rcases (⟨0, [], atHead, s⟩ : Moment).next settings with
    hd | hp | @⟨i, s', id, text, ha, hi, hf⟩ | ⟨ha, hh⟩ | he
  · rw [hd.statementRound_eq settings read]
    refine ⟨?_, fun _ _ => hd.remaining_lt settings.checks⟩
    rename_i comment s₁
    have htells : s₁.Tells (fun _ => True) (s₁.declare settings.checks comment) :=
      tells_declare (fun _ _ => trivial) (Check.forall_speaks _) comment s₁
    cases hd.state
    exact htells.rest.trans (State.reads_skipComments s).rest
  · rw [hp.statementRound_eq read]
    exact ⟨hp.notes.rest, fun _ _ => hp.remaining_lt⟩
  · cases ha
    obtain ⟨t, hc, ht⟩ := hi.first
    rw [Moment.statementRound_fresh read hc ht hi.read hf]
    cases read ((s'.takeIn i id).enter (s'.sources.register id).1 text) with
    | ok _ inner => exact ⟨hi.reads.rest, fun _ _ => hi.remaining_lt⟩
    | error _ inner => exact hi.reads.rest
  · cases ha
    rw [hh.statementRound_eq read]
    exact hh.notes.rest
  · rw [State.statementRound_ended he read atHead]
    exact ⟨(State.reads_ended s).rest, nofun⟩

end Sources

/-- A session comes to its outcome, unless a parameter that had to wait leads back to itself. -/
theorem Moment.exists_circle_of_unanswered {settings : Settings} {root : Option SourceId}
    {tokens : List Token} (h : (settings.readTokens root tokens).answer? = none) :
    ∃ slot, LeftToWait settings root tokens slot ∧
      (settings.readTokens root tokens).document.Circles slot := by
  have hendless : (settings.readTokens root tokens).endless = true := by
    rw [Outcome.answer?] at h
    split at h
    · assumption
    · cases h
  refine Classical.byContradiction fun hnone => ?_
  have hdecided : (settings.readTokens root tokens).document.Decided := by
    refine Document.decided_iff.2 fun t => ?_
    refine (Document.grounded_or_circles (Arises.groundedAt .outcome) t).resolve_right ?_
    rintro ⟨slot, hwaited, _, hcircles⟩
    exact hnone ⟨slot, hwaited, hcircles⟩
  cases (endless_of_decided hdecided).symm.trans hendless

/-- The repetitions of bodies, of types and of sources end by themselves, a body inside of another
starts behind a token, and no routine reads back. Imports nest no deeper than the settings allow,
which is not for want of levels, and any course of a session comes to its end. There it has an
outcome, unless a parameter whose name had to wait leads back to itself: then the check of a
default that asks for the class of such a type never comes back. -/
theorem sessions_terminate (settings : Settings) (root : Option SourceId) (tokens : List Token) :
    (∀ site : Site, Terminates fun _ : Unit =>
      bodyRound site.statement (site.item settings.checks)) ∧
    (∀ read, Terminates (statementRound settings read)) ∧
    (∀ classifier, Terminates (typeNameRound classifier) ∧
      Terminates (templateRound classifier)) ∧
    (∀ s site inner s', Opens s site inner s' → s'.remaining < s.remaining) ∧
    (∀ {α : Type} {p : Parser α}, Routine settings.checks p → Forward p) ∧
    (∀ m, Moment.Comes settings root tokens m →
      m.importers.length ≤ settings.maxImportDepth + 1 ∧
      ((∃ m', Moment.Goes settings m m') ∨
        ∃ outcome, m.Concludes settings outcome ∧ settings.readTokens root tokens = outcome)) ∧
    Acc (fun m' m => Moment.Goes settings m m') (.start settings root tokens) ∧
    ((settings.readTokens root tokens).answer? = none →
      ∃ slot, Moment.LeftToWait settings root tokens slot ∧
        (settings.readTokens root tokens).document.Circles slot) := by
  refine ⟨fun site => ?_, fun read => ?_, fun classifier => ⟨?_, ?_⟩, fun _ _ _ _ h => ?_,
    Routine.forward, fun m hm => ⟨?_, ?_⟩, ?_, Moment.exists_circle_of_unanswered⟩
  · exact (progresses_bodyRound (site.itemReadsOn settings.checks) site.statement).terminates
  · exact (progresses_statementRound settings read).terminates
  · exact (progresses_typeNameRound classifier).terminates
  · exact (progresses_templateRound classifier).terminates
  · exact h.remaining_lt
  · exact hm.reached.2.length_le
  · exact hm.goes_or_concludes
  · exact (Moment.bounded_start settings root tokens).acc

/-- A specimen is its own parameter, and the default of a field of this type is checked. -/
theorem default_of_circle_is_never_checked :
    let settings : Settings := {}
    (settings.readText none "specimen<A> A \x7b \x7d structure S \x7b A f = 5; \x7d").answer? =
      none := by
  have hendless : (({} : Settings).readText none
      "specimen<A> A \x7b \x7d structure S \x7b A f = 5; \x7d").endless = true := by
    decide +kernel
  intro settings
  rw [Outcome.answer?, if_pos hendless]

end Idl.Grammar
