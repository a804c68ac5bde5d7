import Idl.Proofs.Course.Ending
import Idl.Proofs.Document.Core

/-!
Names and slots over a whole session. Whatever is read, exactly one name waits for each slot
that is open, and a type that was put into a slot stays there. So each slot that is open at the
end of a session is reported once, and without an error no slot is open.
-/

namespace Idl

namespace Grammar.Moment

variable (settings : Settings) (root : Option SourceId) (tokens : List Token)

/-- At every moment exactly one name waits for each open slot, and none for any other one; a
filled slot is never filled again. When the root is read to its end, each name that is left is
reported once, one for each slot that is still open. A session without an error leaves no slot
open, and every instance of a template is finished. -/
theorem names_wait_for_open_slots :
    (∀ m, Reached settings root tokens m →
      m.document.Waiting m.waiting ∧
      ∀ slot t, m.document.slot? slot = some (some t) →
        (∀ m', Steps settings m m' → m'.document.slot? slot = some (some t)) ∧
        (settings.readTokens root tokens).document.slot? slot = some (some t)) ∧
    (∀ s, source settings settings.levels (.root root tokens) = .ok () s →
      (settings.readTokens root tokens).document.Waiting
        (s.toSession.left settings.checks s.pending) ∧
      ∃ more, (settings.readTokens root tokens).messages =
          (s.toSession.settled settings.checks s.pending).messages ++
            (s.toSession.left settings.checks s.pending).map Binding.unresolved ++ more ∧
        (s.toSession.left settings.checks s.pending ≠ [] → more = [])) ∧
    ((settings.readTokens root tokens).ok = true →
      (∀ slot, ¬ (settings.readTokens root tokens).document.IsOpen slot) ∧
      ∀ id : TemplateId, id.index < (settings.readTokens root tokens).document.templates.size →
        (settings.readTokens root tokens).document.isFinished (.template id) = true) := by
  refine ⟨fun m hm => ⟨hm.sound.waiting, fun slot t hslot => ⟨fun m' h => ?_, ?_⟩⟩,
    fun s hs => ?_, fun hok => ?_⟩
  · exact ((Steps.turns h hm.sound).grows hm.sound).filled slot t hslot
  · obtain ⟨a, ha, hd, _⟩ := hm.turns_outcome
    rw [hd]
    exact (ha.grows hm.sound).filled slot t hslot
  · simp only [Settings.readTokens, hs]
    rw [Session.document_finish]
    exact ⟨(sound_settled hs).waiting, s.toSession.messages_finish settings.checks s.pending⟩
  · unfold Settings.readTokens at hok ⊢
    cases hs : source settings settings.levels (.root root tokens) with
    | error e s =>
      rw [hs] at hok
      cases hok
    | ok u s =>
      rw [hs] at hok
      have hleft := s.toSession.left_eq_nil_of_ok settings.checks s.pending hok
      have hsound := sound_settled hs
      rw [hleft] at hsound
      simp only [Session.document_finish]
      have hopen (slot : Slot) :
          ¬ (s.toSession.settled settings.checks s.pending).document.IsOpen slot := by
        rw [← hsound.waiting.slots]
        exact List.not_mem_nil
      exact ⟨hopen, fun id hid => Document.isFinished_of_linked hsound.linked hopen hid⟩

end Grammar.Moment

end Idl
