import Idl.Grammar.Modifier
import Idl.Proofs.Reading.Run

/-!
Modifiers are only read, and what is left of them is only reported.
-/

namespace Idl.Grammar

theorem quiet_modifiers (words : List String) : Quiet (modifiers words) := by
  refine quiet_iterate (fun taken => ?_) _
  refine quiet_get.bind fun s => ?_
  split
  · split
    · exact quiet_advance.bind fun _ => quiet_pure _
    · exact quiet_pure _
  · exact quiet_pure _

theorem after_reportModifiers (modifiers : List Token) (s : State) :
    After (reportModifiers modifiers) s (fun _ s' => s.Reads s') fun _ => False := by
  apply after_modify
  induction modifiers generalizing s with
  | nil => exact State.Reads.refl s
  | cons t rest ih => exact (State.reads_report s _).trans (ih _)

theorem quiet_reportModifiers (modifiers : List Token) : Quiet (reportModifiers modifiers) :=
  fun s => (after_reportModifiers modifiers s).mono (fun _ _ hr => hr) fun _ h => h.elim

end Idl.Grammar
