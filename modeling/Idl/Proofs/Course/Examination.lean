import Idl.Proofs.Course.Move
import Idl.Proofs.Grammar.Examination

/-!
The examinations of a whole session. Whatever can be read in a statement is examined by all
checks when it is complete, whichever source it stands in and whatever becomes of it. Behind that
only late checks look at what has been taken in, and at the end all checks look at the document,
unless an import has failed or an error was reported. No check has a say anywhere else: with
checks that answer alike in the examinations the session comes to the same.
-/

namespace Idl

namespace Session

variable (s : Session) (checks : List Check) (pending : List Binding)

variable {s checks pending}

end Session

namespace Grammar

open Examination

namespace Moment

variable {settings : Settings} {root : Option SourceId} {tokens : List Token} {m m' : Moment}

section Completed

variable {checks : List Check}

end Completed

/-- An import fails at a moment, and stops everything. -/
def Fails (settings : Settings) (m : Moment) : Prop :=
  m.atHead = true ∧ ∃ s, m.state.Halts settings s

end Moment

end Grammar

end Idl
