import Idl.Document.Instance
import Idl.Document.Fields
import Idl.Message

/-!
Checks of finished nodes. A check looks at one subject of a document, a declaration or the
document as a whole, and passes it or not. Every check sees every subject; one that a check has
nothing to say about passes.
-/

namespace Idl

inductive Subject where
  | declaration (x : Declaration)
  | document
  deriving DecidableEq, Repr, Inhabited

structure Verdict where
  passed : Bool := true
  messages : List Message := []
  deriving DecidableEq, Repr, Inhabited

namespace Verdict

/-- Passed unless one of the messages is an error. -/
def ofMessages (messages : List Message) : Verdict :=
  ⟨!Message.hasError messages, messages⟩

/-- Both verdicts, the messages of the first in front. -/
def and (a b : Verdict) : Verdict :=
  ⟨a.passed && b.passed, a.messages ++ b.messages⟩

theorem and_assoc (a b c : Verdict) : (a.and b).and c = a.and (b.and c) := by
  simp [and, Bool.and_assoc]

end Verdict

structure Check where
  run : Document → Subject → Verdict
  /-- Whether the verdict hangs on types that may become known after the subject is finished. -/
  late : Bool := false

/-- What checks have said of a subject, and the places of those that were called, in turn. -/
structure Hearing where
  verdict : Verdict := {}
  called : List Nat := []
  deriving DecidableEq, Repr, Inhabited

namespace Check

/-- The verdict of all checks in turn; one that fails does not stop the others. -/
def runAll (checks : List Check) (d : Document) (subject : Subject) : Verdict :=
  (checks.map fun check => check.run d subject).foldl Verdict.and {}

theorem runAll_passed_iff (checks : List Check) (d : Document) (subject : Subject) :
    (runAll checks d subject).passed = true ↔
      ∀ check ∈ checks, (check.run d subject).passed = true := by
  have general : ∀ (verdicts : List Verdict) (start : Verdict),
      (verdicts.foldl Verdict.and start).passed = true ↔
        start.passed = true ∧ ∀ v ∈ verdicts, v.passed = true := by
    intro verdicts
    induction verdicts with
    | nil => simp
    | cons v rest ih =>
      intro start
      simp [List.foldl_cons, ih, Verdict.and, and_assoc]
  simp [runAll, general]

/-- Every check is heard, also behind one that fails. -/
theorem messages_runAll (checks : List Check) (d : Document) (subject : Subject) :
    (runAll checks d subject).messages =
      checks.flatMap fun check => (check.run d subject).messages := by
  have general : ∀ (verdicts : List Verdict) (start : Verdict),
      (verdicts.foldl Verdict.and start).messages =
        start.messages ++ verdicts.flatMap Verdict.messages := by
    intro verdicts
    induction verdicts with
    | nil => simp
    | cons v rest ih =>
      intro start
      simp [List.foldl_cons, ih, Verdict.and]
  simp [runAll, general, List.flatMap_map]

/-- Checks with the places at which they stand; the late ones only, if `late`. -/
def entries (checks : List Check) (late : Bool) : List (Check × Nat) :=
  if late then checks.zipIdx.filter fun (check, _) => check.late else checks.zipIdx

/-- The checks that are called. -/
def called (checks : List Check) (late : Bool) : List Check :=
  if late then checks.filter (·.late) else checks

theorem mem_of_mem_called {checks : List Check} {late : Bool} {check : Check}
    (h : check ∈ called checks late) : check ∈ checks := by
  unfold called at h
  split at h
  · exact (List.mem_filter.1 h).1
  · exact h

/-- Calls checks on a subject in turn and notes the place of each. -/
def hear (entries : List (Check × Nat)) (d : Document) (subject : Subject) : Hearing :=
  entries.foldl
    (fun heard (check, place) => ⟨heard.verdict.and (check.run d subject), heard.called ++ [place]⟩)
    {}

theorem map_fst_entries (checks : List Check) (late : Bool) :
    (entries checks late).map (·.1) = called checks late := by
  cases late with
  | false => exact List.zipIdx_map_fst 0 checks
  | true =>
    have hfilter : (checks.zipIdx.map (·.1)).filter (·.late) =
        (checks.zipIdx.filter fun entry => entry.1.late).map (·.1) := List.filter_map
    rw [List.zipIdx_map_fst] at hfilter
    exact hfilter.symm

/-- Each check is called once, whatever the others say. -/
theorem hear_eq (entries : List (Check × Nat)) (d : Document) (subject : Subject) :
    hear entries d subject = ⟨runAll (entries.map (·.1)) d subject, entries.map (·.2)⟩ := by
  have general : ∀ (entries : List (Check × Nat)) (start : Hearing),
      entries.foldl (fun heard (check, place) =>
          ⟨heard.verdict.and (check.run d subject), heard.called ++ [place]⟩) start =
        ⟨(entries.map fun entry => entry.1.run d subject).foldl Verdict.and start.verdict,
          start.called ++ entries.map (·.2)⟩ := by
    intro entries
    induction entries with
    | nil => simp
    | cons entry rest ih =>
      intro start
      simp [List.foldl_cons, ih]
  simp [hear, runAll, general, Function.comp_def]

end Check

end Idl
