import Idl.Proofs.Grammar.Invariant
import Idl.Proofs.Session.Examination

/-!
What is examined where a declaration is read. What is complete there follows from what can be
read: the enumerations nested in a structure, one after the other, and then the declaration
itself. Each of them is examined by all checks as soon as it is complete, also if the structure
around it breaks off, and nothing else is but what has been taken in before. With other checks
that answer alike the same is read.
-/

namespace Idl.Grammar

/-- What a parser reads, if it can. -/
def result? {α : Type} (p : Parser α) (s : State) : Option α :=
  match p s with
  | .ok a _ => some a
  | .error _ _ => none

namespace State

/-- The nested enumeration that is the next item of a structure, if it can be read. -/
def nested? (id : StructureId) (s : State) : Option EnumerationId :=
  s.skipComments.current.bind fun t =>
    (result? (member id s.leadingComment.1 t) s.skipComments).join

/-- The nested enumerations that can be read among the items of a structure, in this order. -/
def nestedFrom (checks : List Check) (id : StructureId) (s : State) : List EnumerationId :=
  (s.nested? id).toList ++
    match bodyRound "structure" (structureItem checks id) s with
    | .ok (.again ()) s' => if s'.remaining < s.remaining then s'.nestedFrom checks id else []
    | .ok (.done ()) _ | .error _ _ => []
  termination_by s.remaining

end State

/-- Reads a structure up to its items, and looks for the enumerations that are nested in it. -/
def nestedInStructure (checks : List Check) (comment : Option Comment) (modifiers : List Token) :
    Parser (List EnumerationId) := do
  let id ← structureHeader comment modifiers
  openBody "structure"
  return (← get).nestedFrom checks id

/-- Looks for the enumerations that are nested in a declaration. -/
def nestedInDeclaration (checks : List Check) (comment : Option Comment) :
    Parser (List EnumerationId) := do
  let taken ← modifiers declarationModifiers
  match (← get).current.bind fun t => DeclarationForm.ofKeyword? t.text with
  | some .struct => nestedInStructure checks comment taken
  | _ => return []

namespace State

/-- The enumerations nested in a declaration that can be read. -/
def nested (checks : List Check) (comment : Option Comment) (s : State) : List EnumerationId :=
  (result? (nestedInDeclaration checks comment) s).getD []

end State

/-- Nothing is examined or registered behind a session. -/
def Invariant.silent (start : Session) : Invariant where
  state s := start.Silent s.toSession
  token _ := True
  location _ := True
  heading _ := True
  name _ := True

variable {checks : List Check} {s s' s'' : State}

theorem Maintains.silent {α : Type} {p : Parser α} {P : α → Prop}
    (h : Maintains (Invariant.silent s.toSession) p P) :
    After p s (fun _ s' => s.toSession.Silent s'.toSession)
      fun s' => s.toSession.Silent s'.toSession :=
  (h s (.refl _)).mono (fun _ _ h => h.1) fun _ h => h

/-- On the way from one state to another, these nested enumerations are examined by all checks,
and nothing else is. `P` holds of any checks that answer alike in all examinations. -/
def State.ExaminesNested (checks : List Check) (ids : List EnumerationId) (s s' : State)
    (P : List Check → Prop) : Prop :=
  s.toSession.Examines checks (ids.map .enum) s'.toSession P

/-- In a run from a state these nested enumerations are examined by all checks, wherever it ends,
and nothing else is. Checks that answer alike make the same run. -/
def RunExamines {α : Type} (checks : List Check) (p : List Check → Parser α) (s : State)
    (ids : List EnumerationId) : Prop :=
  After (p checks) s
    (fun _ s' => s.ExaminesNested checks ids s' fun others => p others s = p checks s)
    fun s' => s.ExaminesNested checks ids s' fun others => p others s = p checks s

namespace RunExamines

variable {α : Type} {p q : List Check → Parser α} {ids ids' : List EnumerationId}

theorem of_ok {a : α} (hp : p checks s = .ok a s')
    (h : s.ExaminesNested checks ids s' fun others => p others s = .ok a s') :
    RunExamines checks p s ids := by
  unfold RunExamines After
  simp only [hp]
  exact h

theorem of_error {e : Reported} (hp : p checks s = .error e s')
    (h : s.ExaminesNested checks ids s' fun others => p others s = .error e s') :
    RunExamines checks p s ids := by
  unfold RunExamines After
  simp only [hp]
  exact h

/-- A run that goes on where another one has come to. -/
theorem behind {P : List Check → Prop}
    (h : s.ExaminesNested checks ids s' P) (hq : RunExamines checks q s' ids')
    (hp : p checks s = q checks s')
    (hP : ∀ others, P others → q others s' = q checks s' → p others s = q checks s') :
    RunExamines checks p s (ids ++ ids') := by
  have hexamined {s'' : State}
      (h' : s'.ExaminesNested checks ids' s'' fun others => q others s' = q checks s') :
      s.ExaminesNested checks (ids ++ ids') s'' fun others => p others s = q checks s' := by
    rw [State.ExaminesNested, List.map_append]
    exact Session.Examines.trans h h' hP
  cases hrun : q checks s' with
  | ok a s'' =>
    have hdone := hexamined (After.of_ok hq hrun)
    rw [hrun] at hp hdone
    exact of_ok hp hdone
  | error e s'' =>
    have hdone := hexamined (After.of_error hq hrun)
    rw [hrun] at hp hdone
    exact of_error hp hdone

end RunExamines

section Structures

variable {id : StructureId} {comment : Option Comment} {t : Token}

end Structures

section Declarations

variable {comment : Option Comment}

end Declarations

end Idl.Grammar
