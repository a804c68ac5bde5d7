import Idl.Proofs.Check.Standard
import Idl.Proofs.Document.Bare
import Idl.Proofs.Session.Report

/-!
Checks that do not look at comments, and do not warn of them either. Every standard check is one.
-/

namespace Idl

namespace Message

/-- A warning of a comment that belongs to nothing. -/
def isMisplaced (m : Message) : Bool :=
  m.kind == .misplacedComment && m.severity == .warning

theorem isMisplaced_of_error {m : Message} (h : m.severity = .error) : m.isMisplaced = false := by
  rw [isMisplaced, h]
  exact Bool.and_false _

/-- Among other messages there is an error as often as among all of them. -/
theorem hasError_filter (messages : List Message) :
    hasError (messages.filter (!·.isMisplaced)) = hasError messages := by
  rw [hasError, hasError, List.any_filter]
  congr 1
  funext m
  cases herror : m.severity == .error with
  | false => exact Bool.and_false _
  | true => rw [isMisplaced_of_error (beq_iff_eq.1 herror)]; rfl

end Message

namespace Check

/-- A check whose verdict is the same for the document without its comments, and that leaves it
to others to warn of a comment. -/
structure Blind (check : Check) : Prop where
  run_bare : ∀ d subject, check.run d.bare subject = check.run d subject
  speaks : check.Speaks fun m => m.isMisplaced = false

theorem runAll_bare {checks : List Check} (h : ∀ check ∈ checks, check.Blind) (d : Document)
    (subject : Subject) : runAll checks d.bare subject = runAll checks d subject := by
  rw [runAll, runAll, List.map_congr_left fun check hcheck => (h check hcheck).run_bare d subject]

theorem forall_runAll_isMisplaced {checks : List Check} (h : ∀ check ∈ checks, check.Blind)
    (d : Document) (subject : Subject) :
    ∀ m ∈ (runAll checks d subject).messages, m.isMisplaced = false :=
  forall_runAll fun check hcheck => (h check hcheck).speaks d subject

theorem parameter?_bare (target : Target) (d : Document) (subject : Subject) :
    target.parameter? d.bare subject = target.parameter? d subject := by
  cases subject with
  | document => rfl
  | declaration x =>
    cases x <;> cases target <;>
      simp only [Target.parameter?, Document.bare, Arena.get?_map, Option.map_map] <;> rfl

theorem blind_parameterType (target : Target) (allowed : List Builtin) :
    (parameterType target allowed).Blind where
  run_bare d subject := by
    simp only [parameterType, parameter?_bare, Document.typeName_bare]
  speaks d subject m hm := by
    simp only [parameterType] at hm
    split at hm
    · split at hm
      · cases hm
      · rw [List.mem_singleton.1 hm]; rfl
    · cases hm

theorem structure?_bare (d : Document) (subject : Subject) :
    structure? d.bare subject = (structure? d subject).map Structure.bare := by
  cases subject with
  | document => rfl
  | declaration x => cases x <;> simp only [structure?, Document.bare, Arena.get?_map] <;> rfl

/-- What is wrong with an item of a list depends on the item and on those in front of it. -/
theorem flatMap_zipIdx_map {α : Type} {g : α → α} {faults faults' : List α → α → List Message}
    (h : ∀ before a, faults (before.map g) (g a) = faults' before a) (items : List α) :
    ((items.map g).zipIdx.flatMap fun (a, position) =>
        faults ((items.map g).take position) a) =
      items.zipIdx.flatMap fun (a, position) => faults' (items.take position) a := by
  simp only [List.zipIdx_map, List.flatMap_map, ← List.map_take]
  exact congrArg (items.zipIdx.flatMap ·) (funext fun (a, position) => h _ a)

theorem memberFaults_bare (d : Document) (s : Structure) (before : List Member) (m : Member) :
    memberFaults d.bare s.bare (before.map Member.bare) m.bare = memberFaults d s before m := by
  have hdeclared (name : String) :
      ((before.map Member.bare).any fun b => b.field?.any (·.name.value == name)) =
        before.any fun b => b.field?.any (·.name.value == name) := by
    simp only [List.any_map, Function.comp_def, Member.field?_bare, Option.any_map]
    rfl
  have hidentified : ((before.map Member.bare).any (·.identification?.isSome)) =
      before.any (·.identification?.isSome) := by
    simp only [List.any_map, Function.comp_def, Member.isSome_identification?_bare]
  have hoperator (action : Operator.Action) :
      ((before.map Member.bare).any (·.operator?.any (·.action == action))) =
        before.any (·.operator?.any (·.action == action)) := by
    simp only [List.any_map, Function.comp_def, Member.any_operator?_bare]
  cases m with
  | field f =>
    simp only [memberFaults, Member.bare, Field.bare, Structure.bare, hdeclared,
      Document.findField?_bare, Document.nameText_bare]
  | override f overridden => simp only [memberFaults, Member.bare, Field.bare, hdeclared]
  | identification i => simp only [memberFaults, Member.bare, Structure.bare, hidentified]
  | operator o => simp only [memberFaults, Member.bare, hoperator]
  | alter _ | enumeration _ | upcopy _ => rfl

theorem blind_structureFields : structureFields.Blind where
  run_bare d subject := by
    simp only [structureFields, structure?_bare]
    cases structure? d subject with
    | none => rfl
    | some s =>
      exact congrArg Verdict.ofMessages (flatMap_zipIdx_map (memberFaults_bare d s) s.members)
  speaks d subject m hm := by
    simp only [structureFields] at hm
    split at hm
    · obtain ⟨_, _, hm⟩ := List.mem_flatMap.1 hm
      exact Message.isMisplaced_of_error (severity_of_mem_memberFaults hm)
    · cases hm

theorem isSharable_bare (d : Document) (t : DataType) :
    isSharable d.bare t = isSharable d t := by
  have hhas (id : StructureId) : (d.bare.structures.get? id).any (·.has .sharable) =
      (d.structures.get? id).any (·.has .sharable) := by
    simp only [Document.bare, Arena.get?_map, Option.any_map]
    rfl
  simp only [isSharable, Document.layers_bare, hhas]

theorem sharableFaults_bare (d : Document) (s : Structure) :
    sharableFaults d.bare s.bare = sharableFaults d s := by
  have hhas (s : Structure) : s.bare.has .sharable = s.has .sharable := rfl
  have hbase : s.bare.base.bind d.bare.structures.get? =
      (s.base.bind d.structures.get?).map Structure.bare := by
    change s.base.bind (d.structures.map Structure.bare).get? = _
    cases s.base with
    | none => rfl
    | some base => exact Arena.get?_map Structure.bare d.structures base
  simp only [sharableFaults, hhas, hbase, Structure.fields_bare, List.filterMap_map,
    Function.comp_def, isSharable_bare, Document.typeName_bare, Field.bare]
  cases s.base.bind d.structures.get? <;> rfl

theorem blind_structureSharable : structureSharable.Blind where
  run_bare d subject := by
    simp only [structureSharable, structure?_bare]
    cases structure? d subject with
    | none => rfl
    | some s => exact congrArg Verdict.ofMessages (sharableFaults_bare d s)
  speaks d subject m hm := by
    simp only [structureSharable] at hm
    split at hm
    · exact Message.isMisplaced_of_error (severity_of_mem_sharableFaults hm)
    · cases hm

theorem valueFaults_bare (e : Enumeration) (before : List EnumerationValue)
    (v : EnumerationValue) :
    valueFaults e.bare (before.map EnumerationValue.bare) v.bare = valueFaults e before v := by
  have hbefore : ((before.map EnumerationValue.bare).any (·.name.value == v.name.value)) =
      before.any (·.name.value == v.name.value) := by
    simp only [List.any_map]
    rfl
  simp only [valueFaults, EnumerationValue.bare, hbefore]
  rfl

theorem isMisplaced_of_mem_valueFaults {e : Enumeration} {before : List EnumerationValue}
    {v : EnumerationValue} {m : Message} (hm : m ∈ valueFaults e before v) :
    m.isMisplaced = false := by
  rcases List.mem_append.1 hm with hm | hm
  all_goals
    split at hm
    · rw [List.mem_singleton.1 hm]; rfl
    · cases hm

theorem blind_enumerationValues : enumerationValues.Blind where
  run_bare d subject := by
    cases subject with
    | document => rfl
    | declaration x =>
      cases x with
      | enum id =>
        simp only [enumerationValues, Document.bare, Arena.get?_map]
        cases d.enumerations.get? id with
        | none => rfl
        | some e =>
          exact congrArg Verdict.ofMessages (flatMap_zipIdx_map (valueFaults_bare e) e.values)
      | _ => rfl
  speaks d subject m hm := by
    simp only [enumerationValues] at hm
    split at hm
    · split at hm
      · obtain ⟨_, _, hm⟩ := List.mem_flatMap.1 hm
        exact isMisplaced_of_mem_valueFaults hm
      · cases hm
    · cases hm

theorem blind_duplicateDeclaration : duplicateDeclaration.Blind where
  run_bare d subject := by
    cases subject with
    | declaration _ => rfl
    | document =>
      have hname (x : Declaration) : qualifiedName d.bare x = qualifiedName d x := by
        simp only [qualifiedName, Document.nameText_bare, Document.package?_bare]
      simp only [duplicateDeclaration, hname, Document.name?_bare]
      rfl
  speaks d subject m hm := by
    simp only [duplicateDeclaration] at hm
    split at hm
    · obtain ⟨_, _, hm⟩ := List.mem_filterMap.1 hm
      split at hm
      · obtain ⟨_, _, rfl⟩ := Option.map_eq_some_iff.1 hm
        rfl
      · cases hm
    · cases hm

theorem blind_standard : ∀ check ∈ standard, check.Blind := by
  intro check hcheck
  simp only [standard, List.mem_cons, List.not_mem_nil, or_false] at hcheck
  rcases hcheck with rfl | rfl | rfl | rfl | rfl | rfl
  · exact blind_parameterType _ _
  · exact blind_parameterType _ _
  · exact blind_structureFields
  · exact blind_structureSharable
  · exact blind_enumerationValues
  · exact blind_duplicateDeclaration

end Check

end Idl
