import Idl.Check.Basic
import Idl.Session.Binding
import Idl.Source.Registry

/-!
The state of a session that all its sources share: the document, the messages, the registered
sources, and the calls of the checks. To bind a name fills its slot and runs the checks that
hang on the slot again; a declaration that fails now is withdrawn.
-/

namespace Idl

/-- A call of a check, which stands at this place among the checks; `late` when only those are
called that hang on late types. -/
structure Call where
  check : Nat
  subject : Subject
  name : String
  late : Bool
  deriving DecidableEq, Repr, Inhabited

structure Session where
  document : Document := {}
  messages : List Message := []
  sources : Registry := {}
  calls : List Call := []
  /-- Whether a default was to be checked and the way to the literal class of its type does not
  end. The check never comes back then; what is noted behind it is what would follow if the
  default were wrong. -/
  endless : Bool := false
  deriving Repr, Inhabited

/-- What is reported of a default that is no value of a type. -/
def Document.defaultFault? (d : Document) (t : DataType) (statement : String) :
    Default → Option Message
  | .optional _ => none
  | .literal value kind location =>
    if d.accepts t kind value = some true then none
    else
      some (.of .expectValue location
        [(.type, ((d.literal? t).join.map LiteralClass.describe).getD "literal"),
          (.statement, statement)])

/-- Whether there is no answer to the question if a default is a value of a type. -/
def Document.isEndless (d : Document) (t : DataType) : Default → Bool
  | .optional _ => false
  | .literal value kind _ => (d.accepts t kind value).isNone

/-- The alters of a field in registered structures, with their structures. -/
def Document.altersOf (d : Document) (f : FieldRef) : List (StructureId × Default) :=
  d.registeredStructures.flatMap fun id =>
    (((d.structures.get? id).map Structure.alters).getD []).filterMap fun a =>
      if a.field == f then some (id, a.default) else none

/-- What is wrong with the alters of a field in registered structures. -/
def Document.alterFaults (d : Document) (f : FieldRef) (t : DataType) :
    List (StructureId × Message) :=
  (d.altersOf f).filterMap fun (id, default) => (d.defaultFault? t "alter" default).map (id, ·)

def Document.dropDefault (d : Document) (f : FieldRef) : Document :=
  d.modifyStructure f.owner fun s =>
    s.modifyField f.member fun field => { field with default := none }

/-- What is reported of a name that was never declared. -/
def Binding.unresolved (b : Binding) : Message :=
  .of .unknownClassifierType ⟨b.source, b.name.first.line, b.name.first.column⟩
    [(.classifier, b.classifier), (.type, b.name.display)]

namespace Session

def report (s : Session) (m : Message) : Session :=
  { s with messages := s.messages ++ [m] }

def reportAll (s : Session) (messages : List Message) : Session :=
  { s with messages := s.messages ++ messages }

def modifyDocument (s : Session) (f : Document → Document) : Session :=
  { s with document := f s.document }

def subjectName (s : Session) : Subject → String
  | .declaration x => s.document.nameText x
  | .document => ""

/-- Calls all checks on a subject, or only the late ones, notes the calls and the messages, and
says whether all passed. -/
def visit (s : Session) (checks : List Check) (subject : Subject) (late : Bool) :
    Bool × Session :=
  let heard := Check.hear (Check.entries checks late) s.document subject
  (heard.verdict.passed,
    { s with
      messages := s.messages ++ heard.verdict.messages
      calls := s.calls ++
        heard.called.map fun place => ⟨place, subject, s.subjectName subject, late⟩ })

theorem visit_eq (s : Session) (checks : List Check) (subject : Subject) (late : Bool) :
    s.visit checks subject late =
      ((Check.runAll (Check.called checks late) s.document subject).passed,
        { s with
          messages := s.messages ++
            (Check.runAll (Check.called checks late) s.document subject).messages
          calls := s.calls ++ (Check.entries checks late).map fun entry =>
            ⟨entry.2, subject, s.subjectName subject, late⟩ }) := by
  simp only [visit, Check.hear_eq, Check.map_fst_entries, List.map_map]
  rfl

theorem visit_passed (s : Session) (checks : List Check) (subject : Subject) (late : Bool) :
    (s.visit checks subject late).1 =
      (Check.runAll (Check.called checks late) s.document subject).passed :=
  congrArg Prod.fst (s.visit_eq checks subject late)

/-- Notes if one of the defaults asks for the class of the type without end. -/
def ask (s : Session) (t : Option DataType) (defaults : List Default) : Session :=
  { s with endless := s.endless || t.any fun t => defaults.any (s.document.isEndless t) }

/-- Whether a declaration has passed its checks: it is registered, or it is an enumeration that
its structure has taken in. -/
def isChecked (s : Session) (x : Declaration) : Bool :=
  s.document.isRegistered x ||
    match x with
    | .enum id =>
      match (s.document.enumerations.get? id).bind (·.owner) with
      | some owner =>
        (s.document.structures.get? owner).any (·.nestedEnumerations.contains id)
      | none => false
    | _ => false

/-- Runs the late checks on a declaration that has passed before. If it fails now, it is
withdrawn. -/
def recheck (s : Session) (checks : List Check) (x : Declaration) : Session :=
  if s.isChecked x then
    let (passed, s) := s.visit checks (.declaration x) true
    if passed then s else s.modifyDocument (·.withdraw x)
  else s

/-- Drops the default of a field if it is no value of its type. -/
def recheckDefault (s : Session) (f : FieldRef) (t : DataType) (default : Option Default) :
    Session :=
  match default.bind (s.document.defaultFault? t "field") with
  | some fault => (s.report fault).modifyDocument (·.dropDefault f)
  | none => s

/-- Withdraws the structures with an alter of a field that is no value of its type. -/
def recheckAlters (s : Session) (f : FieldRef) (t : DataType) : Session :=
  let faults := s.document.alterFaults f t
  (s.reportAll (faults.map (·.2))).modifyDocument fun d =>
    faults.foldl (fun d fault => d.withdraw (.struct fault.1)) d

/-- Checks the defaults that hang on a field whose type has just become known. -/
def recheckDefaults (s : Session) (f : FieldRef) : Session :=
  match s.document.field? f with
  | some { type := some t, default, .. } =>
    let asked := s.ask (some t) (default.toList ++ (s.document.altersOf f).map (·.2))
    (asked.recheckDefault f t default).recheckAlters f t
  | _ => s

def bind (s : Session) (checks : List Check) (b : Binding) (t : DataType) : Session :=
  let s := s.modifyDocument (·.fill b.slot t)
  let s :=
    match b.slot with
    | .field f => s.recheckDefaults f
    | _ => s
  match b.owner? with
  | some x => s.recheck checks x
  | none => s

/-- Goes through bindings in order; those for which `find` knows a type are bound, the others
are kept. -/
def settle (s : Session) (checks : List Check) (find : Session → Binding → Option DataType) :
    List Binding → Session × List Binding
  | [] => (s, [])
  | b :: rest =>
    match find s b with
    | some t => (s.bind checks b t).settle checks find rest
    | none =>
      let (s, kept) := s.settle checks find rest
      (s, b :: kept)

/-- The type that has just been registered, if the name means it. -/
def findRegistered (s : Session) (t : DataType) (b : Binding) : Option DataType :=
  let package := s.document.packageOf? t
  if b.accepts (s.document.coreName t) package && b.bindsEarly package then some t else none

theorem findRegistered_eq_some {s : Session} {t u : DataType} {b : Binding}
    (h : s.findRegistered t b = some u) :
    b.accepts (s.document.coreName t) (s.document.packageOf? t) = true ∧ t = u := by
  simp only [findRegistered, Option.ite_none_right_eq_some, Bool.and_eq_true,
    Option.some.injEq] at h
  exact ⟨h.1.1, h.2⟩

/-- Binds the names that mean a type that has just been registered. -/
def settleRegistered (s : Session) (checks : List Check) (t : DataType)
    (pending : List Binding) : Session × List Binding :=
  s.settle checks (fun _ => s.findRegistered t) pending

/-- Binds the unqualified names inside a structure that mean its nested enumerations. What is
left of them waits behind the other names. -/
def settleScope (s : Session) (checks : List Check) (scope : StructureId)
    (pending : List Binding) : Session × List Binding :=
  let (inside, outside) := pending.partition fun b => b.scope == some scope && b.name.path.isEmpty
  let (s, kept) := s.settle checks
    (fun s b => (s.document.findNested? scope b.name.last.text).map .enum) inside
  (s, outside ++ kept)

/-- What a name means when it is looked up again. When nothing more is declared, a type of
another package is taken as well. -/
def findAgain (last : Bool) (s : Session) (b : Binding) : Option DataType :=
  (b.find? s.document).filter fun t => last || b.bindsEarly (s.document.packageOf? t)

theorem findAgain_true (s : Session) (b : Binding) : s.findAgain true b = b.find? s.document := by
  cases h : b.find? s.document <;> simp [findAgain, h]

/-- Looks all names up again. -/
def settleAll (s : Session) (checks : List Check) (last : Bool) (pending : List Binding) :
    Session × List Binding :=
  s.settle checks (findAgain last) pending

def reportUnresolved (s : Session) (pending : List Binding) : Session :=
  s.reportAll (pending.map Binding.unresolved)

end Session

end Idl
