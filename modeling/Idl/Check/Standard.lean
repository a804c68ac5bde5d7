import Idl.Check.Basic

/-!
The standard checks: the underlying types of enumerations and identifiers, the members of a
structure, sharable structures, the values of an enumeration, and names that are declared twice
in a package.
-/

namespace Idl.Check

/-- Whose underlying type is restricted. -/
inductive Target where
  | enumeration
  | identifier
  deriving DecidableEq, Repr, Inhabited

def Target.classifier : Target → String
  | enumeration => "enumeration"
  | identifier => "identifier"

/-- The location and the underlying type of a subject the target speaks of. -/
def Target.parameter? (target : Target) (d : Document) :
    Subject → Option (Location × Option DataType)
  | .declaration (.enum id) =>
    match target with
    | enumeration => (d.enumerations.get? id).map fun e => (e.location, e.parameter)
    | identifier => none
  | .declaration (.identifier id) =>
    match target with
    | identifier => (d.identifiers.get? id).map fun i => (i.location, i.parameter)
    | enumeration => none
  | _ => none

/-- The underlying type is one of the allowed builtins, or not known yet. -/
def parameterType (target : Target) (allowed : List Builtin) : Check where
  late := true
  run d subject :=
    match target.parameter? d subject with
    | some (location, some t) =>
      if t.asBuiltin?.any allowed.contains then {}
      else
        .ofMessages [.of .invalidParameterType location
          [(.classifier, target.classifier), (.type, d.typeName t),
            (.options, ", ".intercalate (allowed.map Builtin.keyword))]]
    | _ => {}

def enumerationParameter : Check :=
  parameterType .enumeration [.small, .short, .integer]

def identifierParameter : Check :=
  parameterType .identifier [.small, .short, .integer, .long, .byte, .word, .dword, .qword]

def structure? (d : Document) : Subject → Option Structure
  | .declaration (.struct id) => d.structures.get? id
  | _ => none

/-- What is wrong with a member behind the members `before`. -/
def memberFaults (d : Document) (s : Structure) (before : List Member) (m : Member) :
    List Message :=
  let isDeclared (f : Field) := before.any fun b => b.field?.any (·.name.value == f.name.value)
  let duplicate (f : Field) : Message := .of .duplicateField f.location [(.name, f.name.value)]
  match m with
  | .field f =>
    if isDeclared f then [duplicate f]
    else
      match s.base.bind (d.findField? · f.name.value) with
      | some hidden =>
        [.of .fieldShadowsBase f.location
          [(.name, f.name.value), (.type, d.nameText (.struct hidden.owner))]]
      | none => []
  | .override f _ => if isDeclared f then [duplicate f] else []
  | .identification i =>
    if before.any (·.identification?.isSome) then
      [.of .duplicateIdentification i.location [(.name, s.name.value)]]
    else []
  | .operator o =>
    if before.any (·.operator?.any (·.action == o.action)) then
      [.of .duplicateOperator o.location [(.token, o.action.symbol)]]
    else []
  | .alter _ | .enumeration _ | .upcopy _ => []

/-- Own field names are unique, a plain field hides no field of a base, there is at most one
identification, and each operator is declared once. -/
def structureFields : Check where
  run d subject :=
    match structure? d subject with
    | some s =>
      .ofMessages (s.members.zipIdx.flatMap fun (m, position) =>
        memberFaults d s (s.members.take position) m)
    | none => {}

/-- Whether a sharable structure may hold the type: its core is no structure that is not
sharable. A core that is not known yet passes. -/
def isSharable (d : Document) (t : DataType) : Bool :=
  match (d.layers t).core with
  | some (.struct id) => (d.structures.get? id).any (·.has .sharable)
  | _ => true

def sharableFaults (d : Document) (s : Structure) : List Message :=
  if s.has .sharable then
    s.fields.filterMap fun (_, f) =>
      match f.type with
      | some t =>
        if isSharable d t then none
        else
          some (.of .nonSharableField f.location
            [(.name, f.name.value), (.type, d.typeName t)])
      | none => none
  else
    match s.base.bind d.structures.get? with
    | some base =>
      if base.has .sharable then
        [.of .nonSharableDerived s.location [(.name, s.name.value), (.type, base.name.value)]]
      else []
    | none => []

/-- A sharable structure holds sharable structures only, and what derives from a sharable
structure is sharable. -/
def structureSharable : Check where
  late := true
  run d subject :=
    match structure? d subject with
    | some s => .ofMessages (sharableFaults d s)
    | none => {}

/-- What is wrong with a value behind the values `before`. -/
def valueFaults (e : Enumeration) (before : List EnumerationValue) (v : EnumerationValue) :
    List Message :=
  (if before.any (·.name.value == v.name.value) then
    [.of .duplicateEnumerationValue v.location [(.name, v.name.value)]] else []) ++
  (if !e.flags && !v.isAbsolute then
    [.of .composedValueInNonFlags v.location [(.name, v.name.value)]] else [])

/-- Value names are unique. Composed values of a plain enumeration are legal but suspicious. -/
def enumerationValues : Check where
  run d subject :=
    match subject with
    | .declaration (.enum id) =>
      match d.enumerations.get? id with
      | some e =>
        .ofMessages (e.values.zipIdx.flatMap fun (v, position) =>
          valueFaults e (e.values.take position) v)
      | none => {}
    | _ => {}

/-- A name and the full path of a package as it is written. -/
def qualifiedName (d : Document) (x : Declaration) : String × String :=
  (d.nameText x, ((d.package? x).map fun p => Package.dotted p.fullPath).getD "")

def duplicateDeclaration : Check where
  run d subject :=
    match subject with
    | .document =>
      .ofMessages (d.declarations.zipIdx.filterMap fun (x, position) =>
        if (d.declarations.take position).any fun y => qualifiedName d y == qualifiedName d x then
          (d.name? x).map fun name =>
            .of .duplicateDeclaration name.location [(.name, name.value)]
        else none)
    | .declaration _ => {}

/-- The checks of an ordinary session, in the order they run. -/
def standard : List Check :=
  [enumerationParameter, identifierParameter, structureFields, structureSharable,
    enumerationValues, duplicateDeclaration]

end Idl.Check
