import Idl.Grammar.Enumeration

/-!
Structures and their members:
`[traits] structure Name [inherit Base [alter field = value, ...]] { members }`.
-/

namespace Idl.Grammar

def structureModifiers : List (List String) :=
  Trait.all.map fun t => [t.keyword]

def modifyStructure (id : StructureId) (f : Structure → Structure) : Parser Unit :=
  modifyDocument (·.modifyStructure id f)

def addMember (id : StructureId) (m : Member) : Parser Unit :=
  modifyStructure id (·.addMember m)

def structureBase : Parser StructureId := do
  let (name, t) ← declaredType "base"
  match t with
  | .struct base => return base
  | _ => inappropriate name.first "base" "structure"

/-- The field of a name that a base has, or one of its own bases. -/
def baseField (base : StructureId) (name : String) (location : Location) : Parser FieldRef := do
  match (← get).document.findField? base name with
  | some f => return f
  | none => fail (.of .unknownBaseField location [(.name, name)])

/-- Reads `alter field = value, field = value`. -/
def alters (id base : StructureId) : Parser Unit :=
  iterate (fun _ => do
    advance
    let name ← expectName "altered field"
    let field ← baseField base name.value name.location
    let _ ← expectToken .operator "="
    let default ← defaultValue "alter"
    checkDefault (((← get).document.field? field).bind (·.type)) default "alter"
    addMember id (.alter { field, name, default, location := name.location })
    if ← isAt .delimiter "," then return .again () else return .done ()) ()

/-- What a member is, by the word it starts with behind its modifiers. -/
inductive MemberForm where
  | identification
  | upcopy
  | operator
  | enumeration
  | field
  deriving DecidableEq, Repr

namespace MemberForm

def ofToken (t : Option Token) : MemberForm :=
  match t.map Token.text with
  | some "identification" => identification
  | some "upcopy" => upcopy
  | some "operator" => operator
  | some "enum" => enumeration
  | _ => field

/-- The groups of modifiers a member takes. Only a field that is a reference can be weak. -/
def groups (isReference : Bool) : MemberForm → List (List String)
  | identification => [[Identification.Kind.runtime.keyword, Identification.Kind.inproc.keyword]]
  | upcopy => []
  | operator => [Operator.Form.all.map Operator.Form.keyword]
  | enumeration => enumerationModifiers
  | field => if isReference then [["override"], ["weak"]] else [["override"]]

end MemberForm

def memberModifiers : List String :=
  ["weak", "strong", "runtime", "inproc", "flags", "override", "native", "function", "functor"]

def identificationKind? (t : Token) : Option Identification.Kind :=
  [.runtime, .inproc].find? (·.keyword == t.text)

/-- Reads `identification [runtime|inproc];`. A word behind outweighs a modifier in front. -/
def identification (id : StructureId) (comment : Option Comment) (modifiers : List Token) :
    Parser Unit := do
  let keyword ← expectKeyword "identification"
  let inFront := modifiers.findSome? identificationKind?
  let behind := (← get).current.bind identificationKind?
  if behind.isSome then advance
  expectSemicolon
  addMember id (.identification
    { kind := (behind.or inFront).getD .runtime
      location := (← get).locationOf keyword
      comment
      owner := id })

/-- What a name means inside a structure that is not registered yet. -/
def findWithin? (s : State) (id : StructureId) (name : TypeName) : Option DataType :=
  if name.path.isEmpty && s.document.nameText (.struct id) == name.last.text then
    some (.struct id)
  else s.find? none name

/-- Reads `upcopy from Base;`. -/
def upcopy (id : StructureId) (comment : Option Comment) : Parser Unit := do
  let keyword ← expectKeyword "upcopy"
  let _ ← expectKeyword "from"
  let name ← typeName "upcopy"
  let s ← get
  match findWithin? s id name with
  | none => unknownType name "upcopy"
  | some (.struct base) =>
    if base == id || !s.document.inherits id base then
      failAt name.first .upcopyFromNonAncestor
        [(.type, s.document.nameText (.struct base)), (.name, s.document.nameText (.struct id))]
    expectSemicolon
    addMember id (.upcopy { base, location := s.locationOf keyword, comment, owner := id })
  | some _ => inappropriate name.first "upcopy" "structure"

def operatorAction? (t : Token) : Option Operator.Action :=
  if t.kind == .relation then Operator.Action.ofSymbol? t.text else none

/-- Reads `operator ==;` or `operator <;`. -/
def operator (id : StructureId) (comment : Option Comment) (modifiers : List Token) :
    Parser Unit := do
  let keyword ← expectKeyword "operator"
  match (← get).current.bind operatorAction? with
  | none =>
    failHere .expectAppropriateType [(.classifier, "operator"), (.options, "'==' or '<'")]
  | some action =>
    advance
    expectSemicolon
    addMember id (.operator
      { action
        form := (modifiers.findSome? fun t => Operator.Form.ofKeyword? t.text).getD .native
        location := (← get).locationOf keyword
        comment
        owner := id })

/-- The field of the base that a field with the modifier `override` takes the place of. -/
def overriddenField (id : StructureId) (keyword : Token) (name : String) : Parser FieldRef := do
  let s ← get
  match (s.document.structures.get? id).bind (·.base) with
  | some base => baseField base name (s.locationOf keyword)
  | none => failAt keyword .overrideWithoutBase [(.name, name)]

/-- Reads `type name [= default];`. -/
def field (id : StructureId) (comment : Option Comment) (modifiers : List Token)
    (weak : Bool) : Parser Unit := do
  let location := (← get).here
  let type ← typeUse "field" (some id) weak
  let name ← expectName "field"
  let default ← do
    if ← isAt .operator "=" then
      advance
      let default ← defaultValue "field"
      checkDefault type.type? default "field"
      pure (some default)
    else pure none
  let overridden ← (taken? modifiers ["override"]).mapM fun keyword =>
    overriddenField id keyword name.value
  expectSemicolon
  let own := (← get).document.structures.get? id
  let field : Field :=
    { name
      location
      comment
      type := type.type?
      bitmask := (own.map Structure.nextBitmask).getD 0
      default
      owner := id }
  addMember id
    (match overridden with
    | some f => .override field f
    | none => .field field)
  await type.name? "field" (some id) (.field ⟨id, (own.map (·.members.length)).getD 0⟩)

/-- Reads a member. A nested enumeration is not a member yet. -/
def member (id : StructureId) (comment : Option Comment) (first : Token) :
    Parser (Option EnumerationId) := do
  if first.kind != .identifier then unexpected "structure"
  let taken ← modifiers memberModifiers
  let t := (← get).current
  let form := MemberForm.ofToken t
  let isReference := t.any (·.isKeyword Template.reference.keyword)
  let nested ←
    match form with
    | .identification =>
      identification id comment taken
      pure none
    | .upcopy =>
      upcopy id comment
      pure none
    | .operator =>
      operator id comment taken
      pure none
    | .enumeration => some <$> enumeration comment taken (some id)
    | .field =>
      field id comment taken (isReference && isTaken taken "weak")
      pure none
  reportModifiers (leftOver taken (form.groups isReference))
  return nested

/-- Makes a nested enumeration that passes the checks a member. -/
def acceptNested (checks : List Check) (id : StructureId) (nested : Option EnumerationId)
    (s : State) : Bool × State :=
  match nested with
  | none => (true, s)
  | some e =>
    let (passed, session) := s.toSession.visit checks (.declaration (.enum e)) false
    let s := { s with toSession := session }
    if passed then
      (true, s.modifyDocument (·.modifyStructure id (·.addMember (.enumeration e))))
    else (false, s)

def structureItem (checks : List Check) (id : StructureId) : Item :=
  fun comment first s =>
    s.construct (member id comment first) (acceptNested checks id) State.recover

def structureHeader (comment : Option Comment) (modifiers : List Token) :
    Parser StructureId := do
  let keyword ← expectKeyword "structure"
  let name ← expectName "structure"
  let s ← get
  let id := s.document.structures.next
  let header : Structure :=
    { name
      location := s.locationOf keyword
      comment
      package := s.package
      traits := Trait.all.filter fun t => isTaken modifiers t.keyword }
  modifyDocument (·.insertStructure header)
  if ← isAtKeyword "inherit" then
    advance
    let base ← structureBase
    modifyStructure id fun s => { s with base := some base }
    if ← isAtKeyword "alter" then alters id base
  return id

/-- Reads a structure. Names inside it can mean enumerations that are nested further on. -/
def structureDeclaration (checks : List Check) (comment : Option Comment)
    (modifiers : List Token) : Parser StructureId := do
  let id ← structureHeader comment modifiers
  body "structure" (structureItem checks id)
  modify (·.settle fun session pending => session.settleScope checks id pending)
  return id

end Idl.Grammar
