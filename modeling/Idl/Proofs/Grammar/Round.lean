import Idl.Grammar.Package
import Idl.Grammar.Structure

/-!
The loops of the grammar without bodies, each as the repetition of a round that has a name. What
is shown of a round can then be said of it, and carried over to the loop.
-/

namespace Idl.Grammar

/-- One segment of the name of a type. -/
def typeNameRound (classifier : String) :
    List String × Option Token → Parser (Round (List String × Option Token) TypeName) :=
  fun (path, first) => do
    let t ← expect (·.kind == .identifier) .expectType [(.classifier, classifier)]
    let first := first.getD t
    if ← isAt .dot "." then
      advance
      return .again (path ++ [t.text], some first)
    else return .done ⟨path, first, t⟩

theorem typeName_eq (classifier : String) :
    typeName classifier = iterate (typeNameRound classifier) ([], none) :=
  rfl

/-- One template, or the name that templates are applied to. -/
def templateRound (classifier : String) (outer : List Template) :
    Parser (Round (List Template) (List Template × TypeName)) := do
  let name ← typeName classifier
  match TypeName.template? name with
  | some template =>
    let _ ← expectToken .relation "<"
    return .again (template :: outer)
  | none => return .done (outer, name)

theorem templates_eq (classifier : String) :
    templates classifier = iterate (templateRound classifier) [] :=
  rfl

/-- One modifier, or the token behind the modifiers. -/
def modifierRound (words : List String) (taken : List Token) :
    Parser (Round (List Token) (List Token)) := do
  match (← get).current with
  | some t =>
    if t.kind == .identifier && words.contains t.text then
      advance
      return .again (taken ++ [t])
    else return .done taken
  | none => return .done taken

theorem modifiers_eq (words : List String) :
    modifiers words = iterate (modifierRound words) [] :=
  rfl

/-- One part of a composed value. -/
def valuePartRound (id : EnumerationId) (parts : List Nat) :
    Parser (Round (List Nat) (List Nat)) := do
  let part ← expectName "enumeration value"
  match ((← get).document.enumerations.get? id).bind (·.position? part.value) with
  | none => fail (.of .unknownEnumerationValue part.location [(.name, part.value)])
  | some position =>
    if ← isAt .bitwise "|" then
      advance
      return .again (parts ++ [position])
    else return .done (parts ++ [position])

theorem valueParts_eq (id : EnumerationId) :
    valueParts id = iterate (valuePartRound id) [] :=
  rfl

/-- One alter, behind `alter` or a comma. -/
def alterRound (id base : StructureId) : Parser (Round Unit Unit) := do
  advance
  let name ← expectName "altered field"
  let field ← baseField base name.value name.location
  let _ ← expectToken .operator "="
  let default ← defaultValue "alter"
  checkDefault (((← get).document.field? field).bind (·.type)) default "alter"
  addMember id (.alter { field, name, default, location := name.location })
  if ← isAt .delimiter "," then return .again () else return .done ()

theorem alters_eq (id base : StructureId) :
    alters id base = iterate (fun _ => alterRound id base) () :=
  rfl

/-- One element of a package path, and the dot behind it. -/
def packageRound (elements : List PackageElement) :
    Parser (Round (List PackageElement) (List PackageElement)) := do
  let e ← packageElement elements.length
  if ← isAt .dot "." then
    advance
    return .again (elements ++ [e])
  else return .done (elements ++ [e])

theorem packagePath_eq : packagePath = iterate packageRound [] :=
  rfl

end Idl.Grammar
