import Idl.Grammar.Modifier
import Idl.Grammar.Type

/-!
Enumerations: `[strong|weak] [flags] enum [<type>] Name [flags] { value; value = a | b; }`.
A composed value names earlier values only.
-/

namespace Idl.Grammar

def enumerationModifiers : List (List String) :=
  [castWords, ["flags"]]

/-- Reads `a | b`, names of earlier values, as their positions. -/
def valueParts (id : EnumerationId) : Parser (List Nat) :=
  iterate (fun parts => do
    let part ← expectName "enumeration value"
    match ((← get).document.enumerations.get? id).bind (·.position? part.value) with
    | none => fail (.of .unknownEnumerationValue part.location [(.name, part.value)])
    | some position =>
      if ← isAt .bitwise "|" then
        advance
        return .again (parts ++ [position])
      else return .done (parts ++ [position])) []

def enumerationValue (id : EnumerationId) (comment : Option Comment) (first : Token) :
    Parser Unit := do
  if first.kind != .identifier then unexpected "enumeration"
  let name ← expectName "enumeration value"
  let parts ← do
    if ← isAt .operator "=" then
      advance
      some <$> valueParts id
    else pure none
  expectSemicolon
  let value : EnumerationValue :=
    { name, location := name.location, comment, enumeration := id, parts }
  modifyDocument (·.modifyEnumeration id (·.addValue value))

def enumerationItem (id : EnumerationId) : Item :=
  fun comment first s => s.salvage (enumerationValue id comment first)

/-- The type under an enumeration or an identifier that names none. -/
def plainParameter : TypeUse :=
  .known (.builtin .integer)

def enumerationHeader (comment : Option Comment) (modifiers : List Token)
    (owner : Option StructureId) : Parser EnumerationId := do
  let keyword ← expectKeyword "enum"
  let parameter := (← typeParameter "enumeration parameter" owner).getD plainParameter
  let name ← expectName "enumeration"
  let flagsBehind ← isAtKeyword "flags"
  if flagsBehind then advance
  let s ← get
  let id := s.document.enumerations.next
  let header : Enumeration :=
    { name
      location := s.locationOf keyword
      comment
      package := s.package
      parameter := parameter.type?
      flags := isTaken modifiers "flags" || flagsBehind
      cast := castOf modifiers
      owner }
  modifyDocument (·.insertEnumeration header)
  await parameter.name? "enumeration parameter" owner (.enumerationParameter id)
  return id

/-- Reads an enumeration, which may be nested in a structure. -/
def enumeration (comment : Option Comment) (modifiers : List Token)
    (owner : Option StructureId) : Parser EnumerationId := do
  let id ← enumerationHeader comment modifiers owner
  body "enumeration" (enumerationItem id)
  modifyDocument (·.modifyEnumeration id Enumeration.assignValues)
  return id

end Idl.Grammar
