import Idl.Grammar.Enumeration

/-!
Identifiers and specimens: `[strong|weak] identifier [<type>] Name { }` and
`[strong|weak] specimen [<type>] Name [inherit Base] { }`.
-/

namespace Idl.Grammar

/-- The groups of modifiers an identifier or a specimen takes. -/
def valueModifiers : List (List String) :=
  [castWords]

/-- Reads an identifier. -/
def identifier (comment : Option Comment) (modifiers : List Token) : Parser IdentifierId := do
  let keyword ← expectKeyword "identifier"
  let parameter := (← typeParameter "identifier parameter" none).getD plainParameter
  let name ← expectName "identifier"
  emptyBody "identifier"
  let s ← get
  let id := s.document.identifiers.next
  let identifier : Identifier :=
    { name
      location := s.locationOf keyword
      comment
      package := s.package
      parameter := parameter.type?
      cast := castOf modifiers }
  modifyDocument (·.insertIdentifier identifier)
  await parameter.name? "identifier parameter" none (.identifierParameter id)
  return id

/-- Reads the base of a specimen. -/
def specimenBase : Parser SpecimenId := do
  let (name, t) ← declaredType "base"
  match t with
  | .specimen base => return base
  | _ => inappropriate name.first "base" "specimen"

/-- The type under a specimen that names none: that of its base, if it is known by now, or
else `string`. -/
def inheritedParameter (d : Document) (base : Option SpecimenId) : DataType :=
  ((base.bind d.specimens.get?).bind (·.parameter)).getD (.builtin .string)

/-- Reads a specimen. -/
def specimen (comment : Option Comment) (modifiers : List Token) : Parser SpecimenId := do
  let keyword ← expectKeyword "specimen"
  let parameter? ← typeParameter "specimen parameter" none
  let name ← expectName "specimen"
  let base ← do
    if ← isAtKeyword "inherit" then
      advance
      some <$> specimenBase
    else pure none
  emptyBody "specimen"
  let s ← get
  let parameter := parameter?.getD (.known (inheritedParameter s.document base))
  let id := s.document.specimens.next
  let specimen : Specimen :=
    { name
      location := s.locationOf keyword
      comment
      package := s.package
      parameter := parameter.type?
      base
      cast := castOf modifiers }
  modifyDocument (·.insertSpecimen specimen)
  await parameter.name? "specimen parameter" none (.specimenParameter id)
  return id

end Idl.Grammar
