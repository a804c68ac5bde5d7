import Idl.Grammar.Body

/-!
The package of a source: `package short.path [| full.path];`. An element `*` is inherited from
the directory at the same position on the way from the root source.
-/

namespace Idl.Grammar

/-- The directory an inherited package element is named after. -/
def inheritedElement? (s : State) (position : Nat) : Option String :=
  s.source.bind (·.directories[position]?)

def isPackageElement (t : Token) : Bool :=
  t.kind == .identifier || t.kind == .asterisk

/-- Reads the element at a position of a package path. -/
def packageElement (position : Nat) : Parser PackageElement := do
  let t ← expect isPackageElement .expectPackageElement
  let s ← get
  if t.kind == .asterisk then
    match inheritedElement? s position with
    | some value => return ⟨value, s.locationOf t, true⟩
    | none => failAt t .unresolvedPackageElement [(.position, toString (position + 1))]
  else return ⟨t.text, s.locationOf t, false⟩

def packagePath : Parser (List PackageElement) :=
  iterate (fun elements => do
    let e ← packageElement elements.length
    if ← isAt .dot "." then
      advance
      return .again (elements ++ [e])
    else return .done (elements ++ [e])) []

/-- Reads the package of a source. The package of the root is that of the document. -/
def package : Parser Unit := do
  let keyword ← expectKeyword "package"
  let short ← packagePath
  let full ← do
    if ← isAt .bitwise "|" then
      advance
      packagePath
    else pure short
  expectSemicolon
  modify fun s =>
    let package : Package := ⟨short, full, s.locationOf keyword⟩
    let s := { s with package := some package }
    if s.isMain then s.modifyDocument fun d => { d with package := some package } else s

end Idl.Grammar
