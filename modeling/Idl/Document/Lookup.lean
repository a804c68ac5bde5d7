import Idl.Document.Basic

/-!
Types by name. An unqualified name means a builtin, else a nested enumeration of the structure
it is used in, else a registered type of its own package, else the first registered type of the
name. A qualified name means a type of the package its path names, else a nested enumeration of
the structure its path names.
-/

namespace Idl.Document

def packageOf? (d : Document) : DataType → Option Package
  | .struct id => d.package? (.struct id)
  | .enum id => d.package? (.enum id)
  | .identifier id => d.package? (.identifier id)
  | .specimen id => d.package? (.specimen id)
  | .builtin _ | .template _ => none

/-- The registered types of a name, in the order of registration. -/
def typesNamed (d : Document) (name : String) : List DataType :=
  d.typeNames.filterMap fun entry => if entry.1 == name then some entry.2 else none

def findNested? (d : Document) (owner : StructureId) (name : String) : Option EnumerationId :=
  ((d.structures.get? owner).map Structure.nestedEnumerations |>.getD []).find? fun id =>
    (d.name? (.enum id)).any (·.value == name)

def findUnqualified? (d : Document) (package : Option Package) (scope : Option StructureId)
    (name : String) : Option DataType :=
  match Builtin.ofKeyword? name with
  | some b => some (.builtin b)
  | none =>
    match scope.bind (d.findNested? · name) with
    | some id => some (.enum id)
    | none =>
      let candidates := d.typesNamed name
      (candidates.find? fun t => Package.same (d.packageOf? t) package).or candidates.head?

/-- The type of a name behind qualifying segments, the innermost segment first. -/
def findBehind? (d : Document) (package : Option Package) (scope : Option StructureId)
    (name : String) : List String → Option DataType
  | [] => d.findUnqualified? package scope name
  | outer :: more =>
    let inPackage := (d.typesNamed name).find? fun t =>
      (d.packageOf? t).any (·.isNamed (outer :: more).reverse)
    inPackage.or <|
      match d.findBehind? package none outer more with
      | some (.struct owner) => (d.findNested? owner name).map .enum
      | _ => none

/-- The type a name means behind a path, as seen from a package and from inside a structure. -/
def findType? (d : Document) (package : Option Package) (path : List String)
    (scope : Option StructureId) (name : String) : Option DataType :=
  d.findBehind? package scope name path.reverse

end Idl.Document
