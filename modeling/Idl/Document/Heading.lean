import Idl.Source.Id

/-!
What all declarations have in common: a name, a location, a leading comment and a package. A
package has a short path, by which types are qualified, and a full path, by which packages are
told apart.
-/

namespace Idl

structure Name where
  value : String
  location : Location
  deriving DecidableEq, Repr, Inhabited

/-- The comments in front of a declaration, line by line, and where the first one starts. -/
structure Comment where
  lines : List String
  location : Location
  deriving DecidableEq, Repr, Inhabited

/-- One element of a package path; an inherited one was taken from a directory. -/
structure PackageElement where
  value : String
  location : Location
  inherited : Bool
  deriving DecidableEq, Repr, Inhabited

structure Package where
  short : List PackageElement
  full : List PackageElement
  location : Location
  deriving DecidableEq, Repr, Inhabited

namespace Package

def shortPath (p : Package) : List String :=
  p.short.map PackageElement.value

def fullPath (p : Package) : List String :=
  p.full.map PackageElement.value

/-- Whether the path names the package, by its short or its full path. -/
def isNamed (p : Package) (path : List String) : Bool :=
  p.shortPath == path || p.fullPath == path

/-- Whether two packages are one; so are two absent packages. -/
def same : Option Package → Option Package → Bool
  | some a, some b => a.fullPath == b.fullPath
  | none, none => true
  | _, _ => false

theorem same_iff (a b : Option Package) :
    same a b = true ↔ a.map fullPath = b.map fullPath := by
  cases a <;> cases b <;> simp [same]

def dotted (path : List String) : String :=
  ".".intercalate path

def display (p : Package) : String :=
  if p.shortPath == p.fullPath then dotted p.shortPath
  else dotted p.shortPath ++ " | " ++ dotted p.fullPath

end Package

structure Heading where
  name : Name
  location : Location
  comment : Option Comment := none
  package : Option Package := none
  deriving DecidableEq, Repr, Inhabited

end Idl
