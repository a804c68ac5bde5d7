import Idl.Text.Blank

/-!
Slash-separated paths. A path is compared by its components: a doubled slash and a `.` count
for nothing, except that a `.` in front of all else is a component, and `..` is kept as it
stands. What is cut out of a path keeps the spelling it had there.
-/

namespace Idl

inductive Path.Component where
  | root
  | here
  | up
  | name (text : String)
  deriving DecidableEq, Repr

/-- A path as it is spelled: a leading slash or `.`, then the pieces between the slashes. -/
structure Path where
  lead : Option Path.Component
  segments : List String
  deriving DecidableEq, Repr

namespace Path

def ofString (text : String) : Path :=
  match (Text.pieces '/' text.toList).map String.ofList with
  | [""] => ⟨none, []⟩
  | "" :: rest => ⟨some .root, rest⟩
  | "." :: rest => ⟨some .here, rest⟩
  | segments => ⟨none, segments⟩

def joinSegments (segments : List String) : String :=
  "/".intercalate segments

def toString (p : Path) : String :=
  match p.lead, p.segments with
  | some .root, segments => "/" ++ joinSegments segments
  | some .here, segments => joinSegments ("." :: segments)
  | _, segments => joinSegments segments

/-- A piece that is no component. -/
def isVoid (segment : String) : Bool :=
  segment == "" || segment == "."

def component? (segment : String) : Option Component :=
  if isVoid segment then none
  else if segment == ".." then some .up
  else some (.name segment)

def components (p : Path) : List Component :=
  p.lead.toList ++ p.segments.filterMap component?

def Component.name? : Component → Option String
  | .name text => some text
  | _ => none

/-- The components that name a directory or a file. -/
def names (p : Path) : List String :=
  p.components.filterMap Component.name?

def dropVoidEnd (segments : List String) : List String :=
  (segments.reverse.dropWhile isVoid).reverse

/-- Without slashes and dots at the end that are no components. -/
def trimmed (p : Path) : Path :=
  { p with segments := dropVoidEnd p.segments }

/-- What follows the first `count` components. -/
def dropComponents : Nat → List String → List String
  | 0, segments => segments
  | _ + 1, [] => []
  | count + 1, segment :: rest =>
    if isVoid segment then dropComponents (count + 1) rest else dropComponents count rest

/-- What follows the first `count` components, as it is spelled. -/
def behind (p : Path) (count : Nat) : Path :=
  match count with
  | 0 => p.trimmed
  | count + 1 =>
    let count := if p.lead.isSome then count else count + 1
    ⟨none, dropVoidEnd ((dropComponents count p.segments).dropWhile isVoid)⟩

/-- What follows `base`, if the path starts with these components. -/
def behindBase? (p : Path) (base : List Component) : Option Path :=
  if base.isPrefixOf p.components then some (p.behind base.length) else none

/-- The path without its last component; a root has none to take away. -/
def parent? (p : Path) : Option Path :=
  match p.trimmed with
  | ⟨some .here, []⟩ => some ⟨none, []⟩
  | ⟨_, []⟩ => none
  | ⟨lead, segments⟩ => some (Path.trimmed ⟨lead, segments.dropLast⟩)

def isAbsolute (p : Path) : Bool :=
  p.lead == some .root

/-- `sub` as seen from `base`; an absolute `sub` stands for itself. -/
def join (base sub : String) : String :=
  if (ofString sub).isAbsolute || base.isEmpty then sub
  else if base.endsWith "/" then base ++ sub
  else base ++ "/" ++ sub

/-- What follows the last dot of a file name, unless the name starts with that dot. -/
def extension? (fileName : String) : Option String :=
  match (Text.pieces '.' fileName.toList).reverse with
  | [] | [_] | [_, []] => none
  | last :: _ => some (String.ofList last)

end Path

end Idl
