import Idl.Path

/-!
Identities of sources. A source is known by the value its provider resolved it to. An imported
source also knows the sources that lead to it, so its distance from the root is the number of
its importers.
-/

namespace Idl

/-- One source: its resolved value, the text it was asked for by, and a form of its value that
is safe inside a generated name. -/
structure SourceName where
  value : String
  requested : String
  presentation : String
  deriving DecidableEq, Repr, Inhabited

/-- A source and its importers, the nearest first. -/
structure SourceId extends SourceName where
  importers : List SourceName := []
  deriving DecidableEq, Repr, Inhabited

namespace SourceId

/-- A source that is asked for by its value. -/
def ofValue (value : String) : SourceId :=
  { value, requested := value, presentation := value }

/-- The source as imported by `importer`, or as a root. -/
def importedBy (id : SourceId) (importer : Option SourceId) : SourceId :=
  { id with
    importers :=
      match importer with
      | some i => i.toSourceName :: i.importers
      | none => [] }

def parent? (id : SourceId) : Option SourceId :=
  match id.importers with
  | [] => none
  | p :: rest => some { p with importers := rest }

def ancestors (id : SourceId) : List SourceName :=
  id.importers

/-- Whether a source of this value is the source itself or leads to it. -/
def isOnChain (id : SourceId) (value : String) : Bool :=
  id.value == value || id.importers.any (·.value == value)

/-- Zero for a root. -/
def depth (id : SourceId) : Nat :=
  id.importers.length

/-- The source the import chain starts from. -/
def root (id : SourceId) : SourceName :=
  id.importers.getLastD id.toSourceName

/-- The directory from which the root was asked for: what its value has in front of the names
in the text it was asked for by. -/
def baseComponents? (root : SourceName) : Option (List Path.Component) :=
  let value := (Path.ofString root.value).components
  let asked := (Path.ofString root.requested).names.map Path.Component.name
  if asked.isSuffixOf value then some (value.take (value.length - asked.length)) else none

/-- The path of the source below the directory the root was asked for from, or the text
it was asked for by where there is no such path. -/
def relativeToRoot (id : SourceId) : String :=
  match (baseComponents? id.root).bind (Path.ofString id.value).behindBase? with
  | some path => path.toString
  | none => id.requested

/-- The directories on the way from there to the source. -/
def directories (id : SourceId) : List String :=
  (Path.ofString id.relativeToRoot).components.dropLast.filterMap Path.Component.name?

/-- A file name without its extension, behind the directories as they are written. Both slashes
and backslashes end a directory here. -/
def stem (requested : String) : String :=
  let reversed := requested.toList.reverse
  let file := reversed.takeWhile fun c => !(c == '/' || c == '\\')
  match file.dropWhile (· != '.') with
  | '.' :: c :: rest => String.ofList ((reversed.drop file.length).reverse ++ (c :: rest).reverse)
  | _ => requested

def display (id : SourceId) : String :=
  "SourceId(" ++ id.value ++ ")"

end SourceId

/-- A line and a column of a source, counted from one. Line zero is no place in any source. -/
structure Location where
  source : Option SourceId := none
  line : Nat := 0
  column : Nat := 0
  deriving DecidableEq, Repr, Inhabited

namespace Location

def isSynthetic (l : Location) : Bool :=
  l.line == 0

def display (l : Location) : String :=
  let position := toString l.line ++ ":" ++ toString l.column
  match l.source with
  | some id => id.value ++ ":" ++ position
  | none => position

end Location

end Idl
