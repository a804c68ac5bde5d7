import Idl.Source.Provider

/-!
Sources in files. A disk is the state of a file system: directories and files under the names
that lead to them from the root. A library looks for an import beside the importing file, then
in its base directory, then in its import directories. It remembers every text it has read and
never reads a file twice.
-/

namespace Idl

/-- A file without a text holds bytes that are no text. -/
inductive Disk.Entry where
  | directory
  | file (text : Option String)
  deriving DecidableEq, Repr

structure Disk where
  entries : List (List String × Disk.Entry) := []
  deriving Repr, Inhabited

namespace Disk

def entry? (d : Disk) (place : List String) : Option Entry :=
  if place.isEmpty then some .directory else d.entries.lookup place

def isDirectory (d : Disk) (place : List String) : Bool :=
  d.entry? place == some .directory

def put (d : Disk) (place : List String) (entry : Entry) : Disk :=
  ⟨d.entries.filter (·.1 != place) ++ [(place, entry)]⟩

/-- Makes a directory and those that lead to it. -/
def makeDirectory (d : Disk) (place : List String) : Disk :=
  (List.range (place.length + 1)).foldl
    (fun d count =>
      let place := place.take count
      if (d.entry? place).isSome then d else d.put place .directory)
    d

/-- Writes a file and makes the directories that lead to it. -/
def write (d : Disk) (place : List String) (text : Option String) : Disk :=
  (d.makeDirectory place.dropLast).put place (.file text)

/-- One step along a path. Only a directory can be left for another place. -/
def step (d : Disk) (place : List String) (segment : String) : Option (List String) :=
  if !d.isDirectory place then none
  else if Path.isVoid segment then some place
  else if segment == ".." then some place.dropLast
  else
    let next := place ++ [segment]
    if (d.entry? next).isSome then some next else none

/-- Where an absolute path leads, if something is there. -/
def locate (d : Disk) (path : String) : Option (List String) :=
  let p := Path.ofString path
  if p.isAbsolute then p.segments.foldlM d.step [] else none

def pathTo (place : List String) : String :=
  "/" ++ Path.joinSegments place

def isFile (d : Disk) (path : String) : Bool :=
  match (d.locate path).bind d.entry? with
  | some (.file _) => true
  | _ => false

def read (d : Disk) (path : String) : Except SourceError String :=
  match (d.locate path).bind d.entry? with
  | some (.file (some text)) => .ok text
  | _ => .error (.unreadable path)

def sourceExtension : String :=
  "compil"

def isSourceName (fileName : String) : Bool :=
  Path.extension? fileName == some sourceExtension

/-- Whether a path comes no later than another one: component by component, and within a
component character by character. -/
def isInOrder (a b : List String) : Bool :=
  !(b.map String.toList).lex (a.map String.toList) fun x y =>
    x.lex y fun c e => c.toNat.blt e.toNat

/-- The paths of the sources in a directory and below it, in the order of their components. -/
def sourcePaths (d : Disk) (directory : String) : Except SourceError (List String) :=
  match d.locate directory with
  | none => .error (.noDirectory directory)
  | some place =>
    if d.isDirectory place then
      let below := d.entries.filterMap fun (file, entry) =>
        match entry with
        | .file _ =>
          if place.isPrefixOf file && isSourceName (file.getLastD "") then
            some (file.drop place.length)
          else none
        | .directory => none
      let sorted := below.mergeSort isInOrder
      .ok (sorted.map fun names => Path.join directory (Path.joinSegments names))
    else if isSourceName (place.getLastD "") then .ok [directory]
    else .ok []

end Disk

structure Library where
  disk : Disk
  base : String
  importDirectories : List String := []
  /-- Texts read so far, by the value of their source. -/
  texts : List (String × String) := []
  deriving Repr, Inhabited

namespace Library

/-- The names of a path, dots in them replaced, as one name. -/
def presentation (path : String) : String :=
  "_".intercalate ((Path.ofString path).names.map fun name =>
    String.ofList (name.toList.map fun c => if c == '.' then '_' else c))

/-- The source at a place, presented relative to the base directory if it lies below it. -/
def identify (l : Library) (place : List String) (requested : String) : SourceId :=
  let value := Disk.pathTo place
  let below := do
    let base ← l.disk.locate l.base
    (Path.ofString value).behindBase? (Path.ofString (Disk.pathTo base)).components
  { value, requested, presentation := presentation ((below.map Path.toString).getD value) }

/-- The source a root path means: a file below the base directory, else the path itself. -/
def root (l : Library) (path : String) : Except SourceError SourceId :=
  let inBase := Path.join l.base path
  let path' := if !(Path.ofString path).isAbsolute && l.disk.isFile inBase then inBase else path
  match l.disk.locate path' with
  | some place => .ok (l.identify place path)
  | none => .error (.unreadable path')

/-- Where an import may lie, in the order of search. -/
def candidates (l : Library) (importer : Option SourceId) (import_ : String) : List String :=
  if (Path.ofString import_).isAbsolute then [import_]
  else
    let beside := importer.bind fun id => (Path.ofString id.value).parent?.map Path.toString
    (beside.toList ++ [l.base] ++ l.importDirectories).map (Path.join · import_)

def resolve (l : Library) (importer : Option SourceId) (import_ : String) : Option SourceId := do
  let path ← (l.candidates importer import_).find? l.disk.isFile
  let place ← l.disk.locate path
  return l.identify place import_

def read (l : Library) (id : SourceId) : Except SourceError String :=
  match l.texts.lookup id.value with
  | some text => .ok text
  | none => l.disk.read id.value

def remember (l : Library) (id : SourceId) : Library :=
  match l.texts.lookup id.value, l.read id with
  | none, .ok text => { l with texts := l.texts ++ [(id.value, text)] }
  | _, _ => l

def provider (l : Library) : Provider :=
  ⟨l.resolve, l.read⟩

end Library

end Idl
