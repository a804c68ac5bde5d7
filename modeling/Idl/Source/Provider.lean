import Idl.Source.Id

/-!
Where sources come from. A provider says which source an import means and what its text is;
the reader of sources knows nothing else about them. A shelf is a provider that holds named
texts; an import is looked up there as it is written.
-/

namespace Idl

inductive SourceError where
  | notFound (name : String)
  | unopenable (name : String)
  | unreadable (name : String)
  | noDirectory (name : String)
  deriving DecidableEq, Repr

def SourceError.message : SourceError → String
  | notFound name => "source not found: " ++ name
  | unopenable name => "source " ++ name ++ " cannot be opened"
  | unreadable name => "cannot read " ++ name
  | noDirectory name => "cannot list " ++ name

structure Provider where
  /-- The source that an import means, as seen from the importing source. -/
  resolve : Option SourceId → String → Option SourceId
  read : SourceId → Except SourceError String

/-- Texts by name, in the order of their first insertion, and names that resolve but cannot be
read. -/
structure Shelf where
  texts : List (String × String) := []
  closed : List String := []
  deriving DecidableEq, Repr, Inhabited

namespace Shelf

/-- Puts a text under a name; a name that is there already keeps its position. -/
def insert (s : Shelf) (name text : String) : Shelf :=
  if s.texts.any (·.1 == name) then
    { s with texts := s.texts.map fun entry => if entry.1 == name then (name, text) else entry }
  else { s with texts := s.texts ++ [(name, text)] }

/-- Lets a name resolve but not be read. -/
def close (s : Shelf) (name : String) : Shelf :=
  if s.closed.contains name then s else { s with closed := s.closed ++ [name] }

/-- Slashes, backslashes and dots become underscores. -/
def presentation (name : String) : String :=
  String.ofList (name.toList.map fun c => if c == '/' || c == '\\' || c == '.' then '_' else c)

def find? (s : Shelf) (name : String) : Option SourceId :=
  if s.texts.any (·.1 == name) || s.closed.contains name then
    some { value := name, requested := name, presentation := presentation name }
  else none

def read (s : Shelf) (name : String) : Except SourceError String :=
  if s.closed.contains name then .error (.unopenable name)
  else
    match s.texts.lookup name with
    | some text => .ok text
    | none => .error (.notFound name)

def provider (s : Shelf) : Provider :=
  ⟨fun _ name => s.find? name, fun id => s.read id.value⟩

end Shelf

end Idl
