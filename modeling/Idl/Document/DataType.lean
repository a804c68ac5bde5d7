import Idl.Document.Arena

/-!
Data types: builtins, declared types, and the templates `reference` and `vector` applied to a
type. An instance of a template whose argument is not declared yet has none; it is finished
when the argument is filled in.
-/

namespace Idl

/-- Which literals a type accepts as defaults. Structures, references and vectors have none. -/
inductive LiteralClass where
  | boolean
  | integer
  | real
  | string
  | binary
  | enumeration
  | struct
  | reference
  | vector
  deriving DecidableEq, Repr, Inhabited

def LiteralClass.describe : LiteralClass → String
  | boolean => "boolean"
  | integer => "integer"
  | real => "real"
  | string => "string"
  | binary => "binary"
  | enumeration => "enumeration"
  | struct => "structure"
  | reference => "reference"
  | vector => "vector"

/-- How a value of a type is held. -/
inductive StorageClass where
  | builtin
  | object
  | string
  deriving DecidableEq, Repr, Inhabited

def StorageClass.name : StorageClass → String
  | builtin => "builtin"
  | object => "object"
  | string => "string"

/-- How freely values convert implicitly. -/
inductive Cast where
  | weak
  | strong
  deriving DecidableEq, Repr, Inhabited

def Cast.name : Cast → String
  | weak => "weak"
  | strong => "strong"

inductive Builtin where
  | boolean
  | small
  | short
  | integer
  | long
  | byte
  | word
  | dword
  | qword
  | size
  | real32
  | real64
  | string
  | binary
  deriving DecidableEq, Repr, Inhabited

namespace Builtin

def all : List Builtin :=
  [boolean, small, short, integer, long, byte, word, dword, qword, size, real32, real64, string,
    binary]

def keyword : Builtin → String
  | boolean => "boolean"
  | small => "small"
  | short => "short"
  | integer => "integer"
  | long => "long"
  | byte => "byte"
  | word => "word"
  | dword => "dword"
  | qword => "qword"
  | size => "size"
  | real32 => "real32"
  | real64 => "real64"
  | string => "string"
  | binary => "binary"

def ofKeyword? (word : String) : Option Builtin :=
  all.find? (·.keyword == word)

theorem ofKeyword?_keyword (b : Builtin) : ofKeyword? b.keyword = some b := by
  cases b <;> decide

theorem keyword_of_ofKeyword? {word : String} {b : Builtin} (h : ofKeyword? word = some b) :
    b.keyword = word := by
  simpa using List.find?_some h

def literal : Builtin → LiteralClass
  | boolean => .boolean
  | real32 | real64 => .real
  | string => .string
  | binary => .binary
  | _ => .integer

def storage : Builtin → StorageClass
  | string => .string
  | binary => .object
  | _ => .builtin

def isInteger (b : Builtin) : Bool :=
  b.literal == .integer

end Builtin

/-- Type shapes with one argument. -/
inductive Template where
  | reference
  | vector
  deriving DecidableEq, Repr, Inhabited

namespace Template

def keyword : Template → String
  | reference => "reference"
  | vector => "vector"

def all : List Template :=
  [reference, vector]

def ofKeyword? (word : String) : Option Template :=
  all.find? (·.keyword == word)

def literal : Template → LiteralClass
  | reference => .reference
  | vector => .vector

end Template

inductive DataType where
  | builtin (b : Builtin)
  | struct (id : StructureId)
  | enum (id : EnumerationId)
  | identifier (id : IdentifierId)
  | specimen (id : SpecimenId)
  | template (id : TemplateId)
  deriving DecidableEq, Repr, Inhabited

namespace DataType

def asStructure? : DataType → Option StructureId
  | struct id => some id
  | _ => none

def asEnumeration? : DataType → Option EnumerationId
  | enum id => some id
  | _ => none

def asBuiltin? : DataType → Option Builtin
  | builtin b => some b
  | _ => none

end DataType

/-- A template applied to a type. Only references are ever weak. -/
structure Instance where
  template : Template
  argument : Option DataType
  weak : Bool
  deriving DecidableEq, Repr, Inhabited

def Instance.isFinished (i : Instance) : Bool :=
  i.argument.isSome

end Idl
