import Idl.Document.Instance
import Idl.Session.Binding

/-!
Drafts: declarations as they are meant, before they are written. A draft is written in pieces,
each of which is one token. What was read from the pieces is compared with the draft by the view
of a declaration in a document, where types stand for what they are called.
-/

namespace Idl

/-- A type as it is written: templates around a name, the outermost first. -/
structure TypeExpr where
  shells : List Template
  leaf : String
  deriving DecidableEq, Repr, Inhabited

/-- A piece of a text that is one token. -/
structure Piece where
  kind : Token.Kind
  text : String
  /-- What a type is wanted for, where the piece is the name of one. -/
  classifier : Option String := none
  deriving DecidableEq, Repr, Inhabited

namespace Piece

def word (text : String) : Piece :=
  { kind := .identifier, text }

def leaf (classifier text : String) : Piece :=
  { kind := .identifier, text, classifier := some classifier }

def semicolon : Piece :=
  { kind := .delimiter, text := ";" }

def opening : Piece :=
  { kind := .bracket, text := "\x7b" }

def closing : Piece :=
  { kind := .bracket, text := "\x7d" }

def less : Piece :=
  { kind := .relation, text := "<" }

def greater : Piece :=
  { kind := .relation, text := ">" }

/-- What a type is wanted for, and its name, where the piece is the name of one. -/
def use? (p : Piece) : Option (String × String) :=
  p.classifier.map (·, p.text)

end Piece

/-- The tokens are the pieces, wherever they stand. -/
def Spell (tokens : List Token) (pieces : List Piece) : Prop :=
  tokens.map (fun t => (t.kind, t.text)) = pieces.map fun p => (p.kind, p.text)

/-- The names of types among the tokens of pieces, and what the types are wanted for. -/
def uses (tokens : List Token) (pieces : List Piece) : List (String × Token) :=
  (tokens.zip pieces).filterMap fun (t, p) => p.classifier.map (·, t)

namespace TypeExpr

/-- The templates applied to a name. -/
def wrap (shells : List Template) (inner : String) : String :=
  shells.foldr (fun template inner => template.keyword ++ "<" ++ inner ++ ">") inner

def text (e : TypeExpr) : String :=
  wrap e.shells e.leaf

/-- What the type is called where only some names are known. An unknown one is a question mark
inside of a template, and outside there is no type. -/
def shown (known : String → Bool) (e : TypeExpr) : Option String :=
  if known e.leaf then some e.text
  else if e.shells.isEmpty then none
  else some (wrap e.shells "?")

def openings (shells : List Template) : List Piece :=
  shells.flatMap fun template => [.word template.keyword, .less]

def pieces (classifier : String) (e : TypeExpr) : List Piece :=
  openings e.shells ++ .leaf classifier e.leaf :: List.replicate e.shells.length .greater

end TypeExpr

namespace Draft

structure Field where
  type : TypeExpr
  name : String
  deriving DecidableEq, Repr, Inhabited

structure Parameter where
  direction : Direction
  type : TypeExpr
  name : String
  deriving DecidableEq, Repr, Inhabited

structure Method where
  name : String
  parameters : List Parameter
  deriving DecidableEq, Repr, Inhabited

/-- The modifiers in front of an enumeration, at most one of each group. -/
structure Front where
  cast : Option Cast := none
  flags : Bool := false
  flagsFirst : Bool := false
  deriving DecidableEq, Repr, Inhabited

def Front.words (f : Front) : List String :=
  let cast := f.cast.toList.map Cast.name
  let flags := if f.flags then ["flags"] else []
  if f.flagsFirst then flags ++ cast else cast ++ flags

def Field.pieces (f : Field) : List Piece :=
  f.type.pieces "field" ++ [.word f.name, .semicolon]

def Parameter.pieces (p : Parameter) : List Piece :=
  { kind := .arrow, text := p.direction.arrow } ::
    (p.type.pieces "parameter" ++ [.word p.name, .semicolon])

def Method.pieces (m : Method) : List Piece :=
  .word "method" :: .word m.name :: .opening ::
    (m.parameters.flatMap Parameter.pieces ++ [.closing])

/-- What can stand behind the name of an enumeration. -/
def behindPieces (flags : Bool) : List Piece :=
  if flags then [.word "flags"] else []

def valuePieces (name : String) : List Piece :=
  [.word name, .semicolon]

end Draft

/-- A declaration as it is meant. Structures have neither traits nor a base, and nothing but
fields without modifiers and defaults; enumerations name no type, and their values no parts. -/
inductive Draft where
  | struct (name : String) (fields : List Draft.Field)
  | interface (name : String) (methods : List Draft.Method)
  | enum (front : Draft.Front) (name : String) (flagsBehind : Bool) (values : List String)
  deriving DecidableEq, Repr, Inhabited

namespace Draft

def name : Draft → String
  | struct name _ | interface name _ | enum _ name _ _ => name

/-- Interfaces are no types. -/
def isType : Draft → Bool
  | interface _ _ => false
  | _ => true

def pieces : Draft → List Piece
  | struct name fields =>
    .word "structure" :: .word name :: .opening :: (fields.flatMap Field.pieces ++ [.closing])
  | interface name methods =>
    .word "interface" :: .word name :: .opening :: (methods.flatMap Method.pieces ++ [.closing])
  | enum front name flagsBehind values =>
    front.words.map .word ++ .word "enum" :: .word name ::
      (behindPieces flagsBehind ++ .opening :: (values.flatMap valuePieces ++ [.closing]))

def types : Draft → List TypeExpr
  | struct _ fields => fields.map (·.type)
  | interface _ methods => methods.flatMap fun m => m.parameters.map (·.type)
  | enum _ _ _ _ => []

/-- The slots of a declaration that was read from the draft, and the types meant for them. -/
def slots : Draft → Declaration → List (Slot × TypeExpr)
  | struct _ fields, .struct id =>
    fields.zipIdx.map fun (f, position) => (.field ⟨id, position⟩, f.type)
  | interface _ methods, .interface id =>
    methods.zipIdx.flatMap fun (m, method) =>
      m.parameters.zipIdx.map fun (p, position) => (.methodParameter id method position, p.type)
  | _, _ => []

end Draft

/-- What can be seen of a declaration where types are called by names. -/
inductive View where
  | struct (name : String) (base : Option StructureId) (traits : List Trait)
      (members : List (Option (String × Option String)))
  | interface (name : String)
      (methods : List (String × List (Direction × String × Option String)))
  | enum (name : String) (parameter : Option String) (flags : Bool) (cast : Cast)
      (values : List (String × Option (List Nat)))
  deriving DecidableEq, Repr, Inhabited

namespace View

def name : View → String
  | struct name _ _ _ | interface name _ | enum name _ _ _ _ => name

def isType : View → Bool
  | interface _ _ => false
  | _ => true

end View

/-- The view of a declaration that was read from the draft, with types called by `call`. -/
def Draft.view (call : TypeExpr → Option String) : Draft → View
  | struct name fields => .struct name none [] (fields.map fun f => some (f.name, call f.type))
  | interface name methods =>
    .interface name (methods.map fun m =>
      (m.name, m.parameters.map fun p => (p.direction, p.name, call p.type)))
  | enum front name flagsBehind values =>
    .enum name (call ⟨[], Builtin.integer.keyword⟩) (front.flags || flagsBehind)
      (front.cast.getD .weak) (values.map (·, none))

/-- A plain field without a default is seen as its name and its type. -/
def Member.view? (call : Option DataType → Option String) : Member → Option (String × Option String)
  | field f => if f.default.isNone then some (f.name.value, call f.type) else none
  | _ => none

def Method.view (call : Option DataType → Option String) (m : Method) :
    String × List (Direction × String × Option String) :=
  (m.name.value, m.parameters.map fun p => (p.direction, p.name.value, call p.type))

namespace Document

variable (d : Document)

/-- The view of a declaration in the document, with the types in its slots called by `call`. -/
def viewAs (call : Option DataType → Option String) : Declaration → Option View
  | .struct id => (d.structures.get? id).map fun s =>
    .struct s.name.value s.base s.traits (s.members.map (Member.view? call))
  | .interface id => (d.interfaces.get? id).map fun i =>
    .interface i.name.value (i.methods.map (Method.view call))
  | .enum id => (d.enumerations.get? id).map fun e =>
    .enum e.name.value (call e.parameter) e.flags e.cast
      (e.values.map fun v => (v.name.value, v.parts))
  | _ => none

def view? : Declaration → Option View :=
  d.viewAs (·.map d.typeName)

end Document

namespace Draft

/-- The words that start another member than a field, or a template. -/
def reserved : List String :=
  ["weak", "strong", "runtime", "inproc", "flags", "override", "native", "function", "functor",
    "identification", "upcopy", "operator", "enum", "reference", "vector"]

/-- What is asked of the parts of a draft. -/
def IsPlain : Draft → Prop
  | struct _ fields =>
    (fields.map (·.name)).Nodup ∧ ∀ f ∈ fields, f.type.leaf ∉ reserved
  | interface _ methods => ∀ m ∈ methods, ∀ p ∈ m.parameters, p.type.leaf ∉ reserved
  | enum _ _ _ values => values.Nodup

instance : DecidablePred IsPlain
  | struct _ _ => inferInstanceAs (Decidable (_ ∧ _))
  | interface _ methods =>
    inferInstanceAs (Decidable (∀ m ∈ methods, ∀ p ∈ m.parameters, p.type.leaf ∉ reserved))
  | enum _ _ _ values => inferInstanceAs (Decidable values.Nodup)

end Draft

/-- Drafts of declarations with different names, none of which is the name of a builtin. -/
structure Drafts (ds : List Draft) : Prop where
  distinct : (ds.map Draft.name).Nodup
  builtins : ∀ x ∈ ds, Builtin.ofKeyword? x.name = none
  plain : ∀ x ∈ ds, x.IsPlain

instance (ds : List Draft) : Decidable (Drafts ds) :=
  decidable_of_iff ((ds.map Draft.name).Nodup ∧
      (∀ x ∈ ds, Builtin.ofKeyword? x.name = none) ∧ ∀ x ∈ ds, x.IsPlain)
    ⟨fun h => ⟨h.1, h.2.1, h.2.2⟩, fun h => ⟨h.distinct, h.builtins, h.plain⟩⟩

namespace Draft

def known (ds : List Draft) (name : String) : Bool :=
  (Builtin.ofKeyword? name).isSome || ds.any fun x => x.isType && x.name == name

/-- What a name means among declarations that were read from drafts: the builtin, or the type
that the draft of this name was read as. -/
def target (ds : List Draft) (xs : List Declaration) (name : String) : Option DataType :=
  match Builtin.ofKeyword? name with
  | some b => some (.builtin b)
  | none => (((ds.map Draft.name).zip xs).lookup name).bind Declaration.type?

/-- The text of drafts, with a blank behind each piece. -/
def render (ds : List Draft) : String :=
  String.ofList ((ds.flatMap pieces).flatMap fun p => p.text.toList ++ [' '])

end Draft

end Idl
