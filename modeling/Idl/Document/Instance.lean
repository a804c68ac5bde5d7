import Idl.Document.Basic

/-!
Questions about types. A type is a number of templates around a core; the core is missing while
the innermost argument is not known. An instance only ever has an earlier instance as its
argument, so the way to the core ends.
-/

namespace Idl

/-- The templates around the core of a type, the outermost first, and the core. -/
structure Layers where
  shells : List (TemplateId × Instance) := []
  core : Option DataType
  deriving DecidableEq, Repr, Inhabited

namespace Document

/-- The instances from `id` inwards. -/
def layersOf (d : Document) (id : TemplateId) : Layers :=
  match d.templates.get? id with
  | none => ⟨[], none⟩
  | some i =>
    match i.argument with
    | some (.template inner) =>
      if inner.index < id.index then
        let layers := d.layersOf inner
        { layers with shells := (id, i) :: layers.shells }
      else ⟨[(id, i)], none⟩
    | core => ⟨[(id, i)], core⟩
  termination_by id.index

def layers (d : Document) : DataType → Layers
  | .template id => d.layersOf id
  | core => ⟨[], some core⟩

/-- The name of a type that is no template. -/
def coreName (d : Document) : DataType → String
  | .builtin b => b.keyword
  | .struct id => d.nameText (.struct id)
  | .enum id => d.nameText (.enum id)
  | .identifier id => d.nameText (.identifier id)
  | .specimen id => d.nameText (.specimen id)
  | .template _ => "?"

/-- The name of a type, `vector<Point>` for a template; a missing argument is a question mark. -/
def typeName (d : Document) (t : DataType) : String :=
  let layers := d.layers t
  layers.shells.foldr (fun (_, i) inner => i.template.keyword ++ "<" ++ inner ++ ">")
    ((layers.core.map d.coreName).getD "?")

/-- Whether all arguments in a type are known. -/
def isFinished (d : Document) (t : DataType) : Bool :=
  (d.layers t).core.isSome

/-- The type an identifier or a specimen stands for. -/
def representation? (d : Document) : DataType → Option (Option DataType)
  | .identifier id => some ((d.identifiers.get? id).bind (·.parameter))
  | .specimen id => some ((d.specimens.get? id).bind (·.parameter))
  | _ => none

/-- What the way over the parameters to the literal class of a type has led to within `steps`
representations: a class, no class where a parameter is not known yet, or nothing so far. -/
def literalWithin (d : Document) : Nat → DataType → Option (Option LiteralClass)
  | _, .builtin b => some (some b.literal)
  | _, .struct _ => some (some .struct)
  | _, .enum _ => some (some .enumeration)
  | _, .template id => some ((d.templates.get? id).map (·.template.literal))
  | 0, _ => none
  | steps + 1, t =>
    match (d.representation? t).bind id with
    | some u => d.literalWithin steps u
    | none => some none

/-- The literal class of a type; no class while it hangs on a type that is not known yet. There
is no answer where the way to it does not end: it passes each identifier and each specimen once,
or it runs in a circle. -/
def literal? (d : Document) (t : DataType) : Option (Option LiteralClass) :=
  d.literalWithin (d.identifiers.size + d.specimens.size + 1) t

def storage : DataType → StorageClass
  | .builtin b => b.storage
  | _ => .object

/-- Whether a literal, given with the kind of its token, is a value of a type. It is taken for
one while the literal class is not known. -/
def accepts (d : Document) (t : DataType) (kind : Token.Kind) (value : String) : Option Bool :=
  (d.literal? t).map fun
    | none => true
    | some .boolean => kind == .identifier && (value == "true" || value == "false")
    | some .integer => kind == .integer
    | some .real => kind == .real || kind == .integer
    | some .string | some .binary => kind == .string
    | some .enumeration =>
      kind == .identifier &&
        match t with
        | .enum id => (d.enumerations.get? id).any fun e => (e.value? value).isSome
        | _ => true
    | some .struct | some .reference | some .vector => false

end Document

end Idl
