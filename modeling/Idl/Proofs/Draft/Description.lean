import Idl.Proofs.Document.Number
import Idl.Proofs.Draft.Text

/-!
Enumerations as they are described: modifiers, a type underneath, a name, and values that are
absolute or composed of values in front of them. A description can be written, and an
enumeration in a document can be what was described.
-/

namespace Idl

namespace Piece

def equal : Piece :=
  { kind := .operator, text := "=" }

def bar : Piece :=
  { kind := .bitwise, text := "|" }

/-- The pieces of enumerations that are no names. -/
def ofEnumerations : List Piece :=
  (["enum", "flags", Cast.weak.name, Cast.strong.name] ++ Builtin.all.map Builtin.keyword).map
    word ++ [equal, bar, semicolon, opening, closing, less, greater]

end Piece

/-- What stands between the elements is all that is added. -/
theorem eq_or_mem_of_mem_intersperse {α : Type} {sep a : α} {l : List α}
    (h : a ∈ l.intersperse sep) : a = sep ∨ a ∈ l := by
  induction l with
  | nil => exact .inr h
  | cons b l ih =>
    cases l with
    | nil => exact .inr h
    | cons c l =>
      rw [List.intersperse_cons_cons, List.mem_cons, List.mem_cons] at h
      rcases h with rfl | rfl | h
      · exact .inr List.mem_cons_self
      · exact .inl rfl
      · exact (ih h).imp_right (List.mem_cons_of_mem b)

namespace Draft

/-- A value as it is meant: composed of others, or without parts. -/
structure Value where
  name : String
  parts : Option (List String) := none
  deriving DecidableEq, Repr, Inhabited

/-- An enumeration as it is meant. -/
structure Enumeration where
  front : Front := {}
  parameter : Option Builtin := none
  name : String
  flagsBehind : Bool := false
  values : List Value := []
  deriving DecidableEq, Repr, Inhabited

def parameterPieces : Option Builtin → List Piece
  | none => []
  | some b => [.less, .word b.keyword, .greater]

def partPieces : Option (List String) → List Piece
  | none => []
  | some names => .equal :: (names.map .word).intersperse .bar

namespace Value

def pieces (v : Value) : List Piece :=
  .word v.name :: (partPieces v.parts ++ [.semicolon])

def names (v : Value) : List String :=
  v.name :: v.parts.getD []

/-- What a composed value names stands in front of it. -/
def Refers (v : Value) (before : List Value) : Prop :=
  ∀ names ∈ v.parts, names ≠ [] ∧ ∀ name ∈ names, name ∈ before.map Value.name

/-- What can be seen of a value that was read, where names stand at positions. -/
def view (position : String → Nat) (v : Value) : String × Option (List Nat) :=
  (v.name, v.parts.map (·.map position))

instance (v : Value) (before : List Value) : Decidable (v.Refers before) :=
  inferInstanceAs (Decidable (∀ names ∈ v.parts, _))

end Value

namespace Enumeration

variable (x : Enumeration)

/-- The word can stand on both sides, and once is enough. -/
def flags : Bool :=
  x.front.flags || x.flagsBehind

def names : List String :=
  x.name :: x.values.flatMap Value.names

/-- What stands behind the modifiers in front. -/
def barePieces : List Piece :=
  .word "enum" :: (parameterPieces x.parameter ++ .word x.name ::
    (behindPieces x.flagsBehind ++ .opening :: (x.values.flatMap Value.pieces ++ [.closing])))

def pieces : List Piece :=
  x.front.words.map .word ++ x.barePieces

/-- The text of the enumeration, with a blank behind each piece. -/
def render : String :=
  String.ofList (x.pieces.flatMap fun p => p.text.toList ++ [' '])

/-- The position of the value with the name. -/
def position (name : String) : Nat :=
  (x.values.map Value.name).idxOf name

/-- The names of values are different, a composed value names values in front of it, and the
type underneath is one of those that are allowed. -/
structure IsWellFormed (x : Enumeration) : Prop where
  distinct : (x.values.map Value.name).Nodup
  refers : ∀ p ∈ x.values.zipIdx, p.1.Refers (x.values.take p.2)
  parameter : ∀ b ∈ x.parameter, b ∈ [Builtin.small, .short, .integer]

instance : Decidable x.IsWellFormed :=
  decidable_of_iff ((x.values.map Value.name).Nodup ∧
      (∀ p ∈ x.values.zipIdx, p.1.Refers (x.values.take p.2)) ∧
      ∀ b ∈ x.parameter, b ∈ [Builtin.small, .short, .integer])
    ⟨fun h => ⟨h.1, h.2.1, h.2.2⟩, fun h => ⟨h.distinct, h.refers, h.parameter⟩⟩

/-- The enumeration is what was described, but for the numbers of its values. -/
structure Resembles (x : Enumeration) (e : Idl.Enumeration) : Prop where
  name : e.name.value = x.name
  package : e.package = none
  owner : e.owner = none
  parameter : e.parameter = some (.builtin (x.parameter.getD .integer))
  flags : e.flags = x.flags
  cast : e.cast = x.front.cast.getD .weak
  values : e.values.map (fun v => (v.name.value, v.parts)) = x.values.map (Value.view x.position)

/-- The enumeration is what was described, and its values have the numbers that are meant: the
absolute ones those in a row, and a composed one the bitwise or of those of its parts. -/
structure Describes (x : Enumeration) (e : Idl.Enumeration) : Prop extends x.Resembles e where
  absolute : e.numbers = List.range' (if x.flags then 0 else 1) (x.values.countP (·.parts.isNone))
  composed : ∀ w ∈ x.values, ∀ names, w.parts = some names →
    ∃ v parts, e.value? w.name = some v ∧
      List.Forall₂ (fun name part => e.value? name = some part) names parts ∧
      v.value = (parts.map (·.value)).foldl (· ||| ·) 0

variable {x}

theorem mem_pieces_value {v : Value} {p : Piece} (h : p ∈ v.pieces) :
    p ∈ Piece.ofEnumerations ∨ ∃ name ∈ v.names, p = .word name := by
  simp only [Value.pieces, List.mem_cons, List.mem_append, List.not_mem_nil, or_false] at h
  rcases h with rfl | h | rfl
  · exact .inr ⟨v.name, List.mem_cons_self, rfl⟩
  · cases hparts : v.parts with
    | none => simp [partPieces, hparts] at h
    | some names =>
      rw [hparts, partPieces, List.mem_cons] at h
      rcases h with rfl | h
      · exact .inl (by decide)
      · rcases eq_or_mem_of_mem_intersperse h with rfl | h
        · exact .inl (by decide)
        · obtain ⟨name, hname, rfl⟩ := List.mem_map.1 h
          exact .inr ⟨name, by simp [Value.names, hparts, hname], rfl⟩
  · exact .inl (by decide)

/-- An enumeration is written with names, a few words and marks. -/
theorem mem_pieces {p : Piece} (h : p ∈ x.pieces) :
    p ∈ Piece.ofEnumerations ∨ ∃ name ∈ x.names, p = .word name := by
  have hfront : ∀ w ∈ x.front.words, .word w ∈ Piece.ofEnumerations := by
    rcases x.front with ⟨_ | ⟨_ | _⟩, _ | _, _ | _⟩ <;> decide
  have hparameter : ∀ p ∈ parameterPieces x.parameter, p ∈ Piece.ofEnumerations := by
    rcases x.parameter with _ | b
    · simp [parameterPieces]
    · cases b <;> decide
  have hbehind : ∀ p ∈ behindPieces x.flagsBehind, p ∈ Piece.ofEnumerations := by
    cases x.flagsBehind <;> decide
  simp only [pieces, barePieces, List.mem_append, List.mem_cons, List.mem_map, List.mem_flatMap,
    List.not_mem_nil, or_false] at h
  rcases h with ⟨w, hw, rfl⟩ | rfl | h | rfl | h | rfl | ⟨v, hv, h⟩ | rfl
  · exact .inl (hfront w hw)
  · exact .inl (by decide)
  · exact .inl (hparameter p h)
  · exact .inr ⟨x.name, List.mem_cons_self, rfl⟩
  · exact .inl (hbehind p h)
  · exact .inl (by decide)
  · refine (mem_pieces_value h).imp_right fun ⟨name, hname, hp⟩ => ⟨name, ?_, hp⟩
    exact List.mem_cons_of_mem _ (List.mem_flatMap.2 ⟨v, hv, hname⟩)
  · exact .inl (by decide)

theorem kind_ne_comment {p : Piece} (h : p ∈ x.pieces) : p.kind ≠ .comment := by
  have hfixed : ∀ p ∈ Piece.ofEnumerations, p.kind ≠ .comment := by decide
  rcases mem_pieces h with h | ⟨name, -, rfl⟩
  · exact hfixed p h
  · exact Token.Kind.noConfusion

/-- Enumerations use no types but builtins. -/
theorem classifier_eq_none {p : Piece} (h : p ∈ x.pieces) : p.classifier = none := by
  have hfixed : ∀ p ∈ Piece.ofEnumerations, p.classifier = none := by decide
  rcases mem_pieces h with h | ⟨name, -, rfl⟩
  · exact hfixed p h
  · rfl

/-- The rendering of an enumeration spells its pieces. -/
theorem spell_render (h : ∀ name ∈ x.names, IsName name) :
    Spell (Token.tokenize x.render) x.pieces := by
  have hfixed : ∀ p ∈ Piece.ofEnumerations, p.IsLexeme := by decide
  rw [Token.tokenize, render, String.toList_ofList]
  refine spell_scan (fun p hp => ?_) _
  rcases mem_pieces hp with hp | ⟨name, hname, rfl⟩
  · exact hfixed p hp
  · exact Token.isLexeme_identifier (h name hname)

end Enumeration

end Draft

end Idl
