import Idl.Document.DataType
import Idl.Document.Heading

/-!
Enumerations. Values without parts are numbered in order, from zero with flags and from one
without, since zero is the invalid value of a plain enumeration. A composed value is the
bitwise or of earlier values, which it names by their positions.
-/

namespace Idl

/-- One value. Without parts it takes the next number. -/
structure EnumerationValue where
  name : Name
  location : Location
  comment : Option Comment := none
  enumeration : EnumerationId
  parts : Option (List Nat) := none
  value : Nat := 0
  deriving DecidableEq, Repr, Inhabited

def EnumerationValue.isAbsolute (v : EnumerationValue) : Bool :=
  v.parts.isNone

structure Enumeration extends Heading where
  /-- The underlying type, once it is known. -/
  parameter : Option DataType
  flags : Bool
  cast : Cast
  values : List EnumerationValue := []
  /-- The structure around a nested enumeration. -/
  owner : Option StructureId := none
  deriving DecidableEq, Repr, Inhabited

namespace Enumeration

def position? (e : Enumeration) (name : String) : Option Nat :=
  e.values.findIdx? (·.name.value == name)

def value? (e : Enumeration) (name : String) : Option EnumerationValue :=
  e.values.find? (·.name.value == name)

/-- The number of the first absolute value. -/
def firstNumber (e : Enumeration) : Nat :=
  if e.flags then 0 else 1

/-- Numbers the absolute values from `next` on. -/
def number (next : Nat) : List EnumerationValue → List EnumerationValue
  | [] => []
  | v :: rest =>
    if v.isAbsolute then { v with value := next } :: number (next + 1) rest
    else v :: number next rest

/-- The bitwise or of the numbers at those positions that are there. -/
def combine (numbers : List Nat) (positions : List Nat) : Nat :=
  (positions.filterMap (numbers[·]?)).foldl (· ||| ·) 0

/-- Gives the composed values their numbers; `before` are the numbers of the values in front. -/
def compose (before : List Nat) : List EnumerationValue → List EnumerationValue
  | [] => []
  | v :: rest =>
    let v :=
      match v.parts with
      | some positions => { v with value := combine before positions }
      | none => v
    v :: compose (before ++ [v.value]) rest

def addValue (e : Enumeration) (v : EnumerationValue) : Enumeration :=
  { e with values := e.values ++ [v] }

/-- The enumeration with the numbers of all its values. -/
def assignValues (e : Enumeration) : Enumeration :=
  { e with values := compose [] (number e.firstNumber e.values) }

/-- The numbers of the absolute values. -/
def numbers (e : Enumeration) : List Nat :=
  (e.values.filter EnumerationValue.isAbsolute).map EnumerationValue.value

/-- The smallest absolute value; without flags the invalid value zero counts too. -/
def minValue (e : Enumeration) : Nat :=
  if e.flags then e.numbers.min?.getD 0 else 0

/-- The largest absolute value, at least zero. -/
def maxValue (e : Enumeration) : Nat :=
  e.numbers.foldl max 0

theorem length_number (next : Nat) (values : List EnumerationValue) :
    (number next values).length = values.length := by
  induction values generalizing next with
  | nil => rfl
  | cons v rest ih => rw [number]; split <;> simp [ih]

theorem length_compose (before : List Nat) (values : List EnumerationValue) :
    (compose before values).length = values.length := by
  induction values generalizing before with
  | nil => rfl
  | cons v rest ih => simp [compose, ih]

end Enumeration

end Idl
