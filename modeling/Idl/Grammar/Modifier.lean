import Idl.Grammar.Body

/-!
Modifiers in front of a construct. They are read before it is known which construct follows.
The construct then takes those it has a meaning for, at most one of each group of words;
what is left of them is reported when the construct has been read.
-/

namespace Idl.Grammar

/-- Reads modifiers up to the first token that is none of the words. -/
def modifiers (words : List String) : Parser (List Token) :=
  iterate (fun taken => do
    match (← get).current with
    | some t =>
      if t.kind == .identifier && words.contains t.text then
        advance
        return .again (taken ++ [t])
      else return .done taken
    | none => return .done taken) []

/-- The modifier that is taken from a group of words. -/
def taken? (modifiers : List Token) (group : List String) : Option Token :=
  modifiers.find? fun t => group.contains t.text

def isTaken (modifiers : List Token) (word : String) : Bool :=
  (taken? modifiers [word]).isSome

/-- The modifiers that are left when one of each group is taken. -/
def leftOver (modifiers : List Token) (groups : List (List String)) : List Token :=
  groups.foldl (fun left group => left.eraseP fun t => group.contains t.text) modifiers

/-- Reports modifiers that have no meaning where they stand. -/
def reportModifiers (modifiers : List Token) : Parser Unit :=
  modify fun s => modifiers.foldl
    (fun s t => s.report (.of .unexpectedModifier (s.locationOf t) [(.modifier, t.text)])) s

/-- The words that say how freely values convert. -/
def castWords : List String :=
  ["strong", "weak"]

/-- Values convert freely unless the first of these words is `strong`. -/
def castOf (modifiers : List Token) : Cast :=
  if (taken? modifiers castWords).any (·.text == Cast.strong.name) then .strong else .weak

end Idl.Grammar
