/-!
Substitution in a text: every occurrence of a hole, from left to right, gives way to a value.
What was put in is not searched again.
-/

namespace Idl.Text

/-- Skips the first `skip` characters, then substitutes. -/
def substituteAfter (hole value : List Char) : Nat → List Char → List Char
  | _, [] => []
  | skip + 1, _ :: rest => substituteAfter hole value skip rest
  | 0, c :: rest =>
    if hole.isPrefixOf (c :: rest) then
      value ++ substituteAfter hole value (hole.length - 1) rest
    else c :: substituteAfter hole value 0 rest

/-- Puts `value` in the place of every occurrence of `hole`, which is not empty. -/
def substitute (hole value text : List Char) : List Char :=
  substituteAfter hole value 0 text

end Idl.Text
