import Idl.Proofs.Token.Layout

/-!
Tokens in the order of their lines and columns. Every character leads to a place further down, or
further right in the same line, so the places of the tokens of a text increase.
-/

namespace Idl

namespace Text.Place

/-- The place is in a line above the other one, or left of it in the same line. -/
def Before (p q : Place) : Prop :=
  p.line < q.line ∨ p.line = q.line ∧ p.column < q.column

instance (p q : Place) : Decidable (p.Before q) := by
  unfold Before
  infer_instance

theorem Before.trans {p q r : Place} (h : p.Before q) (h' : q.Before r) : p.Before r := by
  unfold Before at *
  omega

theorem before_next (p : Place) (c : Char) : p.Before (p.next c) := by
  have hc := c.utf8Size_pos
  unfold Before next
  split
  · exact .inl (Nat.lt_succ_self _)
  · exact .inr ⟨rfl, Nat.lt_add_of_pos_right hc⟩

theorem eq_or_before_after (p : Place) (text : List Char) :
    p.after text = p ∨ p.Before (p.after text) := by
  induction text generalizing p with
  | nil => exact .inl rfl
  | cons c rest ih =>
    refine .inr ?_
    rcases ih (p.next c) with h | h
    · exact (congrArg p.Before h).mpr (p.before_next c)
    · exact (p.before_next c).trans h

theorem before_after (p : Place) (c : Char) (rest : List Char) :
    p.Before (p.after (c :: rest)) := by
  rcases (p.next c).eq_or_before_after rest with h | h
  · exact (congrArg p.Before h).mpr (p.before_next c)
  · exact (p.before_next c).trans h

end Text.Place

namespace Token

open Text

def Before (t u : Token) : Prop :=
  t.place.Before u.place

instance (t u : Token) : Decidable (t.Before u) :=
  inferInstanceAs (Decidable (t.place.Before u.place))

theorem scan_before (place : Place) (text : List Char) : (scan place text).Pairwise Before := by
  fun_induction scan place text with
  | case1 => exact List.Pairwise.nil
  | case2 place c rest _ ih => exact ih
  | case3 place c rest _ kind length _ text ih =>
    refine List.pairwise_cons.2 ⟨fun u hu => ?_, ih⟩
    obtain ⟨before, _, _, _, hplace, _⟩ := exists_lexeme hu
    rw [Before, hplace, ← Place.after_append]
    exact place.before_after c _

/-- The places of the tokens of a text increase. -/
theorem tokenize_before (text : String) : (tokenize text).Pairwise Before :=
  scan_before {} text.toList

end Token

end Idl
