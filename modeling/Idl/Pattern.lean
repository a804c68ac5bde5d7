/-!
Regular patterns over characters. `Matches` says which texts a pattern describes; `derive`
says what is left of a pattern behind one character. A pattern is dropped to `never` as soon
as no continuation can match, so a reader sees at once that it has read too far.
-/

namespace Idl

inductive Pattern where
  | never
  | empty
  | one (accepts : Char → Bool)
  | seq (first second : Pattern)
  | alt (left right : Pattern)
  | many (inner : Pattern)

namespace Pattern

/-- The texts a pattern describes. -/
inductive Matches : Pattern → List Char → Prop
  | empty : Matches .empty []
  | one {accepts : Char → Bool} {c : Char} : accepts c = true → Matches (.one accepts) [c]
  | seq {p q : Pattern} {a b : List Char} : Matches p a → Matches q b → Matches (.seq p q) (a ++ b)
  | left {p q : Pattern} {a : List Char} : Matches p a → Matches (.alt p q) a
  | right {p q : Pattern} {a : List Char} : Matches q a → Matches (.alt p q) a
  | done {p : Pattern} : Matches (.many p) []
  | more {p : Pattern} {a b : List Char} :
      Matches p a → Matches (.many p) b → Matches (.many p) (a ++ b)

def char (c : Char) : Pattern :=
  .one (· == c)

def oneOf (cs : List Char) : Pattern :=
  .one (cs.contains ·)

def noneOf (cs : List Char) : Pattern :=
  .one (!cs.contains ·)

def word : List Char → Pattern
  | [] => .empty
  | [c] => char c
  | c :: rest => .seq (char c) (word rest)

def atLeastOne (p : Pattern) : Pattern :=
  .seq p (.many p)

def maybe (p : Pattern) : Pattern :=
  .alt .empty p

/-- One pattern after the other. -/
def chain : List Pattern → Pattern
  | [] => .empty
  | [p] => p
  | p :: rest => .seq p (chain rest)

def choice : List Pattern → Pattern
  | [] => .never
  | [p] => p
  | p :: rest => .alt p (choice rest)

/-- Whether the empty text matches. -/
def nullable : Pattern → Bool
  | never | one _ => false
  | empty | many _ => true
  | seq p q => nullable p && nullable q
  | alt p q => nullable p || nullable q

def isNever : Pattern → Bool
  | never => true
  | _ => false

/-- `seq`, without a first part that matches nothing or only the empty text. -/
def andThen : Pattern → Pattern → Pattern
  | never, _ => never
  | empty, q => q
  | p, q => seq p q

/-- `alt`, without a side that matches nothing. -/
def orElse : Pattern → Pattern → Pattern
  | never, q => q
  | p, never => p
  | p, q => alt p q

/-- What has to follow `c` for the pattern to match. -/
def derive (c : Char) : Pattern → Pattern
  | never | empty => never
  | one accepts => if accepts c then empty else never
  | seq p q =>
    if nullable p then ((derive c p).andThen q).orElse (derive c q) else (derive c p).andThen q
  | alt p q => (derive c p).orElse (derive c q)
  | many p => (derive c p).andThen (many p)

theorem nullable_iff (p : Pattern) : nullable p = true ↔ Matches p [] := by
  induction p with
  | never => exact ⟨nofun, nofun⟩
  | empty => exact ⟨fun _ => .empty, fun _ => rfl⟩
  | one accepts => exact ⟨nofun, nofun⟩
  | seq p q ihp ihq =>
    simp only [nullable, Bool.and_eq_true, ihp, ihq]
    constructor
    · exact fun h => .seq h.1 h.2
    · intro h
      generalize hw : ([] : List Char) = w at h
      cases h with
      | seq ha hb =>
        obtain ⟨rfl, rfl⟩ := List.nil_eq_append_iff.1 hw
        exact ⟨ha, hb⟩
  | alt p q ihp ihq =>
    simp only [nullable, Bool.or_eq_true, ihp, ihq]
    constructor
    · exact fun h => h.elim .left .right
    · intro h
      cases h with
      | left h => exact .inl h
      | right h => exact .inr h
  | many p _ => exact ⟨fun _ => .done, fun _ => rfl⟩

theorem matches_andThen (p q : Pattern) (w : List Char) :
    Matches (p.andThen q) w ↔ Matches (.seq p q) w := by
  cases p with
  | never => exact ⟨nofun, fun h => by cases h with | seq h _ => cases h⟩
  | empty =>
    constructor
    · exact fun h => .seq .empty h
    · intro h
      cases h with
      | seq ha hb => cases ha; exact hb
  | _ => exact Iff.rfl

theorem matches_orElse (p q : Pattern) (w : List Char) :
    Matches (p.orElse q) w ↔ Matches p w ∨ Matches q w := by
  have split : Matches (.alt p q) w ↔ Matches p w ∨ Matches q w := by
    constructor
    · intro h
      cases h with
      | left h => exact .inl h
      | right h => exact .inr h
    · exact fun h => h.elim .left .right
  cases p with
  | never => exact ⟨.inr, fun h => h.resolve_left nofun⟩
  | _ =>
    cases q with
    | never => exact ⟨.inl, fun h => h.resolve_right nofun⟩
    | _ => exact split

private theorem matches_many_cons {p : Pattern} {w : List Char} (h : Matches (.many p) w) :
    ∀ c v, w = c :: v →
      ∃ a b, v = a ++ b ∧ Matches p (c :: a) ∧ Matches (.many p) b := by
  generalize hp : Pattern.many p = m at h
  induction h with
  | empty | one _ | seq _ _ | left _ | right _ => cases hp
  | done => nofun
  | @more p' a b ha hb _ ihb =>
    cases hp
    intro c v hw
    cases a with
    | nil => exact ihb rfl c v hw
    | cons d a =>
      obtain ⟨rfl, rfl⟩ := List.cons.inj hw
      exact ⟨a, b, rfl, ha, hb⟩

/-- A text matches behind `c` exactly when `c` and the text match. -/
theorem matches_derive (c : Char) (p : Pattern) (w : List Char) :
    Matches (derive c p) w ↔ Matches p (c :: w) := by
  induction p generalizing w with
  | never => exact ⟨nofun, nofun⟩
  | empty => exact ⟨nofun, nofun⟩
  | one accepts =>
    simp only [derive]
    split
    · rename_i h
      constructor
      · intro m; cases m; exact .one h
      · intro m; cases m; exact .empty
    · rename_i h
      exact ⟨nofun, fun m => by cases m with | one m => exact absurd m h⟩
  | seq p q ihp ihq =>
    have key : Matches (.seq p q) (c :: w) ↔
        Matches (.seq (derive c p) q) w ∨ (nullable p = true ∧ Matches (derive c q) w) := by
      constructor
      · intro m
        generalize hv : c :: w = v at m
        cases m with
        | @seq _ _ a b ha hb =>
          cases a with
          | nil => subst hv; exact .inr ⟨(nullable_iff p).2 ha, (ihq w).2 hb⟩
          | cons d a =>
            obtain ⟨rfl, rfl⟩ := List.cons.inj hv
            exact .inl (.seq ((ihp a).2 ha) hb)
      · rintro (m | ⟨hn, m⟩)
        · cases m with
          | @seq _ _ a b ha hb => exact .seq (a := c :: a) ((ihp a).1 ha) hb
        · exact .seq (a := []) ((nullable_iff p).1 hn) ((ihq w).1 m)
    rw [key]
    simp only [derive]
    split
    · rename_i h
      rw [matches_orElse, matches_andThen]
      simp [h]
    · rename_i h
      rw [matches_andThen]
      simp [h]
  | alt p q ihp ihq =>
    simp only [derive]
    rw [matches_orElse, ihp, ihq]
    constructor
    · exact fun h => h.elim .left .right
    · intro h
      cases h with
      | left h => exact .inl h
      | right h => exact .inr h
  | many p ihp =>
    simp only [derive]
    rw [matches_andThen]
    constructor
    · intro m
      cases m with
      | @seq _ _ a b ha hb => exact .more (a := c :: a) ((ihp a).1 ha) hb
    · intro m
      obtain ⟨a, b, rfl, ha, hb⟩ := matches_many_cons m c w rfl
      exact .seq ((ihp a).2 ha) hb

end Pattern

end Idl
