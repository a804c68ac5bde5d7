import Idl.Token.Lexer

/-!
The longest match. Behind a character the rules are those that are left of them, so what they
describe there is known by induction on the text: the match that is found is described by one of
the rules, and no longer beginning is. How far a reader gets while some rule can still match is
the length of the longest beginning that some text completes.
-/

namespace Idl

namespace Pattern

/-- Every part of the pattern matches some text, so there is no way into it that is of no use. -/
def Productive : Pattern → Prop
  | never => False
  | empty => True
  | one accepts => ∃ c, accepts c = true
  | seq p q | alt p q => Productive p ∧ Productive q
  | many p => Productive p

theorem not_matches_of_isNever {p : Pattern} (h : p.isNever = true) (w : List Char) :
    ¬ Matches p w := by
  cases p with
  | never => exact nofun
  | _ => cases h

theorem Productive.exists_matches {p : Pattern} (h : p.Productive) : ∃ w, Matches p w := by
  induction p with
  | never => exact h.elim
  | empty => exact ⟨[], .empty⟩
  | one accepts =>
    obtain ⟨c, hc⟩ := h
    exact ⟨[c], .one hc⟩
  | seq p q ihp ihq =>
    obtain ⟨a, ha⟩ := ihp h.1
    obtain ⟨b, hb⟩ := ihq h.2
    exact ⟨a ++ b, .seq ha hb⟩
  | alt p q ihp _ =>
    obtain ⟨a, ha⟩ := ihp h.1
    exact ⟨a, .left ha⟩
  | many p _ => exact ⟨[], .done⟩

theorem Productive.andThen {p q : Pattern} (hp : p.isNever = true ∨ p.Productive)
    (hq : q.Productive) : (p.andThen q).isNever = true ∨ (p.andThen q).Productive := by
  cases p with
  | never => exact .inl rfl
  | empty => exact .inr hq
  | _ => exact .inr ⟨hp.resolve_left nofun, hq⟩

theorem Productive.orElse {p q : Pattern} (hp : p.isNever = true ∨ p.Productive)
    (hq : q.isNever = true ∨ q.Productive) :
    (p.orElse q).isNever = true ∨ (p.orElse q).Productive := by
  cases p with
  | never => exact hq
  | _ =>
    cases q with
    | never => exact hp
    | _ => exact .inr ⟨hp.resolve_left nofun, hq.resolve_left nofun⟩

/-- A character either leaves nothing of a pattern, or a pattern of the same sort. -/
theorem Productive.derive {p : Pattern} (c : Char) (h : p.Productive) :
    (p.derive c).isNever = true ∨ (p.derive c).Productive := by
  induction p with
  | never | empty => exact .inl rfl
  | one accepts =>
    simp only [Pattern.derive]
    split
    · exact .inr trivial
    · exact .inl rfl
  | seq p q ihp ihq =>
    simp only [Pattern.derive]
    split
    · exact Productive.orElse (Productive.andThen (ihp h.1) h.2) (ihq h.2)
    · exact Productive.andThen (ihp h.1) h.2
  | alt p q ihp ihq => exact Productive.orElse (ihp h.1) (ihq h.2)
  | many p ih => exact Productive.andThen (ih h) h

end Pattern

namespace Token.Rule

variable {rules : List Rule} {kind : Kind} {c : Char} {text w : List Char} {n : Nat}

/-- One of the rules describes the text, as a token of the kind. -/
def Describes (rules : List Rule) (kind : Kind) (w : List Char) : Prop :=
  ∃ p, (kind, p) ∈ rules ∧ Pattern.Matches p w

/-- The text is the beginning of one that a rule describes. -/
def Viable (rules : List Rule) (w : List Char) : Prop :=
  ∃ kind v, Describes rules kind (w ++ v)

theorem mem_step_iff {q : Pattern} : (kind, q) ∈ step c rules ↔
    ∃ p, (kind, p) ∈ rules ∧ p.derive c = q ∧ q.isNever = false := by
  simp only [step, List.mem_filterMap, Prod.exists]
  constructor
  · rintro ⟨kind', p, hp, h⟩
    split at h
    · cases h
    · rename_i hq
      cases h
      exact ⟨p, hp, rfl, by simpa using hq⟩
  · rintro ⟨p, hp, rfl, hq⟩
    exact ⟨kind, p, hp, by simp [hq]⟩

theorem describes_step : Describes (step c rules) kind w ↔ Describes rules kind (c :: w) := by
  constructor
  · rintro ⟨q, hq, hw⟩
    obtain ⟨p, hp, rfl, _⟩ := mem_step_iff.1 hq
    exact ⟨p, hp, (Pattern.matches_derive c p w).1 hw⟩
  · rintro ⟨p, hp, hw⟩
    have hderive := (Pattern.matches_derive c p w).2 hw
    have halive : (p.derive c).isNever = false :=
      Bool.eq_false_iff.2 fun h => Pattern.not_matches_of_isNever h w hderive
    exact ⟨p.derive c, mem_step_iff.2 ⟨p, hp, rfl, halive⟩, hderive⟩

theorem viable_step : Viable (step c rules) w ↔ Viable rules (c :: w) :=
  exists_congr fun _ => exists_congr fun _ => describes_step

theorem describes_of_accepted (h : accepted rules = some kind) : Describes rules kind [] := by
  obtain ⟨⟨k, p⟩, hp, rfl⟩ := Option.map_eq_some_iff.1 h
  have hnullable : p.nullable = true := by simpa using List.find?_some hp
  exact ⟨p, List.mem_of_find?_eq_some hp, (Pattern.nullable_iff p).1 hnullable⟩

theorem not_describes_of_accepted (h : accepted rules = none) : ¬ Describes rules kind [] := by
  rintro ⟨p, hp, hw⟩
  have hnone := List.find?_eq_none.1 (Option.map_eq_none_iff.1 h) _ hp
  exact hnone ((Pattern.nullable_iff p).2 hw)

theorem longest_nil (text : List Char) : longest [] text = none := by
  cases text with
  | nil => rfl
  | cons c rest => rfl

theorem longest_cons (rules : List Rule) (c : Char) (rest : List Char) :
    longest rules (c :: rest) =
      match longest (step c rules) rest with
      | some (kind, length) => some (kind, length + 1)
      | none => (accepted rules).map (·, 0) := by
  rw [longest]
  by_cases h : (step c rules).isEmpty = true
  · rw [if_pos h, List.isEmpty_iff.1 h, longest_nil]
  · cases longest (step c rules) rest <;> simp only [if_neg h]

/-- Where there is no match, no beginning of the text is described. -/
theorem not_describes_of_longest (h : longest rules text = none) (hw : w <+: text) :
    ¬ Describes rules kind w := by
  induction text generalizing rules w with
  | nil =>
    rw [List.prefix_nil.1 hw]
    exact not_describes_of_accepted (Option.map_eq_none_iff.1 h)
  | cons c rest ih =>
    rw [longest_cons] at h
    split at h
    · cases h
    · rename_i hrest
      cases w with
      | nil => exact not_describes_of_accepted (Option.map_eq_none_iff.1 h)
      | cons d w =>
        obtain ⟨rfl, htail⟩ := List.cons_prefix_cons.1 hw
        rw [← describes_step]
        exact ih hrest htail

theorem describes_of_longest (h : longest rules text = some (kind, n)) :
    n ≤ text.length ∧ Describes rules kind (text.take n) := by
  induction text generalizing rules n with
  | nil =>
    obtain ⟨k, hk, heq⟩ := Option.map_eq_some_iff.1 h
    cases heq
    exact ⟨Nat.le_refl 0, describes_of_accepted hk⟩
  | cons c rest ih =>
    rw [longest_cons] at h
    split at h
    · rename_i k length hrest
      cases h
      obtain ⟨hle, hd⟩ := ih hrest
      exact ⟨Nat.succ_le_succ hle, describes_step.1 hd⟩
    · obtain ⟨k, hk, heq⟩ := Option.map_eq_some_iff.1 h
      cases heq
      exact ⟨Nat.zero_le _, describes_of_accepted hk⟩

/-- No beginning of the text that is described is longer than the match. -/
theorem length_le_of_longest {kind' : Kind} (h : longest rules text = some (kind, n))
    (hw : w <+: text) (hd : Describes rules kind' w) : w.length ≤ n := by
  induction text generalizing rules n w with
  | nil =>
    rw [List.prefix_nil.1 hw]
    exact Nat.zero_le n
  | cons c rest ih =>
    cases w with
    | nil => exact Nat.zero_le n
    | cons d w =>
      obtain ⟨rfl, htail⟩ := List.cons_prefix_cons.1 hw
      have hd' := describes_step.2 hd
      rw [longest_cons] at h
      split at h
      · rename_i k length hrest
        cases h
        exact Nat.succ_le_succ (ih hrest htail hd')
      · rename_i hrest
        exact absurd hd' (not_describes_of_longest hrest htail)

theorem reach_le_length (rules : List Rule) (text : List Char) :
    reach rules text ≤ text.length := by
  induction text generalizing rules with
  | nil => exact Nat.le_refl 0
  | cons c rest ih =>
    simp only [reach]
    split
    · exact Nat.zero_le _
    · exact Nat.succ_le_succ (ih _)

/-- A reader gets as far as what was read can still become a token. -/
theorem viable_iff_length_le_reach (hr : ∀ r ∈ rules, r.2.Productive) (hw : w <+: text)
    (hne : w ≠ []) : Viable rules w ↔ w.length ≤ reach rules text := by
  induction text generalizing rules w with
  | nil => exact absurd (List.prefix_nil.1 hw) hne
  | cons c rest ih =>
    cases w with
    | nil => exact absurd rfl hne
    | cons d w =>
      obtain ⟨rfl, htail⟩ := List.cons_prefix_cons.1 hw
      have hstep : ∀ r ∈ step d rules, r.2.Productive := by
        rintro ⟨k, q⟩ hq
        obtain ⟨p, hp, rfl, halive⟩ := mem_step_iff.1 hq
        exact (Pattern.Productive.derive d (hr _ hp)).resolve_left (by simp [halive])
      rw [← viable_step]
      simp only [reach]
      split
      · rename_i hempty
        rw [List.isEmpty_iff.1 hempty]
        simp [Viable, Describes]
      · rename_i hlive
        cases w with
        | nil =>
          simp only [List.length_cons, List.length_nil, Nat.le_add_left, iff_true]
          obtain ⟨⟨k, p⟩, hp⟩ :=
            List.exists_mem_of_ne_nil _ (mt List.isEmpty_iff.2 hlive)
          obtain ⟨v, hv⟩ := (hstep _ hp).exists_matches
          exact ⟨k, v, p, hp, hv⟩
        | cons e w =>
          rw [ih hstep htail (List.cons_ne_nil e w), List.length_cons (a := d)]
          exact Nat.succ_le_succ_iff.symm

end Token.Rule

end Idl
