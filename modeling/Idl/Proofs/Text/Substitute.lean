import Idl.Text.Substitute
import Mathlib.Data.List.Infix

/-!
What substitution does to a text in two parts. An occurrence of the hole lies in one of the
parts where a character that the hole does not have stands between them.
-/

namespace Idl.Text

variable {hole value : List Char}

@[simp]
theorem substitute_nil : substitute hole value [] = [] := rfl

theorem substituteAfter_eq_drop (n : Nat) (text : List Char) :
    substituteAfter hole value n text = substitute hole value (text.drop n) := by
  induction text generalizing n with
  | nil => simp [substituteAfter]
  | cons c rest ih =>
    cases n with
    | zero => rfl
    | succ n => exact ih n

theorem substitute_hole_append (hne : hole ≠ []) (rest : List Char) :
    substitute hole value (hole ++ rest) = value ++ substitute hole value rest := by
  obtain ⟨c, tail, rfl⟩ := List.exists_cons_of_ne_nil hne
  have hp : (c :: tail).isPrefixOf (c :: (tail ++ rest)) = true := by simp
  rw [List.cons_append, substitute, substituteAfter, if_pos hp, substituteAfter_eq_drop]
  simp

theorem substitute_cons_of_mismatch {c : Char} {rest : List Char} (h : ¬ hole <+: c :: rest) :
    substitute hole value (c :: rest) = c :: substitute hole value rest := by
  have hp : ¬ hole.isPrefixOf (c :: rest) = true := mt List.isPrefixOf_iff_prefix.1 h
  rw [substitute, substituteAfter, if_neg hp, substitute]

theorem substitute_self (hne : hole ≠ []) : substitute hole value hole = value := by
  have h := @substitute_hole_append hole value hne []
  rwa [List.append_nil, substitute_nil, List.append_nil] at h

theorem substitute_of_not_infix {text : List Char} (h : ¬ hole <:+: text) :
    substitute hole value text = text := by
  induction text with
  | nil => rfl
  | cons c rest ih =>
    rw [List.infix_cons_iff, not_or] at h
    rw [substitute_cons_of_mismatch h.1, ih h.2]

theorem prefix_append_cons_iff {c : Char} (hc : c ∉ hole) (a b : List Char) :
    hole <+: a ++ c :: b ↔ hole <+: a := by
  refine ⟨fun h => ?_, fun h => h.trans (List.prefix_append a _)⟩
  refine List.prefix_of_prefix_length_le h (List.prefix_append a _) (Nat.le_of_not_lt fun hlt => ?_)
  have hget : hole[a.length] = c := by
    rw [h.getElem hlt]
    simp
  exact hc (hget ▸ List.getElem_mem hlt)

theorem substitute_append_cons {c : Char} (hc : c ∉ hole) (hne : hole ≠ []) (a b : List Char) :
    substitute hole value (a ++ c :: b) =
      substitute hole value a ++ c :: substitute hole value b := by
  induction h : a.length using Nat.strong_induction_on generalizing a with
  | _ n ih =>
    subst h
    by_cases hp : hole <+: a
    · obtain ⟨rest, rfl⟩ := hp
      have hlt : rest.length < (hole ++ rest).length := by
        have := List.length_pos_of_ne_nil hne
        simp
        omega
      rw [List.append_assoc, substitute_hole_append hne, substitute_hole_append hne,
        ih _ hlt rest rfl, List.append_assoc]
    · have hp' : ¬ hole <+: a ++ c :: b := by rwa [prefix_append_cons_iff hc]
      cases a with
      | nil => exact substitute_cons_of_mismatch hp'
      | cons x rest =>
        rw [List.cons_append] at hp' ⊢
        rw [substitute_cons_of_mismatch hp', substitute_cons_of_mismatch hp,
          ih _ (by simp) rest rfl, List.cons_append]

theorem infix_append_cons_iff {c : Char} (hc : c ∉ hole) (hne : hole ≠ []) (a b : List Char) :
    hole <:+: a ++ c :: b ↔ hole <:+: a ∨ hole <:+: b := by
  induction a with
  | nil =>
    have hp : ¬ hole <+: c :: b := by
      rw [← List.nil_append (c :: b), prefix_append_cons_iff hc]
      simpa using hne
    rw [List.nil_append, List.infix_cons_iff]
    simp [hp, hne]
  | cons x rest ih =>
    rw [List.cons_append, List.infix_cons_iff, List.infix_cons_iff, ih, ← List.cons_append,
      prefix_append_cons_iff hc, or_assoc]

/-- The two texts meet at a character that the hole does not have. -/
def Apart (hole a b : List Char) : Prop :=
  ∃ c, c ∉ hole ∧ (a.getLast? = some c ∨ b.head? = some c)

namespace Apart

variable {a b : List Char}

theorem substitute_append (h : Apart hole a b) (hne : hole ≠ []) :
    substitute hole value (a ++ b) = substitute hole value a ++ substitute hole value b := by
  obtain ⟨c, hc, hlast | hhead⟩ := h
  · obtain ⟨front, rfl⟩ := List.getLast?_eq_some_iff.1 hlast
    rw [List.append_assoc, List.singleton_append, substitute_append_cons hc hne,
      substitute_append_cons hc hne, substitute_nil, List.append_assoc, List.singleton_append]
  · obtain ⟨back, rfl⟩ := List.head?_eq_some_iff.1 hhead
    have hbegin := @substitute_append_cons hole value c hc hne [] back
    rw [List.nil_append, substitute_nil, List.nil_append] at hbegin
    rw [substitute_append_cons hc hne, hbegin]

theorem infix_append_iff (h : Apart hole a b) (hne : hole ≠ []) :
    hole <:+: a ++ b ↔ hole <:+: a ∨ hole <:+: b := by
  obtain ⟨c, hc, hlast | hhead⟩ := h
  · obtain ⟨front, rfl⟩ := List.getLast?_eq_some_iff.1 hlast
    rw [List.append_assoc, List.singleton_append, infix_append_cons_iff hc hne,
      infix_append_cons_iff hc hne]
    simp [hne]
  · obtain ⟨back, rfl⟩ := List.head?_eq_some_iff.1 hhead
    have hbegin := infix_append_cons_iff hc hne [] back
    rw [List.nil_append] at hbegin
    rw [infix_append_cons_iff hc hne, hbegin]
    simp [hne]

end Apart

end Idl.Text
