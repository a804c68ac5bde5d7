import Mathlib.Data.List.Forall2
import Idl.Document.Enumeration

/-!
The values of an enumeration by name and by number. Where names are different, a name finds the
one value that has it. Values that are numbered keep everything else; the absolute ones have
numbers in a row, and a composed one has the bitwise or of those at its positions in front of it.
-/

namespace Idl.Enumeration

section Named

variable {e : Enumeration} (hnames : (e.values.map (·.name.value)).Nodup) {i : Nat}
  {v : EnumerationValue} (hv : e.values[i]? = some v)

include hnames hv

/-- No value in front has the name of a value. -/
theorem name_ne_of_lt {j : Nat} {w : EnumerationValue} (hj : j < i) (hw : e.values[j]? = some w) :
    w.name.value ≠ v.name.value := by
  obtain ⟨hi, rfl⟩ := List.getElem?_eq_some_iff.1 hv
  obtain ⟨hj', rfl⟩ := List.getElem?_eq_some_iff.1 hw
  exact List.pairwise_iff_getElem.1 (List.pairwise_map.1 hnames) j i hj' hi hj

theorem position?_of_getElem? : e.position? v.name.value = some i := by
  obtain ⟨hi, hget⟩ := List.getElem?_eq_some_iff.1 hv
  refine List.findIdx?_eq_some_iff_getElem.2 ⟨hi, by simp [hget], fun j hj => ?_⟩
  have hne := name_ne_of_lt hnames hv hj (List.getElem?_eq_getElem (Nat.lt_trans hj hi))
  simpa using hne

theorem value?_of_getElem? : e.value? v.name.value = some v := by
  obtain ⟨hi, hget⟩ := List.getElem?_eq_some_iff.1 hv
  refine List.find?_eq_some_iff_getElem.2 ⟨by simp, i, hi, hget, fun j hj => ?_⟩
  have hne := name_ne_of_lt hnames hv hj (List.getElem?_eq_getElem (Nat.lt_trans hj hi))
  simpa using hne

end Named

section Keep

variable {α : Type} (g : EnumerationValue → α) (hg : ∀ v n, g { v with value := n } = g v)

include hg

theorem map_number (next : Nat) (values : List EnumerationValue) :
    (number next values).map g = values.map g := by
  induction values generalizing next with
  | nil => rfl
  | cons v rest ih => rw [number]; split <;> simp [ih, hg]

theorem map_compose (before : List Nat) (values : List EnumerationValue) :
    (compose before values).map g = values.map g := by
  induction values generalizing before with
  | nil => rfl
  | cons v rest ih =>
    simp only [compose, List.map_cons, ih]
    split
    · rw [hg]
    · rfl

/-- Values that are numbered keep all but their numbers. -/
theorem map_assignValues (e : Enumeration) : e.assignValues.values.map g = e.values.map g :=
  (map_compose g hg _ _).trans (map_number g hg _ _)

end Keep

section Absolute

theorem filter_isAbsolute_compose (before : List Nat) (values : List EnumerationValue) :
    (compose before values).filter EnumerationValue.isAbsolute =
      values.filter EnumerationValue.isAbsolute := by
  induction values generalizing before with
  | nil => rfl
  | cons v rest ih =>
    rw [compose]
    cases hparts : v.parts with
    | none => simp only [List.filter_cons, ih]
    | some positions =>
      have hcomposed : ¬v.isAbsolute = true := by simp [EnumerationValue.isAbsolute, hparts]
      rw [List.filter_cons_of_neg hcomposed, List.filter_cons_of_neg, ih]
      simp [EnumerationValue.isAbsolute]

theorem values_filter_number (next : Nat) (values : List EnumerationValue) :
    ((number next values).filter EnumerationValue.isAbsolute).map EnumerationValue.value =
      List.range' next (values.countP EnumerationValue.isAbsolute) := by
  induction values generalizing next with
  | nil => rfl
  | cons v rest ih =>
    rw [number]
    by_cases hv : v.isAbsolute = true
    · have hnumbered : EnumerationValue.isAbsolute { v with value := next } = true := hv
      rw [if_pos hv, List.filter_cons_of_pos hnumbered, List.map_cons, ih,
        List.countP_cons_of_pos hv, List.range'_succ]
    · rw [if_neg hv, List.filter_cons_of_neg hv, ih, List.countP_cons_of_neg hv]

/-- The numbers of the absolute values follow upon each other. -/
theorem numbers_assignValues (e : Enumeration) :
    e.assignValues.numbers =
      List.range' e.firstNumber (e.values.countP EnumerationValue.isAbsolute) := by
  rw [numbers, assignValues, filter_isAbsolute_compose]
  exact values_filter_number _ _

end Absolute

section Composed

theorem value_of_compose {before : List Nat} {values : List EnumerationValue} {i : Nat}
    {v : EnumerationValue} {positions : List Nat} (hv : (compose before values)[i]? = some v)
    (hparts : v.parts = some positions) :
    v.value = combine (before ++ ((compose before values).take i).map (·.value)) positions := by
  induction values generalizing before i with
  | nil => cases hv
  | cons w rest ih =>
    rw [compose] at hv ⊢
    cases i with
    | zero =>
      rw [List.getElem?_cons_zero, Option.some.injEq] at hv
      subst hv
      cases hw : w.parts with
      | none => simp [hw] at hparts
      | some others => simp_all
    | succ i =>
      rw [List.getElem?_cons_succ] at hv
      rw [ih hv, List.take_succ_cons, List.map_cons, List.append_assoc, List.singleton_append]

/-- The number of a composed value is put together from the values in front of it. -/
theorem value_of_assignValues {e : Enumeration} {i : Nat} {v : EnumerationValue}
    {positions : List Nat} (hv : e.assignValues.values[i]? = some v)
    (hparts : v.parts = some positions) :
    v.value = combine ((e.assignValues.values.take i).map (·.value)) positions :=
  value_of_compose hv hparts

/-- Where all positions hold values, their numbers are what is put together. -/
theorem combine_eq {values : List EnumerationValue} {i : Nat} {positions : List Nat}
    {parts : List EnumerationValue}
    (h : List.Forall₂ (fun position v => position < i ∧ values[position]? = some v)
      positions parts) :
    combine ((values.take i).map (·.value)) positions =
      (parts.map (·.value)).foldl (· ||| ·) 0 := by
  have hparts : positions.filterMap (((values.take i).map (·.value))[·]?) =
      parts.map (·.value) := by
    induction h with
    | nil => rfl
    | @cons position v _ _ hv _ ih =>
      have hread : ((values.take i).map (·.value))[position]? = some v.value := by
        rw [List.getElem?_map, List.getElem?_take_of_lt hv.1, hv.2]
        rfl
      rw [List.filterMap_cons_some hread, ih, List.map_cons]
  rw [combine, hparts]

end Composed

end Idl.Enumeration
