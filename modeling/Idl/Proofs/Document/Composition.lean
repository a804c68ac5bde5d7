import Mathlib.Algebra.Group.Nat.Defs
import Mathlib.Logic.Relation
import Mathlib.Order.Bounds.Basic
import Idl.Proofs.Document.Number

/-!
What the numbers of an enumeration are, without the way they are found. An absolute value has the
number of absolute values in front of it, counted from the first number. A composed value names
values in front of it that may be composed as well; its bits are those of the absolute values
where this comes to an end. Numbers from before, and positions that are not in front, do not count.
-/

namespace Idl

/-- The value without its number. -/
def EnumerationValue.unnumbered (v : EnumerationValue) : EnumerationValue :=
  { v with value := 0 }

namespace Enumeration

variable {e : Enumeration} {p q k : Nat}

/-- The value at `p` is composed, and the one at `q` in front of it is a part of it. -/
def Refers (e : Enumeration) (p q : Nat) : Prop :=
  ∃ v positions, e.values[p]? = some v ∧ v.parts = some positions ∧ q ∈ positions ∧ q < p

/-- Parts of parts lead from the value at `p` to the one at `q`. -/
def Reaches (e : Enumeration) : Nat → Nat → Prop :=
  Relation.ReflTransGen e.Refers

def IsAbsoluteAt (e : Enumeration) (p : Nat) : Prop :=
  ∃ v, e.values[p]? = some v ∧ v.parts = none

/-- The number an absolute value at a position gets. -/
def ordinal (e : Enumeration) (p : Nat) : Nat :=
  (if e.flags then 0 else 1) + (e.values.take p).countP (·.parts.isNone)

open scoped Classical in
/-- The absolute values that the value at a position is made of. -/
noncomputable def origins (e : Enumeration) (p : Nat) : List Nat :=
  (List.range (p + 1)).filter fun q => e.Reaches p q ∧ e.IsAbsoluteAt q

section Reach

theorem Reaches.le (h : e.Reaches p q) : q ≤ p := by
  induction h with
  | refl => exact Nat.le_refl p
  | tail _ hrefers ih =>
    obtain ⟨_, _, -, -, -, hlt⟩ := hrefers
    exact Nat.le_trans (Nat.le_of_lt hlt) ih

theorem mem_origins_iff : q ∈ e.origins p ↔ e.Reaches p q ∧ e.IsAbsoluteAt q := by
  simp only [origins, List.mem_filter, List.mem_range, Nat.lt_succ_iff, decide_eq_true_eq]
  exact ⟨And.right, fun h => ⟨h.1.le, h⟩⟩

theorem reaches_iff : e.Reaches p q ↔ p = q ∨ ∃ r, e.Refers p r ∧ e.Reaches r q :=
  Relation.ReflTransGen.cases_head_iff

/-- An absolute value is made of nothing but itself. -/
theorem mem_origins_of_parts_none {v : EnumerationValue} (hv : e.values[p]? = some v)
    (ha : v.parts = none) : q ∈ e.origins p ↔ q = p := by
  rw [mem_origins_iff, reaches_iff]
  constructor
  · rintro ⟨rfl | ⟨r, ⟨w, positions, hw, hparts, -⟩, -⟩, -⟩
    · rfl
    · obtain rfl : v = w := Option.some.inj (hv.symm.trans hw)
      cases ha.symm.trans hparts
  · rintro rfl
    exact ⟨.inl rfl, v, hv, ha⟩

/-- A composed value is made of what its parts in front of it are made of. -/
theorem mem_origins_of_parts {v : EnumerationValue} {positions : List Nat}
    (hv : e.values[p]? = some v) (hparts : v.parts = some positions) :
    q ∈ e.origins p ↔ ∃ r ∈ positions, r < p ∧ q ∈ e.origins r := by
  simp only [mem_origins_iff]
  rw [reaches_iff]
  constructor
  · rintro ⟨rfl | ⟨r, ⟨w, others, hw, hothers, hr, hlt⟩, hreach⟩, hq⟩
    · obtain ⟨w, hw, ha⟩ := hq
      obtain rfl : v = w := Option.some.inj (hv.symm.trans hw)
      cases ha.symm.trans hparts
    · obtain rfl : v = w := Option.some.inj (hv.symm.trans hw)
      obtain rfl : positions = others := Option.some.inj (hparts.symm.trans hothers)
      exact ⟨r, hr, hlt, hreach, hq⟩
  · rintro ⟨r, hr, hlt, hreach, hq⟩
    exact ⟨.inr ⟨r, ⟨v, positions, hv, hparts, hr, hlt⟩, hreach⟩, hq⟩

end Reach

section Absolute

theorem value_of_number {next i : Nat} {values : List EnumerationValue} {v : EnumerationValue}
    (hv : (number next values)[i]? = some v) (ha : v.isAbsolute = true) :
    v.value = next + (values.take i).countP EnumerationValue.isAbsolute := by
  induction values generalizing next i with
  | nil => cases hv
  | cons w rest ih =>
    rw [number] at hv
    cases i with
    | zero =>
      split at hv
      · obtain rfl := Option.some.inj hv
        rfl
      · obtain rfl := Option.some.inj hv
        contradiction
    | succ i =>
      rw [List.take_succ_cons, List.countP_cons]
      split at hv
      · rw [ih hv, if_pos (by assumption)]
        omega
      · rw [ih hv, if_neg (by assumption)]
        omega

/-- A value without parts comes out of the composition as it went in. -/
theorem getElem?_of_compose {before : List Nat} {values : List EnumerationValue} {i : Nat}
    {v : EnumerationValue} (hv : (compose before values)[i]? = some v)
    (ha : v.isAbsolute = true) : values[i]? = some v := by
  induction values generalizing before i with
  | nil => cases hv
  | cons w rest ih =>
    cases i with
    | zero =>
      have hw := Option.some.inj hv
      cases hparts : w.parts with
      | none =>
        simp only [hparts] at hw
        rw [hw, List.getElem?_cons_zero]
      | some positions =>
        simp only [hparts] at hw
        simp [← hw, EnumerationValue.isAbsolute] at ha
    | succ i => exact ih hv

theorem value_of_parts_none {v : EnumerationValue} (hv : e.assignValues.values[p]? = some v)
    (ha : v.parts = none) : v.value = e.ordinal p :=
  have habsolute : v.isAbsolute = true := Option.isNone_iff_eq_none.2 ha
  value_of_number (getElem?_of_compose hv habsolute) habsolute

/-- The first numbers are for the absolute values, and there are no more of them. -/
theorem ordinal_lt {v : EnumerationValue} (hv : e.values[p]? = some v)
    (ha : v.parts = none) :
    e.ordinal p < (if e.flags then 0 else 1) + e.values.countP (·.parts.isNone) := by
  have hsplit := congrArg (List.countP (·.parts.isNone)) (List.take_append_drop p e.values)
  obtain ⟨hp, rfl⟩ := List.getElem?_eq_some_iff.1 hv
  have hnone : e.values[p].parts.isNone = true := Option.isNone_iff_eq_none.2 ha
  rw [List.countP_append, List.drop_eq_getElem_cons hp, List.countP_cons, if_pos hnone] at hsplit
  rw [ordinal]
  omega

end Absolute

section Bits

theorem testBit_foldl_or (numbers : List Nat) (n : Nat) :
    (numbers.foldl (· ||| ·) n).testBit k = true ↔
      n.testBit k = true ∨ ∃ m ∈ numbers, m.testBit k = true := by
  induction numbers generalizing n with
  | nil => simp
  | cons m rest ih => simp [ih, or_assoc]

theorem testBit_combine (numbers positions : List Nat) :
    (combine numbers positions).testBit k = true ↔
      ∃ q ∈ positions, ∃ n, numbers[q]? = some n ∧ n.testBit k = true := by
  rw [combine, testBit_foldl_or]
  simp only [Nat.zero_testBit, Bool.false_eq_true, false_or, List.mem_filterMap]
  constructor
  · rintro ⟨n, ⟨q, hq, hn⟩, hbit⟩
    exact ⟨q, hq, n, hn, hbit⟩
  · rintro ⟨q, hq, n, hn, hbit⟩
    exact ⟨n, ⟨q, hq, hn⟩, hbit⟩

/-- Every value with a number has one before. -/
theorem getElem?_assignValues {v : EnumerationValue} (hv : e.assignValues.values[p]? = some v) :
    ∃ w, e.values[p]? = some w ∧ w.parts = v.parts := by
  have hmap := congrArg (·[p]?) (e.map_assignValues (·.parts) fun _ _ => rfl)
  simp only [List.getElem?_map, hv, Option.map_some] at hmap
  obtain ⟨w, hw, hparts⟩ := Option.map_eq_some_iff.1 hmap.symm
  exact ⟨w, hw, hparts⟩

theorem lt_length_assignValues (h : p < e.values.length) : p < e.assignValues.values.length := by
  rwa [assignValues, length_compose, length_number]

/-- A bit is set in a number where it is set in one of the absolute values it is made of. -/
theorem testBit_value {v : EnumerationValue} (hv : e.assignValues.values[p]? = some v) :
    v.value.testBit k = true ↔ ∃ q ∈ e.origins p, (e.ordinal q).testBit k = true := by
  induction p using Nat.strong_induction_on generalizing v with
  | _ p ih =>
    obtain ⟨w, hw, hparts⟩ := getElem?_assignValues hv
    cases hv' : v.parts with
    | none =>
      simp [value_of_parts_none hv hv', mem_origins_of_parts_none hw (hparts.trans hv')]
    | some positions =>
      rw [value_of_assignValues hv hv', testBit_combine]
      simp only [mem_origins_of_parts hw (hparts.trans hv')]
      have hlength := (List.getElem?_eq_some_iff.1 hw).1
      constructor
      · rintro ⟨r, hr, n, hn, hbit⟩
        rw [List.getElem?_map] at hn
        obtain ⟨u, hu, rfl⟩ := Option.map_eq_some_iff.1 hn
        rw [List.getElem?_take] at hu
        obtain ⟨hlt, hu⟩ := Option.ite_none_right_eq_some.1 hu
        obtain ⟨q, hq, hbit⟩ := (ih r hlt hu).1 hbit
        exact ⟨q, ⟨r, hr, hlt, hq⟩, hbit⟩
      · rintro ⟨q, ⟨r, hr, hlt, hq⟩, hbit⟩
        have hu := List.getElem?_eq_getElem (lt_length_assignValues (hlt.trans hlength))
        refine ⟨r, hr, _, ?_, (ih r hlt hu).2 ⟨q, hq, hbit⟩⟩
        rw [List.getElem?_map, List.getElem?_take_of_lt hlt, hu]
        rfl

/-- A number is the bitwise or of those of the absolute values it is made of. -/
theorem value_eq_foldl_origins {v : EnumerationValue}
    (hv : e.assignValues.values[p]? = some v) :
    v.value = ((e.origins p).map e.ordinal).foldl (· ||| ·) 0 := by
  refine Nat.eq_of_testBit_eq fun k => Bool.eq_iff_iff.2 ?_
  rw [testBit_value hv, testBit_foldl_or]
  simp

end Bits

section Again

/-- Numbers from before do not matter. -/
theorem compose_number_congr (before : List Nat) (next : Nat) {vs ws : List EnumerationValue}
    (h : vs.map EnumerationValue.unnumbered = ws.map EnumerationValue.unnumbered) :
    compose before (number next vs) = compose before (number next ws) := by
  induction vs generalizing ws before next with
  | nil => rw [List.map_eq_nil_iff.1 h.symm]
  | cons v vs ih =>
    obtain ⟨w, ws, rfl, hw, hws⟩ := List.map_eq_cons_iff.1 h.symm
    obtain ⟨n, rfl⟩ : ∃ n, w = { v with value := n } :=
      ⟨w.value, congrArg (fun u : EnumerationValue => { u with value := w.value }) hw⟩
    cases hparts : v.parts with
    | none => simp [number, compose, EnumerationValue.isAbsolute, hparts, ih _ _ hws.symm]
    | some positions => simp [number, compose, EnumerationValue.isAbsolute, hparts, ih _ _ hws.symm]

theorem unnumbered_assignValues (e : Enumeration) :
    e.assignValues.values.map EnumerationValue.unnumbered =
      e.values.map EnumerationValue.unnumbered :=
  map_assignValues _ (fun _ _ => rfl) e

/-- An enumeration is numbered once and for all. -/
theorem assignValues_assignValues (e : Enumeration) :
    e.assignValues.assignValues = e.assignValues := by
  have h := compose_number_congr [] e.firstNumber e.unnumbered_assignValues
  rw [assignValues, show e.assignValues.firstNumber = e.firstNumber from rfl, h]
  rfl

end Again

section Extremes

theorem minValue_assignValues (e : Enumeration) : e.assignValues.minValue = 0 := by
  rw [minValue, numbers_assignValues, show e.assignValues.flags = e.flags from rfl]
  cases hflags : e.flags with
  | false => rfl
  | true =>
    rw [firstNumber, hflags]
    cases e.values.countP EnumerationValue.isAbsolute with
    | zero => rfl
    | succ n =>
      have hmin : (List.range' 0 (n + 1)).min? = some 0 :=
        List.min?_eq_some_iff.2 ⟨by simp, fun m _ => Nat.zero_le m⟩
      exact congrArg (·.getD 0) hmin

theorem isGreatest_foldl_max (numbers : List Nat) (n : Nat) :
    IsGreatest {m | m = n ∨ m ∈ numbers} (numbers.foldl max n) := by
  induction numbers generalizing n with
  | nil => exact ⟨.inl rfl, by rintro m (rfl | hm) <;> simp_all⟩
  | cons k rest ih =>
    obtain ⟨hmem, hle⟩ := ih (max n k)
    refine ⟨?_, ?_⟩
    · grind
    · rintro m (rfl | hm)
      · exact Nat.le_trans (Nat.le_max_left m k) (hle (.inl rfl))
      · obtain rfl | hm := List.mem_cons.1 hm
        · exact Nat.le_trans (Nat.le_max_right n m) (hle (.inl rfl))
        · exact hle (.inr hm)

theorem mem_numbers_iff {n : Nat} :
    n ∈ e.numbers ↔ ∃ v ∈ e.values, v.parts = none ∧ v.value = n := by
  simp [numbers, EnumerationValue.isAbsolute, and_assoc]

/-- No number needs more bits than the largest one of an absolute value. -/
theorem value_lt_two_pow
    (h : (if e.flags then 0 else 1) + e.values.countP (·.parts.isNone) ≤ 2 ^ k)
    {v : EnumerationValue} (hv : v ∈ e.assignValues.values) : v.value < 2 ^ k := by
  obtain ⟨p, hp, rfl⟩ := List.getElem_of_mem hv
  refine Nat.lt_pow_two_of_testBit _ fun j hj => Bool.eq_false_iff.2 fun hbit => ?_
  obtain ⟨q, hq, hbit⟩ := (testBit_value (List.getElem?_eq_getElem hp)).1 hbit
  obtain ⟨-, w, hw, ha⟩ := mem_origins_iff.1 hq
  have hlt : e.ordinal q < 2 ^ k := Nat.lt_of_lt_of_le (ordinal_lt hw ha) h
  rw [Nat.testBit_lt_two_pow (Nat.lt_of_lt_of_le hlt (Nat.pow_le_pow_right (by omega) hj))] at hbit
  cases hbit

theorem isGreatest_maxValue (e : Enumeration) :
    IsGreatest {n | n = 0 ∨ ∃ v ∈ e.values, v.parts = none ∧ v.value = n} e.maxValue := by
  simpa only [mem_numbers_iff, maxValue] using isGreatest_foldl_max e.numbers 0

end Extremes

/-- The enumeration `after` is the one `before` with its numbers. -/
structure Numbered (before after : Enumeration) : Prop where
  absolute : ∀ p v, after.values[p]? = some v → v.parts = none →
    v.value = (if before.flags then 0 else 1) + (before.values.take p).countP (·.parts.isNone)
  composed : ∀ p v, after.values[p]? = some v → v.parts ≠ none →
    v.value = ((before.origins p).map before.ordinal).foldl (· ||| ·) 0
  /-- Where the numbers counted fit into a number of bits, all of them do. -/
  bounded : ∀ k, (if before.flags then 0 else 1) + before.values.countP (·.parts.isNone) ≤ 2 ^ k →
    ∀ v ∈ after.values, v.value < 2 ^ k
  values : after.values.map EnumerationValue.unnumbered =
    before.values.map EnumerationValue.unnumbered
  others : { after with values := before.values } = before
  again : after.assignValues = after
  least : after.minValue = 0
  greatest : IsGreatest {n | n = 0 ∨ ∃ v ∈ after.values, v.parts = none ∧ v.value = n}
    after.maxValue

theorem numbered_assignValues (e : Enumeration) : e.Numbered e.assignValues where
  absolute _ _ := value_of_parts_none
  composed _ _ hv _ := value_eq_foldl_origins hv
  bounded _ h _ hv := value_lt_two_pow h hv
  values := e.unnumbered_assignValues
  others := rfl
  again := e.assignValues_assignValues
  least := e.minValue_assignValues
  greatest := e.assignValues.isGreatest_maxValue

/-- A value composed of an absolute one and of one that is composed itself; a position behind it
and one that is not there name no part of it. -/
theorem numbered_assignValues_composed :
    let value (parts : Option (List Nat)) : EnumerationValue :=
      { name := default, location := default, enumeration := default, parts, value := 9 }
    let e : Enumeration :=
      { (default : Enumeration) with
        flags := false
        values := [value none, value none, value (some [1, 0]), value none, value none,
          value (some [2, 4, 6, 8]), value none] }
    e.Numbered e.assignValues ∧
      e.assignValues.values.map (·.value) = [1, 2, 3, 3, 4, 7, 5] ∧
      (assignValues { e with flags := true }).values.map (·.value) = [0, 1, 1, 2, 3, 3, 4] :=
  ⟨numbered_assignValues _, rfl, rfl⟩

end Enumeration

end Idl
