import Idl.Proofs.Draft.Description
import Idl.Proofs.Draft.View

/-!
Values that were read as they were described. The values of a description stand in the
enumeration in the same order, so a name has the same position in both; and the numbers that the
values are given are those that are meant.
-/

namespace Idl.Draft

variable {x : Enumeration} {e : Idl.Enumeration} {before : List Value} {i : Nat} {w : Value}

section View

variable {position : String → Nat}
  (h : e.values.map (fun v => (v.name.value, v.parts)) = before.map (Value.view position))

include h

theorem map_name_of_view : e.values.map (·.name.value) = before.map Value.name := by
  have hnames := congrArg (List.map Prod.fst) h
  rwa [List.map_map, List.map_map] at hnames

theorem exists_value_of_view (hw : before[i]? = some w) :
    ∃ v, e.values[i]? = some v ∧ v.name.value = w.name ∧
      v.parts = w.parts.map (·.map position) := by
  have hi := congrArg (·[i]?) h
  simp only [List.getElem?_map, hw, Option.map_some, Option.map_eq_some_iff] at hi
  obtain ⟨v, hv, hview⟩ := hi
  exact ⟨v, hv, congrArg Prod.fst hview, congrArg Prod.snd hview⟩

end View

namespace Enumeration

theorem IsWellFormed.position_eq (hx : x.IsWellFormed) (hw : x.values[i]? = some w) :
    x.position w.name = i := by
  obtain ⟨hi, rfl⟩ := List.getElem?_eq_some_iff.1 hw
  have hlength : i < (x.values.map Value.name).length := by rwa [List.length_map]
  have hindex := hx.distinct.idxOf_getElem i hlength
  rwa [List.getElem_map] at hindex

/-- What a composed value names stands in front of it. -/
theorem IsWellFormed.exists_part (hx : x.IsWellFormed) (hw : x.values[i]? = some w)
    {names : List String} (hnames : w.parts = some names) {name : String} (hname : name ∈ names) :
    ∃ j part, j < i ∧ x.values[j]? = some part ∧ part.name = name ∧ x.position name = j := by
  have hrefers := hx.refers (w, i) (List.mk_mem_zipIdx_iff_getElem?.2 hw)
  obtain ⟨part, hpart, rfl⟩ := List.mem_map.1 ((hrefers names hnames).2 name hname)
  obtain ⟨j, hj, hget⟩ := List.mem_take_iff_getElem.1 hpart
  have hread : x.values[j]? = some part := by
    rw [← hget]
    exact List.getElem?_eq_getElem _
  exact ⟨j, part, Nat.lt_of_lt_of_le hj (Nat.min_le_left _ _), hread, rfl, hx.position_eq hread⟩

/-- The names of a composed value are found among the values that were read before it. -/
theorem IsWellFormed.position?_eq (hx : x.IsWellFormed) (hw : x.values[i]? = some w)
    (he : e.values.map (fun v => (v.name.value, v.parts)) =
      (x.values.take i).map (Value.view x.position))
    {names : List String} (hnames : w.parts = some names) :
    ∀ name ∈ names, e.position? name = some (x.position name) := by
  intro name hname
  obtain ⟨j, part, hj, hread, rfl, hposition⟩ := hx.exists_part hw hnames hname
  have hfront : (x.values.take i)[j]? = some part := by rwa [List.getElem?_take_of_lt hj]
  obtain ⟨v, hv, hvname, -⟩ := exists_value_of_view he hfront
  have hdistinct : (e.values.map (·.name.value)).Nodup := by
    rw [map_name_of_view he, List.map_take]
    exact hx.distinct.sublist (List.take_sublist _ _)
  rw [hposition, ← hvname]
  exact Idl.Enumeration.position?_of_getElem? hdistinct hv

/-- Where each element is related to something, all of them are related to a list. -/
theorem exists_forall₂ {α β : Type} {R : α → β → Prop} {as : List α} (h : ∀ a ∈ as, ∃ b, R a b) :
    ∃ bs, List.Forall₂ R as bs := by
  induction as with
  | nil => exact ⟨[], .nil⟩
  | cons a as ih =>
    rw [List.forall_mem_cons] at h
    obtain ⟨b, hb⟩ := h.1
    obtain ⟨bs, hbs⟩ := ih h.2
    exact ⟨b :: bs, .cons hb hbs⟩

section Composed

variable (hx : x.IsWellFormed)
  (he : e.values.map (fun v => (v.name.value, v.parts)) = x.values.map (Value.view x.position))

include hx he

/-- A value of the description is found by its name. -/
theorem IsWellFormed.exists_value (hw : x.values[i]? = some w) :
    ∃ v, e.values[i]? = some v ∧ e.value? w.name = some v ∧
      v.parts = w.parts.map (·.map x.position) := by
  obtain ⟨v, hv, hname, hparts⟩ := exists_value_of_view he hw
  have hdistinct : (e.values.map (·.name.value)).Nodup := by
    rw [map_name_of_view he]
    exact hx.distinct
  exact ⟨v, hv, hname ▸ Idl.Enumeration.value?_of_getElem? hdistinct hv, hparts⟩

/-- The parts of a composed value stand in front of it, at the positions of their names. -/
theorem IsWellFormed.exists_parts (hw : x.values[i]? = some w) {names : List String}
    (hnames : w.parts = some names) :
    ∃ parts, List.Forall₂ (fun name part => e.value? name = some part ∧
      x.position name < i ∧ e.values[x.position name]? = some part) names parts := by
  refine exists_forall₂ fun name hname => ?_
  obtain ⟨j, part, hj, hpart, rfl, rfl⟩ := hx.exists_part hw hnames hname
  obtain ⟨u, hu, hfound, -⟩ := hx.exists_value he hpart
  exact ⟨u, hfound, hj, hu⟩

end Composed

/-- The values are read behind all that stands in front of them. -/
theorem Resembles.ofValues (h : ({ x with values := [] } : Enumeration).Resembles e)
    {values : List EnumerationValue}
    (hvalues : values.map (fun v => (v.name.value, v.parts)) =
      x.values.map (Value.view x.position)) : x.Resembles { e with values } :=
  { h with values := hvalues }

/-- The numbers that are given to values are those that are meant. -/
theorem Resembles.assignValues (h : x.Resembles e) (hx : x.IsWellFormed) :
    x.Describes e.assignValues := by
  have hview : e.assignValues.values.map (fun v => (v.name.value, v.parts)) =
      x.values.map (Value.view x.position) :=
    (e.map_assignValues _ fun _ _ => rfl).trans h.values
  refine { h with values := hview, absolute := ?_, composed := fun w hw names hnames => ?_ }
  · have hcount : e.values.countP EnumerationValue.isAbsolute =
        x.values.countP (·.parts.isNone) := by
      have hparts := congrArg (List.countP (Option.isNone ∘ Prod.snd)) h.values
      rw [List.countP_map, List.countP_map] at hparts
      refine hparts.trans (List.countP_congr fun v _ => ?_)
      simp [Value.view]
    rw [e.numbers_assignValues, hcount, Idl.Enumeration.firstNumber, h.flags]
  · obtain ⟨i, hi, rfl⟩ := List.getElem_of_mem hw
    have hread : x.values[i]? = some x.values[i] := List.getElem?_eq_getElem hi
    obtain ⟨v, hv, hfound, hvparts⟩ := hx.exists_value hview hread
    obtain ⟨parts, hparts⟩ := hx.exists_parts hview hread hnames
    rw [hnames, Option.map_some] at hvparts
    refine ⟨v, parts, hfound, hparts.imp fun _ _ hpart => hpart.1, ?_⟩
    rw [Idl.Enumeration.value_of_assignValues hv hvparts]
    refine Idl.Enumeration.combine_eq (List.forall₂_map_left_iff.2 ?_)
    exact hparts.imp fun _ _ hpart => hpart.2

end Enumeration

end Idl.Draft
