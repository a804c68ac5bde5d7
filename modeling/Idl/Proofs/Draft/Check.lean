import Idl.Proofs.Draft.View

/-!
The standard checks of what was read as it was drafted. What hangs on types is in order in a
plain document, and the names of fields and values are different, so nothing is found.
-/

namespace Idl

/-- What stands in front of an element has another image, if all images are different. -/
theorem ne_of_mem_take {α β : Type} {g : α → β} {l : List α} (h : (l.map g).Nodup) {i : Nat}
    {a : α} (ha : l[i]? = some a) : ∀ b ∈ l.take i, g b ≠ g a := by
  intro b hb hsame
  have hfront : g b ∈ (l.map g).take i := by
    rw [← List.map_take]
    exact List.mem_map_of_mem hb
  have hback : g a ∈ (l.map g).drop i := by
    rw [← List.map_drop]
    exact List.mem_map_of_mem (List.mem_of_getElem? (i := 0) (by simpa using ha))
  exact List.disjoint_take_drop h (Nat.le_refl i) hfront (hsame ▸ hback)

theorem flatMap_ite_singleton {α β : Type} (l : List α) (c : α → Bool) (g : α → β) :
    (l.flatMap fun a => if c a then [g a] else []) = (l.filter c).map g := by
  induction l with
  | nil => rfl
  | cons a l ih =>
    rw [List.flatMap_cons, ih]
    cases h : c a <;> simp [h]

namespace Enumeration

/-- What is said of a composed value without flags. -/
def warning (v : EnumerationValue) : Message :=
  .of .composedValueInNonFlags v.location [(.name, v.name.value)]

/-- Each composed value is warned of, unless there are flags. -/
def warnings (e : Enumeration) : List Message :=
  if e.flags then [] else (e.values.filter (!·.isAbsolute)).map warning

end Enumeration

namespace Check

open Document

variable {d : Document} {ws : List Binding} {x : Draft} {y : Declaration}

theorem memberFaults_of_plain {s : Structure} (hs : s.IsPlain)
    (hnames : (s.members.map fun m => m.field?.map (·.name.value)).Nodup) :
    (s.members.zipIdx.flatMap fun (m, position) =>
      memberFaults d s (s.members.take position) m) = [] := by
  rw [List.flatMap_eq_nil_iff]
  rintro ⟨m, position⟩ hm
  rw [List.mk_mem_zipIdx_iff_getElem?] at hm
  obtain ⟨f, rfl, -⟩ := hs.members m (List.mem_of_getElem? hm)
  have hdeclared : (s.members.take position).any
      (fun b => b.field?.any (·.name.value == f.name.value)) = false := by
    refine List.any_eq_false.2 fun b hb hsame => ne_of_mem_take hnames hm b hb ?_
    obtain ⟨g, hg, hname⟩ := (Option.any_eq_true _ _).1 hsame
    rw [hg]
    exact congrArg some (beq_iff_eq.1 hname)
  simp [memberFaults, hdeclared, hs.base]

/-- Where the names of values are different, the composed ones are all that is reported. -/
theorem valueFaults_eq {e : Enumeration} (hnames : (e.values.map (·.name.value)).Nodup) :
    (e.values.zipIdx.flatMap fun (v, position) =>
      valueFaults e (e.values.take position) v) = e.warnings := by
  let warned (v : EnumerationValue) : List Message :=
    if !e.flags && !v.isAbsolute then [Enumeration.warning v] else []
  have hfaults : ∀ p ∈ e.values.zipIdx, valueFaults e (e.values.take p.2) p.1 = warned p.1 := by
    rintro ⟨v, position⟩ hv
    rw [List.mk_mem_zipIdx_iff_getElem?] at hv
    have hdeclared : (e.values.take position).any (·.name.value == v.name.value) = false :=
      List.any_eq_false.2 fun b hb hsame => ne_of_mem_take hnames hv b hb (by simpa using hsame)
    simp [valueFaults, hdeclared, warned, Enumeration.warning]
  rw [List.flatMap_congr hfaults, ← List.flatMap_map Prod.fst warned, List.zipIdx_map_fst,
    Enumeration.warnings]
  cases hflags : e.flags with
  | true => exact List.flatMap_eq_nil_iff.2 fun v _ => by simp [warned, hflags]
  | false =>
    rw [← flatMap_ite_singleton]
    simp [warned, hflags]

theorem valueFaults_of_absolute {e : Enumeration} (hparts : ∀ v ∈ e.values, v.parts = none)
    (hnames : (e.values.map (·.name.value)).Nodup) :
    (e.values.zipIdx.flatMap fun (v, position) =>
      valueFaults e (e.values.take position) v) = [] := by
  have hnone : e.values.filter (!·.isAbsolute) = [] :=
    List.filter_eq_nil_iff.2 fun v hv => by simp [EnumerationValue.isAbsolute, hparts v hv]
  rw [valueFaults_eq hnames, Enumeration.warnings, hnone]
  exact ite_self []

/-- Where declarations have different names there is nothing wrong with the whole document. -/
theorem runAll_document (hnames : (d.declarations.map d.nameText).Nodup) :
    runAll standard d .document = {} := by
  refine runAll_of_silent fun check hcheck => ?_
  simp only [standard, List.mem_cons, List.not_mem_nil, or_false] at hcheck
  rcases hcheck with rfl | rfl | rfl | rfl | rfl | rfl
  case inr.inr.inr.inr.inr =>
    refine congrArg Verdict.ofMessages (List.filterMap_eq_nil_iff.2 ?_)
    rintro ⟨y, position⟩ hy
    rw [List.mk_mem_zipIdx_iff_getElem?] at hy
    refine if_neg ?_
    rw [List.any_eq_true]
    rintro ⟨z, hz, hsame⟩
    exact ne_of_mem_take hnames hy z hz (congrArg Prod.fst (beq_iff_eq.1 hsame))
  all_goals rfl

theorem structureFields_of_readAs (hd : d.IsPlain) (hx : x.IsPlain) (h : d.ReadAs ws x y) :
    structureFields.run d (.declaration y) = {} := by
  have hview := h.view
  cases y with
  | struct id =>
    cases x with
    | struct name fields =>
      simp only [viewAs, Draft.view, Option.map_eq_some_iff, View.struct.injEq] at hview
      obtain ⟨s, hs, -, -, -, hmembers⟩ := hview
      have hnames : s.members.map (fun m => m.field?.map (·.name.value)) =
          (fields.map (·.name)).map some := by
        rw [List.map_map]
        rw [map_eq_map_iff_getElem?] at hmembers ⊢
        refine ⟨hmembers.1, fun i m f hm hf => ?_⟩
        obtain ⟨g, rfl, -, hv⟩ := Member.view?_eq_some.1 (hmembers.2 i m f hm hf)
        exact congrArg some (Prod.mk.inj hv).1
      have hnodup : ((fields.map (·.name)).map some).Nodup := hx.1.map fun _ _ => Option.some.inj
      simp only [structureFields, structure?, hs,
        memberFaults_of_plain (hd.structures id s hs) (hnames ▸ hnodup)]
      rfl
    | _ => simp [viewAs, Draft.view] at hview
  | _ => rfl

theorem enumerationValues_of_readAs (hx : x.IsPlain) (h : d.ReadAs ws x y) :
    enumerationValues.run d (.declaration y) = {} := by
  have hview := h.view
  cases y with
  | enum id =>
    cases x with
    | enum front name behind values =>
      simp only [viewAs, Draft.view, Option.map_eq_some_iff, View.enum.injEq] at hview
      obtain ⟨e, he, -, -, -, -, hvalues⟩ := hview
      have hnames : e.values.map (·.name.value) = values := by
        have hfirst := congrArg (List.map Prod.fst) hvalues
        simpa [Function.comp_def] using hfirst
      have hparts : ∀ v ∈ e.values, v.parts = none := by
        intro v hv
        have hmem : (v.name.value, v.parts) ∈ values.map (·, (none : Option (List Nat))) := by
          rw [← hvalues]
          exact List.mem_map.2 ⟨v, hv, rfl⟩
        obtain ⟨_, _, hpair⟩ := List.mem_map.1 hmem
        exact (Prod.mk.inj hpair).2.symm
      simp only [enumerationValues, he, valueFaults_of_absolute hparts (hnames ▸ hx)]
      rfl
    | _ => simp [viewAs, Draft.view] at hview
  | _ => rfl

/-- The standard checks find nothing wrong with what was read as it was drafted. -/
theorem runAll_of_readAs (hd : d.IsPlain) (hx : x.IsPlain) (h : d.ReadAs ws x y) :
    runAll standard d (.declaration y) = {} := by
  refine runAll_of_silent fun check hcheck => ?_
  by_cases hlate : check.late = true
  · exact run_late_of_plain hd hcheck hlate y
  · simp only [standard, List.mem_cons, List.not_mem_nil, or_false] at hcheck
    rcases hcheck with rfl | rfl | rfl | rfl | rfl | rfl
    · exact absurd rfl hlate
    · exact absurd rfl hlate
    · exact structureFields_of_readAs hd hx h
    · exact absurd rfl hlate
    · exact enumerationValues_of_readAs hx h
    · rfl

end Check

end Idl
