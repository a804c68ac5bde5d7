import Idl.Proofs.Session.Settle
import Idl.Proofs.Token.Order

/-!
The order in which names wait. They wait in the order in which they stand in their source, with
one exception: what is left of the unqualified names in a structure at the end of its body waits
behind the qualified ones in it.
-/

namespace Idl

namespace Location

/-- In a line above, or in the same line to the left; of two locations in one source. -/
def Before (l l' : Location) : Prop :=
  l.line < l'.line ∨ l.line = l'.line ∧ l.column < l'.column

instance (l l' : Location) : Decidable (l.Before l') := by
  unfold Before
  infer_instance

end Location

namespace Binding

/-- Two names in one structure, of which one is qualified and the other is not. -/
def Parted (a b : Binding) : Prop :=
  a.scope.isSome ∧ a.scope = b.scope ∧ a.name.path.isEmpty ≠ b.name.path.isEmpty

instance (a b : Binding) : Decidable (a.Parted b) := by
  unfold Parted
  infer_instance

theorem Parted.symm {a b : Binding} (h : a.Parted b) : b.Parted a :=
  ⟨h.2.1 ▸ h.1, h.2.1.symm, h.2.2.symm⟩

/-- Whether a name waits in front of another one in its source: the one that stands in front
does, but of a qualified and an unqualified one in the same structure the qualified one. -/
def Ahead (a b : Binding) : Prop :=
  if a.Parted b then b.name.path.isEmpty = true else a.name.first.Before b.name.first

theorem ahead_of_before {a b : Binding} (hp : ¬ a.Parted b)
    (h : a.name.first.Before b.name.first) : a.Ahead b :=
  (if_neg hp).mpr h

theorem not_parted_of_alike {a b : Binding} (h : a.name.path.isEmpty = b.name.path.isEmpty) :
    ¬ a.Parted b :=
  fun hp => hp.2.2 h

theorem not_parted_of_outside {a b : Binding} (h : a.scope = none) : ¬ a.Parted b := by
  intro hp
  rw [Parted, h] at hp
  exact Bool.false_ne_true hp.1

/-- Names of which no two are parted wait as they stand. -/
theorem pairwise_ahead {bindings : List Binding}
    (h : (bindings.map (·.name.first)).Pairwise Token.Before)
    (hp : ∀ a ∈ bindings, ∀ b ∈ bindings, ¬ a.Parted b) : bindings.Pairwise Ahead :=
  (List.pairwise_map.1 h).imp_of_mem fun ha hb => ahead_of_before (hp _ ha _ hb)

/-- Where one name is ahead of another one, it is reported at a place in front of it, or both are
in one structure and the other one is unqualified. -/
theorem Ahead.cases {a b : Binding} (h : a.Ahead b) :
    a.Parted b ∧ b.name.path.isEmpty = true ∨ a.name.first.Before b.name.first := by
  unfold Ahead at h
  split at h
  · rename_i hp
    exact .inl ⟨hp, h⟩
  · exact .inr h

/-- No unqualified name of the source stands in front of a qualified one in its structure. -/
def Grouped (left : List Binding) (source : Option SourceId) : Prop :=
  ∀ a ∈ left, ∀ b ∈ left, a.source = source → b.source = source → a.Parted b →
    b.name.path.isEmpty = true → a.name.first.Before b.name.first

/-- The names of a source are reported from the top to the bottom of it if and only if they are
grouped. -/
theorem pairwise_before_iff {left : List Binding} (source : Option SourceId)
    (h : left.Pairwise fun a b => a.source = b.source → a.Ahead b) :
    ((left.map unresolved).filter fun m => m.location.source = source).Pairwise
        (fun m m' => m.location.Before m'.location) ↔ Grouped left source := by
  rw [List.filter_map, List.pairwise_map, List.pairwise_filter]
  simp only [Function.comp_apply, decide_eq_true_eq]
  refine ⟨fun hbefore => ?_, fun hgrouped => ?_⟩
  · -- Either one of two names may be the first in the list.
    let Good (a b : Binding) : Prop := a.source = source → b.source = source → a.Parted b →
      b.name.path.isEmpty = true → a.name.first.Before b.name.first
    have hself : ∀ a ∈ left, Good a a := fun a _ _ _ hp => absurd rfl hp.2.2
    have hfront : left.Pairwise Good := hbefore.imp fun hab ha hb _ _ => hab ha hb
    have hbehind : left.Pairwise (flip Good) := h.imp fun {a b} hahead hb ha hp hplain => by
      have hplain' : b.name.path.isEmpty = true := (if_pos hp.symm).mp (hahead (ha.trans hb.symm))
      exact absurd (hplain'.trans hplain.symm) hp.2.2
    exact fun a ha b hb => hfront.forall_of_forall_of_flip hself hbehind ha hb
  · refine h.imp_of_mem fun {a b} ha hb hahead hsa hsb => ?_
    rcases (hahead (hsa.trans hsb.symm)).cases with ⟨hp, hplain⟩ | hbefore
    · exact hgrouped a ha b hb hsa hsb hp hplain
    · exact hbefore

end Binding

namespace Session

/-- At the end of a structure the names from outside stay in front, and the unqualified names in
it come to wait behind the qualified ones. -/
theorem settleScope_ahead (s : Session) (checks : List Check) {id : StructureId}
    {outer inner : List Binding} (houter : ∀ b ∈ outer, b.scope ≠ some id)
    (hinner : ∀ b ∈ inner, b.scope = some id)
    (hordered : (inner.map (·.name.first)).Pairwise Token.Before) :
    ∃ new, (s.settleScope checks id (outer ++ inner)).2 = outer ++ new ∧ (∀ b ∈ new, b ∈ inner) ∧
      new.Pairwise Binding.Ahead := by
  let plain (b : Binding) : Bool := b.scope == some id && b.name.path.isEmpty
  let find (s : Session) (b : Binding) : Option DataType :=
    (s.document.findNested? id b.name.last.text).map .enum
  let left := (s.settle checks find (inner.filter plain)).2
  have houtside : ∀ b ∈ outer, plain b = false := fun b hb => by simp [plain, houter b hb]
  have hplain : ∀ b ∈ inner, plain b = b.name.path.isEmpty := fun b hb => by
    simp [plain, hinner b hb]
  have hfront : outer.filter (not ∘ plain) = outer :=
    List.filter_eq_self.2 fun b hb => by simp [houtside b hb]
  have hnone : outer.filter plain = [] :=
    List.filter_eq_nil_iff.2 fun b hb => by simp [houtside b hb]
  have hleft : left.Sublist (inner.filter plain) := settle_sublist s _
  have hqualified {b : Binding} (hb : b ∈ inner.filter (not ∘ plain)) :
      b ∈ inner ∧ b.name.path.isEmpty = false := by
    obtain ⟨hmem, h⟩ := List.mem_filter.1 hb
    rw [Function.comp_apply, hplain b hmem, Bool.not_eq_true'] at h
    exact ⟨hmem, h⟩
  have hunqualified {b : Binding} (hb : b ∈ left) : b ∈ inner ∧ b.name.path.isEmpty = true := by
    obtain ⟨hmem, h⟩ := List.mem_filter.1 (hleft.subset hb)
    exact ⟨hmem, (hplain b hmem).symm.trans h⟩
  refine ⟨inner.filter (not ∘ plain) ++ left, ?_, fun b hb => ?_, ?_⟩
  · have hinside : (outer ++ inner).filter plain = inner.filter plain := by
      rw [List.filter_append, hnone, List.nil_append]
    have hrest : (outer ++ inner).filter (not ∘ plain) =
        outer ++ inner.filter (not ∘ plain) := by
      rw [List.filter_append, hfront]
    have hparts : (outer ++ inner).partition plain =
        (inner.filter plain, outer ++ inner.filter (not ∘ plain)) := by
      rw [List.partition_eq_filter_filter, hinside, hrest]
    simp only [settleScope, plain] at hparts ⊢
    rw [hparts]
    exact List.append_assoc _ _ _
  · rcases List.mem_append.1 hb with hb | hb
    · exact (hqualified hb).1
    · exact (hunqualified hb).1
  · have hsub {bindings : List Binding} (h : bindings.Sublist inner) :
        (bindings.map (·.name.first)).Pairwise Token.Before := hordered.sublist (h.map _)
    refine List.pairwise_append.2 ⟨?_, ?_, fun a ha b hb => ?_⟩
    · exact Binding.pairwise_ahead (hsub List.filter_sublist) fun a ha b hb =>
        Binding.not_parted_of_alike ((hqualified ha).2.trans (hqualified hb).2.symm)
    · exact Binding.pairwise_ahead (hsub (hleft.trans List.filter_sublist)) fun a ha b hb =>
        Binding.not_parted_of_alike ((hunqualified ha).2.trans (hunqualified hb).2.symm)
    · obtain ⟨hmema, ha⟩ := hqualified ha
      obtain ⟨hmemb, hb⟩ := hunqualified hb
      have hparted : a.Parted b :=
        ⟨by rw [hinner a hmema]; rfl, by rw [hinner a hmema, hinner b hmemb], by simp [ha, hb]⟩
      exact (if_pos hparted).mpr hb

end Session

end Idl
