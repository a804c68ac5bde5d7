import Mathlib.Order.WellFounded
import Mathlib.Data.Finite.Sum
import Mathlib.Data.Fintype.EquivFin
import Idl.Proofs.Document.Change
import Idl.Proofs.Document.Cover
import Idl.Proofs.Document.Literal

/-!
Where the way from a type to its literal class ends. An identifier or a specimen leads to its
parameter, and a type is grounded if this goes on for finitely many steps. What is inserted leads
to what is there, so nothing but a parameter that is filled later can close a circle. Where every
circle has such a parameter, a type is grounded or it leads into one of these circles.
-/

namespace Idl

namespace Document

def StandIn.slot {d : Document} : d.StandIn → Slot
  | .inl i => .identifierParameter ⟨i⟩
  | .inr i => .specimenParameter ⟨i⟩

variable {d d' : Document} {e : Extent} {late : Slot → Prop} {t u : DataType}
  {slot slot' : Slot}

/-- The type `t` stands for `u`, by a parameter that is not left out. -/
def Behind (d : Document) (left : Slot → Prop) (u t : DataType) : Prop :=
  ∃ slot, t.standIn? = some slot ∧ d.slot? slot = some (some u) ∧ ¬ left slot

/-- The parameters behind a type come to an end. -/
def Grounded (d : Document) : DataType → Prop :=
  Acc (d.Behind fun _ => False)

/-- The parameter leads back to itself. -/
def Circles (d : Document) (slot : Slot) : Prop :=
  ∃ u, d.slot? slot = some (some u) ∧ d.StandsOn u slot

theorem Grounded.intro (h : ∀ slot u, t.standIn? = some slot → d.slot? slot = some (some u) →
    d.Grounded u) : d.Grounded t :=
  Acc.intro t fun u ⟨slot, hs, hu, _⟩ => h slot u hs hu

theorem Grounded.behind (h : d.Grounded t) (hs : t.standIn? = some slot)
    (hu : d.slot? slot = some (some u)) : d.Grounded u :=
  h.inv ⟨slot, hs, hu, not_false⟩

theorem StandsOn.trans (h : d.StandsOn t slot) (hu : d.slot? slot = some (some u))
    (h' : d.StandsOn u slot') : d.StandsOn t slot' := by
  induction h with
  | here hs => exact .there hs hu h'
  | there hs hv _ ih => exact .there hs hv (ih hu)

/-- What leads into a circle is not grounded. -/
theorem Grounded.not_circles (h : d.Grounded t) (hs : d.StandsOn t slot) : ¬ d.Circles slot := by
  rintro ⟨u, hu, hcircle⟩
  -- the first step towards the slot leads to a type from which the way goes on to it
  induction h generalizing u with
  | intro t _ ih =>
    cases hs with
    | here hs => exact ih u ⟨_, hs, hu, not_false⟩ hcircle u hu hcircle
    | there hs hv hs' => exact ih _ ⟨_, hs, hv, not_false⟩ hs' u hu hcircle

section Circle

/-- A type is grounded if all types are that lie behind late parameters on the way. -/
theorem grounded_of_late (h : Acc (d.Behind late) t)
    (hlate : ∀ slot u, late slot → d.StandsOn t slot → d.slot? slot = some (some u) →
      d.Grounded u) : d.Grounded t := by
  induction h with
  | intro t _ ih =>
    refine .intro fun slot u hs hu => ?_
    by_cases hl : late slot
    · exact hlate slot u hl (.here hs) hu
    · refine ih u ⟨slot, hs, hu, hl⟩ fun slot' v hl' hs' hv => ?_
      exact hlate slot' v hl' (.there hs hu hs') hv

/-- The parameters of a document that have a type, and that a type stands on. -/
theorem StandsOn.exists_standIn (h : d.StandsOn t slot) (hu : d.slot? slot = some (some u)) :
    ∃ x : d.StandIn, x.slot = slot := by
  induction h with
  | @here t slot hs =>
    obtain ⟨x, rfl⟩ : ∃ x : d.StandIn, x.type = t := Document.exists_standIn hs (by rw [hu]; rfl)
    refine ⟨x, ?_⟩
    cases x <;> exact Option.some.inj hs
  | there _ _ _ ih => exact ih hu

/-- Where no circle is without a late parameter, a type is grounded or leads into a circle with
one. -/
theorem grounded_or_circles (h : ∀ t, Acc (d.Behind late) t) (t : DataType) :
    d.Grounded t ∨ ∃ slot, late slot ∧ d.StandsOn t slot ∧ d.Circles slot := by
  by_cases hc : ∃ slot, late slot ∧ d.StandsOn t slot ∧ d.Circles slot
  · exact .inr hc
  refine .inl ?_
  -- the late parameters that `t` stands on, each below those that lead to it
  let Below (x y : d.StandIn) : Prop :=
    (late y.slot ∧ d.StandsOn t y.slot) ∧
      ∃ u, d.slot? y.slot = some (some u) ∧ d.StandsOn u x.slot
  have htrans : IsTrans d.StandIn Below := by
    refine ⟨fun x y z ⟨_, v, hv, hx⟩ ⟨hz, w, hw, hy⟩ => ⟨hz, w, hw, hy.trans hv hx⟩⟩
  have hirrefl : Std.Irrefl Below :=
    ⟨fun x ⟨hx, hcircle⟩ => hc ⟨x.slot, hx.1, hx.2, hcircle⟩⟩
  have hwf : WellFounded Below := Finite.wellFounded_of_trans_of_irrefl Below
  have hlate (x : d.StandIn) (hl : late x.slot) (hs : d.StandsOn t x.slot) (u : DataType)
      (hu : d.slot? x.slot = some (some u)) : d.Grounded u := by
    induction x using hwf.induction generalizing u with
    | _ x ih =>
      refine grounded_of_late (h u) fun slot v hl' hs' hv => ?_
      obtain ⟨y, rfl⟩ := hs'.exists_standIn hv
      exact ih y ⟨⟨hl, hs⟩, u, hu, hs'⟩ hl' (hs.trans hu hs') v hv
  refine grounded_of_late (h t) fun slot u hl hs hu => ?_
  obtain ⟨x, rfl⟩ := hs.exists_standIn hu
  exact hlate x hl hs u hu

end Circle

section Class

/-- What the class of a type is by the classes of other types. -/
def classStep (d : Document) (classOf : DataType → Option LiteralClass) (t : DataType) :
    Option LiteralClass :=
  match t.standIn? with
  | none => (d.literalWithin 0 t).join
  | some slot => (d.slot? slot).join.bind classOf

theorem exists_literalWithin_of_core (h : t.standIn? = none) :
    ∃ c, d.literalWithin 0 t = some c := by
  cases t with
  | identifier id | specimen id => cases h
  | _ => exact ⟨_, rfl⟩

/-- Where a type is grounded, this tells its class. -/
theorem Grounded.resolves (h : d.Grounded t) {classOf : DataType → Option LiteralClass}
    (hclass : ∀ t, classOf t = d.classStep classOf t) : d.Resolves t (classOf t) := by
  induction h with
  | intro t _ ih =>
    rw [hclass, classStep]
    cases hs : t.standIn? with
    | none =>
      obtain ⟨c, hc⟩ := d.exists_literalWithin_of_core hs
      refine .core ?_
      simp only [hc, Option.join_some]
    | some slot =>
      simp only
      cases hu : (d.slot? slot).join with
      | none => exact .unknown hs hu
      | some u =>
        have hheld := Option.join_eq_some_iff.1 hu
        exact .stands hs hheld (ih u ⟨slot, hs, hheld, not_false⟩)

/-- What is asked for a class to the end is grounded. -/
theorem Resolves.grounded {c : Option LiteralClass} (h : d.Resolves t c) : d.Grounded t := by
  induction h with
  | @core t c h =>
    refine .intro fun slot u hs _ => ?_
    cases (literalWithin_zero hs).symm.trans h
  | stands hs hu _ ih =>
    refine .intro fun slot v hs' hv => ?_
    cases hs.symm.trans hs'
    cases hu.symm.trans hv
    exact ih
  | unknown hs hu =>
    refine .intro fun slot v hs' hv => ?_
    cases hs.symm.trans hs'
    cases hu.symm.trans (congrArg Option.join hv)

theorem Grounded.exists_resolves (h : d.Grounded t) : ∃ c, d.Resolves t c := by
  induction h with
  | intro t _ ih =>
    cases hs : t.standIn? with
    | none =>
      obtain ⟨c, hc⟩ := d.exists_literalWithin_of_core hs
      exact ⟨c, .core hc⟩
    | some slot =>
      cases hu : (d.slot? slot).join with
      | none => exact ⟨none, .unknown hs hu⟩
      | some u =>
        have hheld := Option.join_eq_some_iff.1 hu
        obtain ⟨c, hc⟩ := ih u ⟨slot, hs, hheld, not_false⟩
        exact ⟨c, .stands hs hheld hc⟩

/-- The question for a class has an answer just where the way over the parameters ends. -/
theorem isSome_literal?_iff : (d.literal? t).isSome ↔ d.Grounded t := by
  rw [Option.isSome_iff_exists]
  constructor
  · rintro ⟨c, hc⟩
    exact (literal?_eq_some_iff.1 hc).grounded
  · intro h
    obtain ⟨c, hc⟩ := h.exists_resolves
    exact ⟨c, literal?_eq_some_iff.2 hc⟩

theorem decided_iff : d.Decided ↔ ∀ t, d.Grounded t :=
  forall_congr' fun _ => isSome_literal?_iff

end Class

section Keep

/-- What is new leads to what was there, so the way behind it ends as before. -/
theorem acc_behind_of_new (h : ∀ t, Acc (d.Behind late) t) (hd : d.Linked)
    (hnew : ∀ (t : DataType) slot u, t.standIn? = some slot → d'.slot? slot = some (some u) →
      d.slot? slot = some (some u) ∨ d.slot? slot = none ∧ u.Below d.extent) (t : DataType) :
    Acc (d'.Behind late) t := by
  have hold (t : DataType) (ht : t.Below d.extent) : Acc (d'.Behind late) t := by
    induction h t with
    | intro t _ ih =>
      refine .intro t fun u ⟨slot, hs, hu, hl⟩ => ?_
      rcases hnew t slot u hs hu with hu | ⟨hnone, _⟩
      · exact ih u ⟨slot, hs, hu, hl⟩ (hd.below_of_slot? hu)
      · exact absurd (isSome_slot?_standIn hs ht) (by simp [hnone])
  refine .intro t fun u ⟨slot, hs, hu, _⟩ => hold u ?_
  rcases hnew t slot u hs hu with hu | ⟨_, hu⟩
  · exact hd.below_of_slot? hu
  · exact hu

/-- A slot is filled with a type behind which the way ends. -/
theorem acc_behind_of_filled (h : ∀ t, Acc (d.Behind late) t)
    (hslots : ∀ own, own ≠ slot → d'.slot? own = d.slot? own)
    (hslot : d'.slot? slot = some (some u)) (hu : Acc (d'.Behind late) u) (t : DataType) :
    Acc (d'.Behind late) t := by
  induction h t with
  | intro t _ ih =>
    refine .intro t fun v ⟨own, hs, hv, hl⟩ => ?_
    by_cases hown : own = slot
    · subst hown
      cases hslot.symm.trans hv
      exact hu
    · exact ih v ⟨own, hs, hslots own hown ▸ hv, hl⟩

/-- What lies below an extent goes on as before where nothing below has changed. -/
theorem acc_behind_of_agree (h : ∀ t, Acc (d.Behind late) t) (hc : d.ClosedBelow e)
    (ha : AgreeBelow e d d') (ht : t.Below e) : Acc (d'.Behind late) t := by
  induction h t with
  | intro t _ ih =>
    refine .intro t fun u ⟨slot, hs, hu, hl⟩ => ?_
    have hslot := DataType.not_above_of_standIn hs ht
    rw [ha.slot?_eq hslot] at hu
    exact ih u ⟨slot, hs, hu, hl⟩ (hc slot u hslot hu)

/-- Late slots do not matter. -/
theorem acc_behind_of_late (h : ∀ t, Acc (d.Behind late) t)
    (hslots : ∀ own, ¬ late own → d'.slot? own = d.slot? own) (t : DataType) :
    Acc (d'.Behind late) t := by
  refine Subrelation.accessible ?_ (h t)
  rintro u t ⟨slot, hs, hu, hl⟩
  exact ⟨slot, hs, hslots slot hl ▸ hu, hl⟩

variable {ws : List Binding} {opened : List Slot}

/-- A change fills no parameter but that of a new identifier or specimen. -/
theorem Change.standIn (h : Change e ws d opened d') (hs : t.standIn? = some slot)
    (hu : d'.slot? slot = some (some u)) :
    d.slot? slot = some (some u) ∨ d.slot? slot = none ∧ u.Below d.extent := by
  cases h with
  | identifier x hl =>
    rw [slot?_insertIdentifier] at hu
    split at hu
    · rename_i heq
      refine .inr ⟨?_, hl u (Option.some.inj hu)⟩
      rw [heq, slot?, get?_next, Option.map_none]
    · exact .inl hu
  | specimen x hl hb =>
    rw [slot?_insertSpecimen] at hu
    split at hu
    · rename_i heq
      refine .inr ⟨?_, hl u (Option.some.inj hu)⟩
      rw [heq, slot?, get?_next, Option.map_none]
    · exact .inl hu
  | _ => cases t <;> cases hs <;> exact .inl hu

/-- What was not grounded is not when slots are filled. -/
theorem Decided.of_filled (h : d'.Decided)
    (hfilled : ∀ slot t, d.slot? slot = some (some t) → d'.slot? slot = some (some t)) :
    d.Decided := by
  rw [decided_iff] at h ⊢
  refine fun t => Subrelation.accessible ?_ (h t)
  rintro u t ⟨slot, hs, hu, hl⟩
  exact ⟨slot, hs, hfilled slot u hu, hl⟩

/-- To forget what is above an extent fills no slot. -/
theorem filled_of_restore (h : (d.restore e).slot? slot = some (some t)) :
    d.slot? slot = some (some t) := by
  have hkept {family : Family} {α : Type} {a : Arena family α} {size : Nat} {id : Id family}
      {x : α} (hx : (a.truncate size).get? id = some x) : a.get? id = some x := by
    rw [Arena.get?_truncate] at hx
    split at hx
    · exact hx
    · cases hx
  have hmap {family : Family} {α β : Type} {a : Arena family α} {size : Nat} {id : Id family}
      {f : α → β} {y : β} (hy : ((a.truncate size).get? id).map f = some y) :
      (a.get? id).map f = some y := by
    obtain ⟨x, hx, hy⟩ := Option.map_eq_some_iff.1 hy
    rw [hkept hx, Option.map_some, hy]
  cases slot with
  | field f =>
    obtain ⟨field, hfield, ht⟩ := Option.map_eq_some_iff.1 h
    obtain ⟨x, hx, hfield⟩ := Option.bind_eq_some_iff.1 hfield
    rw [slot?, field?, hkept hx, Option.bind_some, hfield, Option.map_some, ht]
  | methodParameter id method position =>
    obtain ⟨p, hp, ht⟩ := Option.map_eq_some_iff.1 h
    obtain ⟨x, hx, hp⟩ := Option.bind_eq_some_iff.1 hp
    rw [slot?, hkept hx, Option.bind_some, hp, Option.map_some, ht]
  | _ => exact hmap h

end Keep

end Document

end Idl
