import Mathlib.Data.Fintype.Card
import Mathlib.Data.Fintype.Sum
import Mathlib.Order.Monotone.Basic
import Idl.Proofs.Document.Member

/-!
Literal classes. An identifier or a specimen has the literal class of its parameter, so the class
of a type lies at the end of a chain of parameters. It is found within as many steps as there
are identifiers and specimens, or the chain stops at a parameter that is not known yet, and then
there is no class, or it runs in a circle. While a document grows a class stays as it is; and one
that becomes known was not known for a parameter of the chain.
-/

namespace Idl

/-- The slot of the type that an identifier or a specimen stands for. -/
def DataType.standIn? : DataType → Option Slot
  | .identifier id => some (.identifierParameter id)
  | .specimen id => some (.specimenParameter id)
  | _ => none

theorem DataType.not_above_of_standIn {e : Document.Extent} {t : DataType} {slot : Slot}
    (hs : t.standIn? = some slot) (ht : t.Below e) : ¬ slot.Above e := by
  cases t <;> cases hs <;> exact Nat.not_le_of_lt ht

namespace Document

variable {d d' : Document} {t : DataType} {c : Option LiteralClass} {slot : Slot}

/-- The type has the literal class, by itself or by what it stands for, or it has none because
what it stands for is not known. -/
inductive Resolves (d : Document) : DataType → Option LiteralClass → Prop where
  | core {t : DataType} {c : Option LiteralClass} (h : d.literalWithin 0 t = some c) :
      Resolves d t c
  | stands {t u : DataType} {c : Option LiteralClass} {slot : Slot} (hs : t.standIn? = some slot)
      (hu : d.slot? slot = some (some u)) (h : Resolves d u c) : Resolves d t c
  | unknown {t : DataType} {slot : Slot} (hs : t.standIn? = some slot)
      (hu : (d.slot? slot).join = none) : Resolves d t none

/-- What the type stands for hangs on the slot. -/
inductive StandsOn (d : Document) : DataType → Slot → Prop where
  | here {t : DataType} {slot : Slot} (hs : t.standIn? = some slot) : StandsOn d t slot
  | there {t u : DataType} {slot own : Slot} (hs : t.standIn? = some own)
      (hu : d.slot? own = some (some u)) (h : StandsOn d u slot) : StandsOn d t slot

section Steps

theorem literalWithin_of_core (h : t.standIn? = none) (n : Nat) :
    d.literalWithin n t = d.literalWithin 0 t := by
  cases t with
  | identifier id => cases h
  | specimen id => cases h
  | _ => cases n <;> rfl

theorem literalWithin_zero (h : t.standIn? = some slot) : d.literalWithin 0 t = none := by
  cases t <;> cases h <;> rfl

theorem literalWithin_succ (h : t.standIn? = some slot) (n : Nat) :
    d.literalWithin (n + 1) t =
      match (d.slot? slot).join with
      | some u => d.literalWithin n u
      | none => some none := by
  cases t <;> cases h
  · rename_i o
    simp only [literalWithin, representation?, slot?, Option.bind_some]
    cases d.identifiers.get? o <;> rfl
  · rename_i o
    simp only [literalWithin, representation?, slot?, Option.bind_some]
    cases d.specimens.get? o <;> rfl

theorem literalWithin_le {m n : Nat} (hle : m ≤ n) (h : d.literalWithin m t = some c) :
    d.literalWithin n t = some c := by
  induction m generalizing n t with
  | zero =>
    cases hs : t.standIn? with
    | none => rwa [literalWithin_of_core hs]
    | some slot => cases (literalWithin_zero hs).symm.trans h
  | succ m ih =>
    cases hs : t.standIn? with
    | none =>
      rw [literalWithin_of_core hs] at h
      rwa [literalWithin_of_core hs]
    | some slot =>
      obtain ⟨n, rfl⟩ := Nat.exists_eq_succ_of_ne_zero (Nat.ne_zero_of_lt hle)
      rw [literalWithin_succ hs] at h ⊢
      cases hu : (d.slot? slot).join with
      | none => rwa [hu] at h
      | some u =>
        rw [hu] at h
        exact ih (Nat.le_of_succ_le_succ hle) h

theorem exists_literalWithin (h : d.Resolves t c) : ∃ n, d.literalWithin n t = some c := by
  induction h with
  | core h => exact ⟨0, h⟩
  | stands hs hu _ ih =>
    obtain ⟨n, hn⟩ := ih
    exact ⟨n + 1, by rw [literalWithin_succ hs, hu]; exact hn⟩
  | unknown hs hu => exact ⟨1, by rw [literalWithin_succ hs, hu]⟩

theorem resolves_of_literalWithin {n : Nat} (h : d.literalWithin n t = some c) :
    d.Resolves t c := by
  induction n generalizing t with
  | zero => exact .core h
  | succ n ih =>
    cases hs : t.standIn? with
    | none => exact .core (literalWithin_of_core hs (n + 1) ▸ h)
    | some slot =>
      rw [literalWithin_succ hs] at h
      cases hu : (d.slot? slot).join with
      | none =>
        rw [hu] at h
        cases h
        exact .unknown hs hu
      | some u =>
        rw [hu] at h
        exact .stands hs (Option.join_eq_some_iff.1 hu) (ih h)

end Steps

section Bound

/-- The identifiers and the specimens of a document. -/
abbrev StandIn (d : Document) :=
  Fin d.identifiers.size ⊕ Fin d.specimens.size

def StandIn.type {d : Document} : d.StandIn → DataType
  | .inl i => .identifier ⟨i⟩
  | .inr i => .specimen ⟨i⟩

/-- Those whose class is asked for to the end within a number of steps behind the first. -/
def foundWithin (d : Document) (n : Nat) : Finset d.StandIn :=
  Finset.univ.filter fun x => (d.literalWithin (n + 1) x.type).isSome

theorem mem_foundWithin {n : Nat} {x : d.StandIn} :
    x ∈ d.foundWithin n ↔ (d.literalWithin (n + 1) x.type).isSome := by
  simp [foundWithin]

/-- What stands for a type that is known is an identifier or a specimen of the document. -/
theorem exists_standIn (hs : t.standIn? = some slot) (h : (d.slot? slot).isSome) :
    ∃ x : d.StandIn, x.type = t := by
  cases t <;> cases hs
  · rw [slot?, Option.isSome_map, Arena.get?_isSome_iff] at h
    exact ⟨.inl ⟨_, h⟩, rfl⟩
  · rw [slot?, Option.isSome_map, Arena.get?_isSome_iff] at h
    exact ⟨.inr ⟨_, h⟩, rfl⟩

theorem foundWithin_mono : Monotone d.foundWithin := by
  intro m n hle x hx
  obtain ⟨c, hc⟩ := Option.isSome_iff_exists.1 (mem_foundWithin.1 hx)
  exact mem_foundWithin.2 (literalWithin_le (Nat.succ_le_succ hle) hc ▸ rfl)

/-- Where one more step finds nothing new, no further step does. -/
theorem isSome_literalWithin_of_saturated {m n : Nat} (h : d.foundWithin m = d.foundWithin n)
    (hn : (d.literalWithin (n + 1) t).isSome) : (d.literalWithin (m + 1) t).isSome := by
  cases hs : t.standIn? with
  | none => rwa [literalWithin_of_core hs] at hn ⊢
  | some slot =>
    cases hslot : d.slot? slot with
    | none =>
      rw [literalWithin_succ hs, hslot]
      rfl
    | some held =>
      obtain ⟨x, rfl⟩ := exists_standIn hs (Option.isSome_of_eq_some hslot)
      exact mem_foundWithin.1 (h ▸ mem_foundWithin.2 hn)

theorem foundWithin_saturates (m : Nat) (h : d.foundWithin m = d.foundWithin (m + 1)) :
    d.foundWithin (m + 1) = d.foundWithin (m + 2) := by
  refine Finset.Subset.antisymm (foundWithin_mono (Nat.le_succ _)) fun x hx => ?_
  rw [mem_foundWithin] at hx ⊢
  cases hs : x.type.standIn? with
  | none => rwa [literalWithin_of_core hs] at hx ⊢
  | some slot =>
    rw [literalWithin_succ hs] at hx ⊢
    cases hu : (d.slot? slot).join with
    | none => rfl
    | some u =>
      rw [hu] at hx
      exact isSome_literalWithin_of_saturated h hx

/-- If there is an answer at all, it is found within one step more than there are identifiers and
specimens. -/
theorem literal?_of_literalWithin {n : Nat} (h : d.literalWithin n t = some c) :
    d.literal? t = some c := by
  let bound := d.identifiers.size + d.specimens.size
  have hcard (m : Nat) : (d.foundWithin m).card ≤ bound := by
    have hle := Finset.card_le_univ (d.foundWithin m)
    simpa using hle
  have hstable : (d.foundWithin (max bound n)).card = (d.foundWithin bound).card :=
    Nat.stabilises_of_monotone (fun m n hle => Finset.card_le_card (foundWithin_mono hle)) hcard
      (fun m hm => congrArg Finset.card (foundWithin_saturates m
        (Finset.eq_of_subset_of_card_le (foundWithin_mono (Nat.le_succ m)) hm.ge)))
      (Nat.le_max_left bound n)
  have heq : d.foundWithin bound = d.foundWithin (max bound n) :=
    Finset.eq_of_subset_of_card_le (foundWithin_mono (Nat.le_max_left bound n)) hstable.le
  have hmax := literalWithin_le (Nat.le_succ_of_le (Nat.le_max_right bound n)) h
  obtain ⟨c', hc'⟩ := Option.isSome_iff_exists.1
    (isSome_literalWithin_of_saturated heq (Option.isSome_iff_exists.2 ⟨c, hmax⟩))
  cases (literalWithin_le (Nat.succ_le_succ (Nat.le_max_left bound n)) hc').symm.trans hmax
  exact hc'

theorem literal?_eq_some_iff : d.literal? t = some c ↔ d.Resolves t c := by
  refine ⟨resolves_of_literalWithin, fun h => ?_⟩
  obtain ⟨n, hn⟩ := exists_literalWithin h
  exact literal?_of_literalWithin hn

end Bound

section Grow

theorem StandsOn.grows (h : d.StandsOn t slot) (g : d.Grows d') : d'.StandsOn t slot := by
  induction h with
  | here hs => exact .here hs
  | there hs hu _ ih => exact .there hs (g.filled _ _ hu) ih

/-- The slot of what stands for something below the extent is there. -/
theorem isSome_slot?_standIn {own : Slot} (hs : t.standIn? = some own) (ht : t.Below d.extent) :
    (d.slot? own).isSome := by
  cases t <;> cases hs
  · rw [slot?, Option.isSome_map]
    exact (d.identifiers.get?_isSome_iff _).2 ht
  · rw [slot?, Option.isSome_map]
    exact (d.specimens.get?_isSome_iff _).2 ht

/-- The class stays as it is, unless it was not known for a slot on the way that was filled
since. -/
theorem Resolves.grows (h : d.Resolves t c) (g : d.Grows d') (hd : d.Linked)
    (ht : t.Below d.extent) :
    d'.Resolves t c ∨ ∃ slot, d.IsOpen slot ∧ ¬ d'.IsOpen slot ∧ d'.StandsOn t slot := by
  induction h with
  | @core t c h =>
    refine .inl (.core ?_)
    cases t with
    | template id =>
      obtain ⟨i, hi⟩ := Option.isSome_iff_exists.1 ((d.templates.get?_isSome_iff id).2 ht)
      obtain ⟨i', hi', htemplate, _⟩ := g.instances id i hi
      simp only [literalWithin, hi', hi, Option.map_some] at h ⊢
      rwa [htemplate]
    | _ => exact h
  | stands hs hu _ ih =>
    have hu' := g.filled _ _ hu
    refine (ih (hd.below_of_slot? hu)).imp (.stands hs hu') ?_
    rintro ⟨slot, hopen, hfilled, hslot⟩
    exact ⟨slot, hopen, hfilled, .there hs hu' hslot⟩
  | @unknown t own hs hu =>
    obtain ⟨held, hheld⟩ := Option.isSome_iff_exists.1 (isSome_slot?_standIn hs ht)
    rw [hheld, Option.join_some] at hu
    subst hu
    by_cases hopen : d'.IsOpen own
    · exact .inl (.unknown hs (congrArg Option.join hopen))
    · exact .inr ⟨own, hheld, hopen, .here hs⟩

/-- The names of values that an enumeration has, it goes on to have. -/
def KeepsValues (d d' : Document) : Prop :=
  ∀ id e, d.enumerations.get? id = some e → ∃ e', d'.enumerations.get? id = some e' ∧
    ∀ name, (e.value? name).isSome → (e'.value? name).isSome

theorem KeepsValues.of_eq (h : d'.enumerations = d.enumerations) : KeepsValues d d' :=
  fun _ e he => ⟨e, h ▸ he, fun _ hn => hn⟩

/-- A literal that was taken for a value is one, unless a parameter on the way was not known
then. -/
theorem accepts_of_grows {kind : Token.Kind} {value : String} (g : d.Grows d')
    (hv : KeepsValues d d') (hd : d.Linked) (ht : t.Below d.extent)
    (h : d.accepts t kind value = some true) :
    d'.accepts t kind value = some true ∨
      ∃ slot, d.IsOpen slot ∧ ¬ d'.IsOpen slot ∧ d'.StandsOn t slot := by
  obtain ⟨c, hc, h⟩ := Option.map_eq_some_iff.1 h
  refine ((literal?_eq_some_iff.1 hc).grows g hd ht).imp_left fun hr => ?_
  unfold accepts
  rw [literal?_eq_some_iff.2 hr, Option.map_some]
  cases c with
  | none => rfl
  | some c =>
    cases c with
    | enumeration =>
      cases t with
      | enum id =>
        simp only [Bool.and_eq_true] at h
        obtain ⟨e, he, hvalue⟩ := (Option.any_eq_true _ _).1 h.2
        obtain ⟨e', he', hkeeps⟩ := hv id e he
        simp only [h.1, he', Option.any_some, hkeeps _ hvalue, Bool.and_self]
      | _ => exact congrArg some h
    | _ => exact congrArg some h

end Grow

/-- A literal is a value of the type, unless the class of the type hangs on a slot that was
filled late. -/
def Fits (d : Document) (late : Slot → Prop) (t : DataType) : Default → Prop
  | .optional _ => True
  | .literal value kind _ =>
    d.accepts t kind value = some true ∨ ∃ slot, late slot ∧ d.StandsOn t slot

namespace Fits

variable {late : Slot → Prop} {default : Default}

theorem of_admits (h : d.Admits (some t) default) : d.Fits late t default := by
  cases default with
  | optional _ => trivial
  | literal value kind location => exact .inl (h t rfl)

theorem grows (h : d.Fits late t default) (g : d.Grows d') (hv : KeepsValues d d')
    (hd : d.Linked) (ht : t.Below d.extent)
    (hl : ∀ slot, d.IsOpen slot → ¬ d'.IsOpen slot → d'.StandsOn t slot → late slot) :
    d'.Fits late t default := by
  cases default with
  | optional _ => trivial
  | literal value kind location =>
    rcases h with h | ⟨slot, hslot, hs⟩
    · refine (accepts_of_grows g hv hd ht h).imp_right fun ⟨slot, hopen, hfilled, hs⟩ => ?_
      exact ⟨slot, hl slot hopen hfilled hs, hs⟩
    · exact .inr ⟨slot, hslot, hs.grows g⟩

end Fits

end Document

end Idl
