import Idl.Proofs.Document.Default

/-!
Defaults while names are bound. When the type of a field becomes known, the defaults that
structures give to the field are checked: its own one is dropped if it is no value of the type,
and a structure with such an alter is withdrawn. When the parameter of an identifier or a
specimen becomes known, nothing is checked; so a literal is a value of the type from then on only
if the class of the type does not hang on the parameter.
-/

namespace Idl

namespace Document

variable {d : Document} {id : StructureId}

theorem structures_foldl_withdraw {α : Type} (faults : List (StructureId × α)) (d : Document) :
    (faults.foldl (fun d fault => d.withdraw (.struct fault.1)) d).structures = d.structures := by
  induction faults generalizing d with
  | nil => rfl
  | cons fault faults ih => exact ih _

theorem not_mem_foldl_withdraw {α : Type} {faults : List (StructureId × α)} {fault : α}
    (h : (id, fault) ∈ faults) (d : Document) :
    .struct id ∉ (faults.foldl (fun d fault => d.withdraw (.struct fault.1)) d).declarations := by
  induction faults generalizing d with
  | nil => cases h
  | cons first faults ih =>
    rcases List.mem_cons.1 h with rfl | h
    · intro hmem
      have hsheds := Session.sheds_foldl_withdraw (.refl (d.withdraw (.struct id))) faults
      have hkept := hsheds.declarations _ hmem
      simp [withdraw] at hkept
    · exact ih h _

/-- Of a registered structure all alters of the field are checked. -/
theorem mem_alterFaults {s : Structure} {a : Alter} {t : DataType} {fault : Message}
    (hid : .struct id ∈ d.declarations) (hs : d.structures.get? id = some s) (ha : a ∈ s.alters)
    (hfault : d.defaultFault? t "alter" a.default = some fault) :
    (id, fault) ∈ d.alterFaults a.field t := by
  have hentry : (id, a.default) ∈ d.altersOf a.field := by
    refine List.mem_flatMap.2 ⟨id, List.mem_filterMap.2 ⟨_, hid, rfl⟩, ?_⟩
    exact List.mem_filterMap.2 ⟨a, by rwa [hs], if_pos (beq_self_eq_true a.field)⟩
  exact List.mem_filterMap.2 ⟨_, hentry, by simp only [hfault, Option.map_some]⟩

end Document

namespace Session

open Document

variable {s : Session} {f : FieldRef} {t : DataType} {id : StructureId} {x : Default}
  {late : Slot → Prop}

/-- The own default of a field is a value of its type when it has been checked. -/
theorem defaultFault?_recheckDefault {own own' : Field} (hf : s.document.field? f = some own)
    (hf' : (s.recheckDefault f t own.default).document.field? f = some own')
    (hx : own'.default = some x) : s.document.defaultFault? t "field" x = none ∧
      (s.recheckDefault f t own.default).document = s.document := by
  unfold recheckDefault at hf' ⊢
  cases hfault : own.default.bind (s.document.defaultFault? t "field") with
  | some fault =>
    rw [hfault] at hf'
    change (s.document.dropDefault f).field? f = some own' at hf'
    rw [Document.dropDefault, field?_modifyField, if_pos rfl] at hf'
    obtain ⟨_, _, rfl⟩ := Option.map_eq_some_iff.1 hf'
    cases hx
  | none =>
    rw [hfault] at hf'
    cases hf.symm.trans hf'
    rw [hx] at hfault
    exact ⟨hfault, rfl⟩

/-- Defaults of a field are values of its type when they have been checked. -/
theorem fits_recheckDefaults (hd : s.document.Linked)
    (ht : s.document.slot? (.field f) = some (some t))
    (hg : (s.recheckDefaults f).document.Gives id f x)
    (hid : .struct id ∈ (s.recheckDefaults f).document.declarations ∨
      ∀ y, s.document.structures.get? id = some y → ∀ a ∈ y.alters, a.field ≠ f) :
    (s.recheckDefaults f).document.Fits late t x := by
  obtain ⟨own, hown, htype⟩ := Option.map_eq_some_iff.1 ht
  let asked := s.ask (some t) (own.default.toList ++ (s.document.altersOf f).map (·.2))
  let s₁ := asked.recheckDefault f t own.default
  let faults := s₁.document.alterFaults f t
  have heq : (s.recheckDefaults f).document =
      faults.foldl (fun d fault => d.withdraw (.struct fault.1)) s₁.document := by
    obtain ⟨_, _, _, type, default, _⟩ := own
    cases htype
    simp only [recheckDefaults, hown]
    rfl
  rw [heq] at hg hid ⊢
  have hown₁ : s.document.Sheds s₁.document := asked.sheds_recheckDefault f t own.default
  have hd₁ : s₁.document.Linked := (hown₁.linksInto hd).mono hown₁.grows
  have hbelow : t.Below s₁.document.extent := hown₁.extent ▸ hd.below_of_slot? ht
  have hsheds : s₁.document.Sheds _ := sheds_foldl_withdraw (.refl s₁.document) faults
  refine hsheds.fits hd₁ hbelow (.of_admits ?_)
  cases hg with
  | own hf hx =>
    obtain ⟨own', hown', hx'⟩ := hsheds.default hf hx
    obtain ⟨hfault, hsame⟩ := defaultFault?_recheckDefault (s := asked) hown hown' hx'
    rw [hsame, admits_iff "field"]
    rintro _ ⟨⟩
    exact hfault
  | @alter y a hs ha =>
    rw [structures_foldl_withdraw] at hs
    rcases hid with hid | hnone
    · refine (admits_iff "alter").2 fun u hu => ?_
      cases hu
      cases hfault : s₁.document.defaultFault? t "alter" a.default with
      | none => rfl
      | some fault =>
        have hregistered := hsheds.declarations _ hid
        exact absurd hid (not_mem_foldl_withdraw (mem_alterFaults hregistered hs ha hfault) _)
    · have halters := (hown₁.resembles id).alters_eq
      rw [hs, Option.map_some, eq_comm, Option.map_eq_some_iff] at halters
      obtain ⟨y₀, hy₀, halters⟩ := halters
      exact absurd rfl (hnone y₀ hy₀ a (halters ▸ ha))

/-- A name is bound: the defaults of its field are checked, if it is the type of a field, and
the others still fit, if they are late where the slot decides on them. -/
theorem fitted_bind {checks : List Check} {b : Binding} {ws : List Binding}
    {late : StructureId → FieldRef → Default → DataType → Slot → Prop}
    {holds holds' : StructureId → Prop}
    (hs : s.document.Sound (b :: ws)) (ht : t.Named s.document.extent)
    (h : s.document.Fitted late holds)
    (hlate : ∀ id f x u, holds id → s.document.Gives id f x →
      s.document.slot? (.field f) = some (some u) →
      (s.document.fill b.slot t).StandsOn u b.slot → late id f x u b.slot)
    (hholds : ∀ id, holds' id → holds id ∧
      (.struct id ∈ (s.bind checks b t).document.declarations ∨
        ∀ y, s.document.structures.get? id = some y → ∀ a ∈ y.alters, .field a.field ≠ b.slot)) :
    (s.bind checks b t).document.Fitted late holds' := by
  intro id hid f x u hg hu
  obtain ⟨hid, hchecked⟩ := hholds id hid
  let filled := s.modifyDocument (·.fill b.slot t)
  let checked := filled.recheckSlot b.slot
  have hopen : s.document.IsOpen b.slot :=
    (hs.waiting.slots b.slot).1 (List.mem_map_of_mem List.mem_cons_self)
  have hsound : filled.document.Sound ws := hs.fill ht
  have hslot : filled.document.Sheds checked.document := filled.sheds_recheckSlot b.slot
  have howner : checked.document.Sheds (s.bind checks b t).document := by
    rw [bind_eq]
    exact checked.sheds_recheckOwner checks b.owner?
  have hu₁ : filled.document.slot? (.field f) = some (some u) :=
    ((hslot.trans howner).slot? _).symm.trans hu
  have hbelow := hsound.linked.below_of_slot? hu₁
  by_cases hb : b.slot = .field f
  · have heq : checked = filled.recheckDefaults f := by
      simp only [checked, hb]
      rfl
    have hlinked : checked.document.Linked := (hsound.sheds hslot).linked
    refine howner.fits hlinked (hslot.extent ▸ hbelow) ?_
    rw [heq] at howner ⊢
    refine fits_recheckDefaults hsound.linked hu₁ (howner.gives hg) ?_
    refine hchecked.imp (howner.declarations _) fun hnone y hy a ha heq => ?_
    have halters := (s.document.resembles_fill b.slot t id).alters_eq
    rw [show (s.document.fill b.slot t).structures.get? id = some y from hy, Option.map_some,
      eq_comm, Option.map_eq_some_iff] at halters
    obtain ⟨y₀, hy₀, halters⟩ := halters
    exact hnone y₀ hy₀ a (halters ▸ ha) (heq ▸ hb.symm)
  · have hu₀ : s.document.slot? (.field f) = some (some u) := by
      have hfill := s.document.slot?_fill t hopen.isSome (.field f)
      rw [if_neg (Ne.symm hb)] at hfill
      exact hfill.symm.trans hu₁
    have hgives := gives_of_fill ((hslot.trans howner).gives hg)
    have hfits := h id hid f x u hgives hu₀
    refine (hslot.trans howner).fits hsound.linked hbelow ?_
    refine hfits.grows (grows_fill hopen t) (keepsValues_fill _ _ _) hs.linked
      (hs.linked.below_of_slot? hu₀) fun slot hopen' hfilled hstands => ?_
    have heq : slot = b.slot := by
      have hfill := s.document.slot?_fill t hopen.isSome slot
      refine Decidable.byContradiction fun hne => hfilled ?_
      rw [if_neg hne] at hfill
      exact hfill.trans hopen'
    subst heq
    exact hlate id f x u hid hgives hu₀ hstands

end Session

end Idl
