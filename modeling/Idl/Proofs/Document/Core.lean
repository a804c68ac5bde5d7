import Idl.Proofs.Document.Cover
import Idl.Proofs.Document.Sound

/-!
The core of a type, where the way through its templates ends. It hangs on the arguments on this
way only, so other slots can be filled and other nodes added; and where no slot is open, there
is a core.
-/

namespace Idl.Document

/-- The core of a type in a document. -/
def core? (d : Document) (t : DataType) : Option DataType :=
  (d.layers t).core

theorem core?_template (d : Document) (id : TemplateId) :
    d.core? (.template id) =
      match (d.templates.get? id).bind (·.argument) with
      | some (.template inner) =>
        if inner.index < id.index then d.core? (.template inner) else none
      | core => core := by
  simp only [core?, layers]
  rw [layersOf]
  cases d.templates.get? id with
  | none => rfl
  | some i =>
    simp only [Option.bind_some]
    cases i.argument with
    | none => rfl
    | some t =>
      cases t with
      | template inner => by_cases hlt : inner.index < id.index <;> simp [hlt]
      | _ => rfl

/-- A core hangs on the arguments on the way to it only. -/
theorem core?_congr {d d' : Document} {p : TemplateId → Prop}
    (hget : ∀ id, p id → (d'.templates.get? id).bind (·.argument) =
      (d.templates.get? id).bind (·.argument))
    (hinner : ∀ id inner, p id →
      (d.templates.get? id).bind (·.argument) = some (.template inner) → p inner)
    {id : TemplateId} (hid : p id) : d'.core? (.template id) = d.core? (.template id) := by
  induction hn : id.index using Nat.strongRecOn generalizing id with
  | ind n ih =>
    rw [core?_template, core?_template, hget id hid]
    cases ha : (d.templates.get? id).bind (·.argument) with
    | none => rfl
    | some t =>
      cases t with
      | template inner =>
        by_cases hlt : inner.index < id.index
        · simp only [hlt, if_true, ih inner.index (hn ▸ hlt) (hinner id inner hid ha) rfl]
        · simp only [hlt, if_false]
      | _ => rfl

theorem core?_of_templates_eq {d d' : Document} (h : d'.templates = d.templates) (t : DataType) :
    d'.core? t = d.core? t := by
  cases t with
  | template id =>
    exact core?_congr (p := fun _ => True) (fun _ _ => by rw [h]) (fun _ _ _ _ => trivial) trivial
  | _ => rfl

theorem AgreeBelow.core?_eq {e : Extent} {d d' : Document} (h : AgreeBelow e d d')
    (hd : d.Linked) {t : DataType} (ht : t.Below e) : d'.core? t = d.core? t := by
  cases t with
  | template id =>
    refine core?_congr (p := fun id => id.index < e.templates)
      (fun id hid => by rw [h.instance_eq hid]) (fun id inner hid ha => ?_) ht
    obtain ⟨i, hi, ha⟩ := Option.bind_eq_some_iff.1 ha
    exact Nat.lt_trans ((hd.templates id i hi).inner inner ha) hid
  | _ => rfl

/-- To fill the argument of an instance shows in what hangs on the instance only. -/
theorem core?_fill {d : Document} {o : TemplateId} (hopen : d.IsOpen (.templateArgument o))
    (u : DataType) {t : DataType} (ht : ¬ d.HangsOn t o) :
    (d.fill (.templateArgument o) u).core? t = d.core? t := by
  cases t with
  | template id =>
    refine core?_congr (p := fun id => ¬ d.HangsOn (.template id) o) (fun id hid => ?_)
      (fun id inner hid ha hinner => ?_) ht
    · rw [get?_templates_fill, if_neg]
      rintro ⟨⟩
      obtain ⟨i, hi, ha⟩ := Option.map_eq_some_iff.1 hopen
      exact hid (.here hi ha)
    · obtain ⟨i, hi, ha⟩ := Option.bind_eq_some_iff.1 ha
      exact hid (.inside hi ha hinner)
  | _ => rfl

/-- Without open slots there is a core in every type. -/
theorem isFinished_of_linked {d : Document} (hd : d.Linked) (hopen : ∀ slot, ¬ d.IsOpen slot)
    {id : TemplateId} (hid : id.index < d.templates.size) :
    d.isFinished (.template id) = true := by
  change (d.core? (.template id)).isSome = true
  induction hn : id.index using Nat.strongRecOn generalizing id with
  | ind n ih =>
    obtain ⟨i, hi⟩ := Option.isSome_iff_exists.1 ((d.templates.get?_isSome_iff id).2 hid)
    have hl := hd.templates id i hi
    rw [core?_template, hi, Option.bind_some]
    cases ha : i.argument with
    | none =>
      have hslot : d.IsOpen (.templateArgument id) := by simp [IsOpen, slot?, hi, ha]
      exact absurd hslot (hopen _)
    | some t =>
      cases t with
      | template inner =>
        have hlt := hl.inner inner ha
        simp only [hlt, if_true]
        exact ih inner.index (hn ▸ hlt) (hl.argument _ ha) rfl
      | _ => rfl

/-- The core of a type that is there is there. -/
theorem Linked.core?_below {d : Document} (hd : d.Linked) {t u : DataType}
    (ht : t.Below d.extent) (hu : d.core? t = some u) : u.Below d.extent := by
  cases t with
  | template id =>
    induction hn : id.index using Nat.strongRecOn generalizing id with
    | ind n ih =>
      rw [core?_template] at hu
      cases hi : d.templates.get? id with
      | none =>
        rw [hi] at hu
        cases hu
      | some i =>
        have hl := hd.templates id i hi
        rw [hi, Option.bind_some] at hu
        cases ha : i.argument with
        | none =>
          rw [ha] at hu
          cases hu
        | some v =>
          have hv := hl.argument v ha
          rw [ha] at hu
          cases v with
          | template inner =>
            have hlt := hl.inner inner ha
            simp only [hlt, if_true] at hu
            exact ih inner.index (hn ▸ hlt) inner hv hu rfl
          | _ =>
            cases hu
            exact hv
  | _ =>
    cases hu
    exact ht

end Idl.Document
