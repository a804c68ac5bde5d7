import Idl.Proofs.Document.Core
import Idl.Proofs.Draft.Plain

/-!
What slots hold of the types that were meant for them: the templates around a name, and inside
what the name means, or nothing while the name waits. A slot goes on to hold its type while the
document is extended, and when a name is bound to what it means. When all names that wait mean
nothing, the type is called as it was written, and its core is what its name means.
-/

namespace Idl

namespace Document

/-- What stands in a slot for a name inside of templates. -/
def Stands (d : Document) (ws : List Binding) (leaf : String) :
    List Template → Option DataType → Slot → Prop
  | [], some t, _ => d.leaf? leaf = some t
  | [], none, slot => ∃ b ∈ ws, b.slot = slot ∧ b.name.last.text = leaf
  | template :: shells, some (.template id), _ =>
    ∃ i, d.templates.get? id = some i ∧ i.template = template ∧
      d.Stands ws leaf shells i.argument (.templateArgument id)
  | _ :: _, _, _ => False

/-- The slot is there, and the type that was meant for it stands in it. -/
def Holds (d : Document) (ws : List Binding) (slot : Slot) (e : TypeExpr) : Prop :=
  ∃ t?, d.slot? slot = some t? ∧ d.Stands ws e.leaf e.shells t? slot

variable {d d' : Document} {ws ws' : List Binding} {leaf : String} {shells : List Template}
  {slot : Slot} {t? : Option DataType} {e : TypeExpr}

theorem stands_cons {template : Template} :
    d.Stands ws leaf (template :: shells) t? slot ↔ ∃ id i, t? = some (.template id) ∧
      d.templates.get? id = some i ∧ i.template = template ∧
        d.Stands ws leaf shells i.argument (.templateArgument id) := by
  constructor
  · intro h
    cases t? with
    | none => exact h.elim
    | some t =>
      cases t with
      | template id =>
        obtain ⟨i, h⟩ := h
        exact ⟨id, i, rfl, h⟩
      | _ => exact h.elim
  · rintro ⟨id, i, rfl, h⟩
    exact ⟨i, h⟩

/-- A document in which all that stands in slots goes on to stand there. -/
structure Keeps (d d' : Document) : Prop where
  typeNames : d'.typeNames = d.typeNames
  slots : ∀ slot t?, d.slot? slot = some t? → d'.slot? slot = some t?
  instances : ∀ id i, d.templates.get? id = some i → d'.templates.get? id = some i

theorem Keeps.trans {d'' : Document} (h : d.Keeps d') (h' : d'.Keeps d'') : d.Keeps d'' where
  typeNames := h'.typeNames.trans h.typeNames
  slots slot t? hs := h'.slots slot t? (h.slots slot t? hs)
  instances id i hi := h'.instances id i (h.instances id i hi)

theorem keeps_of_slot? (hn : d'.typeNames = d.typeNames) (ht : d'.templates = d.templates)
    (hs : ∀ slot, d'.slot? slot = d.slot? slot) : d.Keeps d' :=
  ⟨hn, fun slot t? h => (hs slot).trans h, fun id i h => by rw [ht]; exact h⟩

/-- A slot is made that was not there. -/
theorem keeps_of_made {made : Slot} {v : Option DataType} (hn : d'.typeNames = d.typeNames)
    (ht : d'.templates = d.templates)
    (hs : ∀ slot, d'.slot? slot = if slot = made then some v else d.slot? slot)
    (hmade : d.slot? made = none) : d.Keeps d' := by
  refine ⟨hn, fun slot t? h => ?_, fun id i h => by rw [ht]; exact h⟩
  rw [hs, if_neg]
  · exact h
  · rintro rfl
    rw [hmade] at h
    cases h

theorem Stands.mono (h : d.Stands ws leaf shells t? slot) (hd : d.IsPlain) (hd' : d'.IsPlain)
    (hk : d.Keeps d') (hws : ws ⊆ ws') : d'.Stands ws' leaf shells t? slot := by
  induction shells generalizing t? slot with
  | nil =>
    cases t? with
    | some t => exact (hd.leaf?_congr hd' hk.typeNames leaf).trans h
    | none =>
      obtain ⟨b, hb, h⟩ := h
      exact ⟨b, hws hb, h⟩
  | cons template shells ih =>
    obtain ⟨id, i, rfl, hi, ht, h⟩ := stands_cons.1 h
    exact ⟨i, hk.instances id i hi, ht, ih h⟩

theorem Holds.mono (h : d.Holds ws slot e) (hd : d.IsPlain) (hd' : d'.IsPlain)
    (hk : d.Keeps d') (hws : ws ⊆ ws') : d'.Holds ws' slot e := by
  obtain ⟨t?, hslot, h⟩ := h
  exact ⟨t?, hk.slots slot t? hslot, h.mono hd hd' hk hws⟩

theorem slot?_templateArgument {id : TemplateId} {i : Instance}
    (h : d.templates.get? id = some i) : d.slot? (.templateArgument id) = some i.argument := by
  rw [slot?, h]
  rfl

/-- A slot also goes on to hold its type when a name gets what it means. -/
theorem Holds.fill {front back : List Binding} {b : Binding} {t : DataType}
    (h : d.Holds (front ++ b :: back) slot e) (hd : d.IsPlain)
    (hs : d.Sound (front ++ b :: back)) (ht : d.leaf? b.name.last.text = some t) :
    (d.fill b.slot t).Holds (front ++ back) slot e := by
  have hopen : d.IsOpen b.slot := (hs.waiting.slots _).1 (List.mem_map_of_mem (by simp))
  have hfill := d.slot?_fill t hopen.isSome
  have hleaf (name : String) : (d.fill b.slot t).leaf? name = d.leaf? name :=
    hd.leaf?_congr (hd.fill hopen t) (by cases b.slot <;> rfl) name
  have hfilled {slot : Slot} {u : DataType} (hu : d.slot? slot = some (some u)) :
      (d.fill b.slot t).slot? slot = some (some u) := by
    rw [hfill, if_neg]
    · exact hu
    · rintro rfl
      cases hu.symm.trans hopen
  obtain ⟨shells, leaf⟩ := e
  induction shells generalizing slot with
  | nil =>
    obtain ⟨t?, hslot, h⟩ := h
    cases t? with
    | some u => exact ⟨some u, hfilled hslot, (hleaf leaf).trans h⟩
    | none =>
      obtain ⟨b', hb', hb's, hb'n⟩ := h
      by_cases hsame : slot = b.slot
      · -- Names have slots of their own, so it is this name that waited for the slot.
        have hb : b' = b := by
          have hinj := List.inj_on_of_nodup_map hs.waiting.distinct
          exact hinj hb' (by simp) (hb's.trans hsame)
        subst hb
        exact ⟨some t, by rw [hfill, if_pos hsame], by rw [Stands, hleaf, ← hb'n]; exact ht⟩
      · have hne : b' ≠ b := by
          rintro rfl
          exact hsame hb's.symm
        refine ⟨none, by rw [hfill, if_neg hsame]; exact hslot, b', ?_, hb's, hb'n⟩
        simpa [hne] using hb'
  | cons template shells ih =>
    obtain ⟨t?, hslot, h⟩ := h
    obtain ⟨id, i, rfl, hi, htemplate, h⟩ := stands_cons.1 h
    obtain ⟨u?, hu, hstands⟩ := ih ⟨i.argument, slot?_templateArgument hi, h⟩
    refine ⟨_, hfilled hslot, stands_cons.2 ?_⟩
    cases hi' : (d.fill b.slot t).templates.get? id with
    | none =>
      rw [get?_templates_fill, hi] at hi'
      split at hi' <;> cases hi'
    | some i' =>
      rw [slot?_templateArgument hi'] at hu
      cases hu
      refine ⟨id, i', rfl, hi', ?_, hstands⟩
      rw [get?_templates_fill, hi] at hi'
      split at hi' <;> cases hi' <;> exact htemplate

section Names

/-- The layers of what stands in a slot. -/
def layers? (d : Document) : Option DataType → Layers
  | some t => d.layers t
  | none => ⟨[], none⟩

theorem Linked.layers_template (hl : d.Linked) {id : TemplateId} {i : Instance}
    (hi : d.templates.get? id = some i) :
    d.layers (.template id) =
      ⟨(id, i) :: (d.layers? i.argument).shells, (d.layers? i.argument).core⟩ := by
  rw [layers, layersOf, hi]
  simp only
  cases ha : i.argument with
  | none => rfl
  | some t =>
    cases t with
    | template inner =>
      simp only [(hl.templates id i hi).inner inner ha, if_true]
      rfl
    | _ => rfl

/-- Nothing more can be bound: the names that wait mean nothing, and all others mean a type of
that name. -/
structure Exhausted (d : Document) (ws : List Binding) : Prop where
  linked : d.Linked
  waiting : ∀ b ∈ ws, d.leaf? b.name.last.text = none
  named : ∀ name t, d.leaf? name = some t → d.coreName t = name ∧ d.layers t = ⟨[], some t⟩

theorem Exhausted.layers?_eq (hx : d.Exhausted ws) (h : d.Stands ws leaf shells t? slot) :
    (d.layers? t?).shells.map (·.2.template) = shells ∧ (d.layers? t?).core = d.leaf? leaf := by
  induction shells generalizing t? slot with
  | nil =>
    cases t? with
    | some t =>
      rw [Stands] at h
      simp [layers?, (hx.named leaf t h).2, h]
    | none =>
      obtain ⟨b, hb, _, rfl⟩ := h
      exact ⟨rfl, (hx.waiting b hb).symm⟩
  | cons template shells ih =>
    obtain ⟨id, i, rfl, hi, rfl, hinner⟩ := stands_cons.1 h
    obtain ⟨hshells, hcore⟩ := ih hinner
    simp only [layers?, hx.linked.layers_template hi]
    exact ⟨congrArg (i.template :: ·) hshells, hcore⟩

theorem typeName_eq (d : Document) (t : DataType) :
    d.typeName t = TypeExpr.wrap ((d.layers t).shells.map (·.2.template))
      (((d.layers t).core.map d.coreName).getD "?") := by
  rw [TypeExpr.wrap, List.foldr_map]
  rfl

/-- What stands in a slot is called as it was written, as far as its name is known. -/
theorem Exhausted.typeName_eq_shown (hx : d.Exhausted ws)
    (h : d.Stands ws e.leaf e.shells t? slot) :
    t?.map d.typeName = e.shown fun name => (d.leaf? name).isSome := by
  obtain ⟨hshells, hcore⟩ := hx.layers?_eq h
  cases t? with
  | none =>
    have hnone : d.leaf? e.leaf = none := hcore.symm
    have hempty : e.shells = [] := hshells.symm
    simp [TypeExpr.shown, hnone, hempty]
  | some t =>
    have hname : d.typeName t = TypeExpr.wrap e.shells
        (((d.leaf? e.leaf).map d.coreName).getD "?") := by
      rw [typeName_eq, ← hshells, ← hcore]
      rfl
    rw [Option.map_some, hname, TypeExpr.shown]
    cases hleaf : d.leaf? e.leaf with
    | some u => simp [(hx.named e.leaf u hleaf).1, TypeExpr.text]
    | none =>
      have hne : e.shells ≠ [] := by
        intro hempty
        rw [hempty, Stands, hleaf] at h
        cases h
      simp [hne]

/-- A type whose name is known is there, and its core is what the name means. -/
theorem Exhausted.core_eq (hx : d.Exhausted ws) (h : d.Stands ws e.leaf e.shells t? slot)
    {t : DataType} (ht : d.leaf? e.leaf = some t) :
    ∃ u, t? = some u ∧ (d.layers u).core = some t := by
  have hcore := (hx.layers?_eq h).2
  cases t? with
  | none =>
    rw [ht] at hcore
    cases hcore
  | some u => exact ⟨u, rfl, hcore.trans ht⟩

end Names

end Document

end Idl
