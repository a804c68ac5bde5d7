import Idl.Proofs.Session.Bind

/-!
Sound documents: all links lead somewhere, and the names that wait belong to the open slots, one
name to each. A type that hangs on an open instance hangs on a name that waits. For the type of
a field this name was read inside the structure of the field, so whoever binds the name knows
which structure to check again.
-/

namespace Idl

/-- A type that a name can mean: its node is there, and it is no template. -/
def DataType.Named (e : Document.Extent) (t : DataType) : Prop :=
  t.Below e ∧ ∀ id, t ≠ .template id

theorem Declaration.named_of_type? {e : Document.Extent} {x : Declaration} {t : DataType}
    (h : x.type? = some t) (hx : x.Below e) : t.Named e := by
  refine ⟨(below_of_type? h).2 hx, ?_⟩
  rintro id rfl
  cases x <;> cases h

namespace Document

/-- The type is built on the instance, which has no argument yet. -/
inductive HangsOn (d : Document) : DataType → TemplateId → Prop where
  | here {id : TemplateId} {i : Instance} (hi : d.templates.get? id = some i)
      (ha : i.argument = none) : HangsOn d (.template id) id
  | inside {id : TemplateId} {i : Instance} {t : DataType} {o : TemplateId}
      (hi : d.templates.get? id = some i) (ha : i.argument = some t) (h : HangsOn d t o) :
      HangsOn d (.template id) o

theorem HangsOn.congr {d d' : Document} {t : DataType} {o : TemplateId} (h : d'.HangsOn t o)
    (ht : d'.templates = d.templates) : d.HangsOn t o := by
  induction h with
  | here hi ha => exact .here (ht ▸ hi) ha
  | inside hi ha _ ih => exact .inside (ht ▸ hi) ha ih

theorem HangsOn.not_named {d : Document} {e : Extent} {t : DataType} {o : TemplateId}
    (h : d.HangsOn t o) : ¬ t.Named e := by
  intro hn
  cases h with
  | here _ _ => exact hn.2 _ rfl
  | inside _ _ _ => exact hn.2 _ rfl

/-- The names wait for the open slots, each name for one of its own. -/
structure Waiting (d : Document) (ws : List Binding) : Prop where
  distinct : (ws.map Binding.slot).Nodup
  slots : ∀ slot, slot ∈ ws.map Binding.slot ↔ d.IsOpen slot

/-- A type as it is used inside a structure, or outside of all: what it hangs on waits there. -/
structure Usable (d : Document) (ws : List Binding) (scope : Option StructureId)
    (t : DataType) : Prop where
  below : t.Below d.extent
  waits : ∀ o, d.HangsOn t o → ∃ b ∈ ws, b.slot = .templateArgument o ∧ b.scope = scope

theorem Usable.of_named {d : Document} {ws : List Binding} {scope : Option StructureId}
    {t : DataType} (h : t.Named d.extent) : d.Usable ws scope t :=
  ⟨h.1, fun _ ho => absurd h ho.not_named⟩

theorem grows_register (d : Document) (x : Declaration) : Grows d (d.register x) :=
  .of_eq rfl (slot?_register d x) rfl rfl rfl

/-- The document with other imports and another package. -/
def note (d : Document) (imports : List Import) (package : Option Package) : Document :=
  { d with imports, package }

theorem slot?_note (d : Document) (imports : List Import) (package : Option Package)
    (slot : Slot) : (d.note imports package).slot? slot = d.slot? slot := by
  cases slot <;> rfl

theorem grows_note (d : Document) (imports : List Import) (package : Option Package) :
    Grows d (d.note imports package) :=
  .of_eq rfl (slot?_note d imports package) rfl rfl rfl

structure Sound (d : Document) (ws : List Binding) : Prop where
  linked : d.Linked
  waiting : d.Waiting ws
  scopes : ∀ b ∈ ws, ∀ id, b.scope = some id → id.index < d.structures.size
  fields : ∀ f t, d.slot? (.field f) = some (some t) → d.Usable ws (some f.owner) t

namespace Sound

variable {d d' : Document} {ws ws' : List Binding}

theorem perm (h : d.Sound ws) (hp : ws.Perm ws') : d.Sound ws' where
  linked := h.linked
  waiting :=
    ⟨(hp.map _).nodup_iff.1 h.waiting.distinct,
      fun slot => ((hp.map _).mem_iff (a := slot)).symm.trans (h.waiting.slots slot)⟩
  scopes b hb := h.scopes b (hp.mem_iff.2 hb)
  fields f t hf := by
    refine ⟨(h.fields f t hf).below, fun o ho => ?_⟩
    obtain ⟨b, hb, hs⟩ := (h.fields f t hf).waits o ho
    exact ⟨b, hp.mem_iff.1 hb, hs⟩

/-- Soundness hangs on the links, the slots, the instances and the extent. -/
theorem congr (h : d.Sound ws) (hl : d'.Linked) (he : d'.extent = d.extent)
    (hs : ∀ slot, d'.slot? slot = d.slot? slot) (ht : d'.templates = d.templates) :
    d'.Sound ws where
  linked := hl
  waiting := ⟨h.waiting.distinct, fun slot => by rw [h.waiting.slots, IsOpen, IsOpen, hs]⟩
  scopes b hb id hid := Nat.lt_of_lt_of_eq (h.scopes b hb id hid)
    (congrArg Extent.structures he).symm
  fields f t hf := by
    have hu := h.fields f t (hs _ ▸ hf)
    exact ⟨he ▸ hu.below, fun o ho => hu.waits o (ho.congr ht)⟩

theorem sheds (h : d.Sound ws) (hs : d.Sheds d') : d'.Sound ws :=
  h.congr ((hs.linksInto h.linked).mono hs.grows) hs.extent hs.slot? hs.templates

theorem register (h : d.Sound ws) {x : Declaration} (hx : x.Below d.extent) :
    (d.register x).Sound ws := by
  refine h.congr ?_ rfl (slot?_register d x) rfl
  have hl := h.linked.mono (grows_register d x)
  refine { hl with declarations := fun y hy => ?_, typeNames := fun entry he => ?_ }
  · rcases List.mem_append.1 hy with hy | hy
    · exact hl.declarations y hy
    · rw [List.mem_singleton.1 hy]
      exact hx
  · simp only [Document.register] at he
    split at he
    · rename_i t ht
      rcases List.mem_append.1 he with he | he
      · exact hl.typeNames entry he
      · rw [List.mem_singleton.1 he]
        exact ⟨x, ht, hx⟩
    · exact hl.typeNames entry he

theorem note (h : d.Sound ws) (imports : List Import) (package : Option Package) :
    (d.note imports package).Sound ws := by
  refine h.congr ?_ rfl (slot?_note d imports package) rfl
  exact { h.linked.mono (grows_note d imports package) with }

end Sound

/-- In the document of a session that has just been started there is nothing. -/
theorem sound_setMain (source : Option SourceId) : (setMain {} source).Sound [] := by
  have empty {family : Family} {α : Type} {p : Id family → α → Prop} :
      ({} : Arena family α).All p := fun _ _ h => by cases h
  have hslot (slot : Slot) : (setMain {} source).slot? slot = none := by
    cases slot <;> rfl
  refine ⟨⟨empty, empty, empty, empty, empty, empty, empty, ?_, ?_, ?_⟩,
    ⟨List.nodup_nil, fun slot => ?_⟩, ?_, fun f t h => ?_⟩
  · exact fun _ h => absurd h List.not_mem_nil
  · exact fun _ h => absurd h List.not_mem_nil
  · exact fun _ h => absurd h List.not_mem_nil
  · rw [IsOpen, hslot]
    simp
  · exact fun _ h => absurd h List.not_mem_nil
  · rw [hslot] at h
    cases h

section Fill

variable {d : Document} {slot : Slot} {t : DataType}

theorem IsOpen.isSome (h : d.IsOpen slot) : (d.slot? slot).isSome :=
  h ▸ rfl

theorem extent_fill (d : Document) (slot : Slot) (t : DataType) :
    (d.fill slot t).extent = d.extent := by
  cases slot <;> simp [extent, fill, modifyStructure, modifyEnumeration, modifyIdentifier,
    modifySpecimen, modifyFactory, modifyTemplate, modifyInterface]

theorem get?_templates_fill (d : Document) (slot : Slot) (t : DataType) (id : TemplateId) :
    (d.fill slot t).templates.get? id =
      if slot = .templateArgument id then
        (d.templates.get? id).map fun i => { i with argument := some t }
      else d.templates.get? id := by
  cases slot with
  | templateArgument o =>
    simp only [fill, modifyTemplate, Arena.get?_modify, Slot.templateArgument.injEq,
      eq_comm (a := o)]
  | _ => simp [fill, modifyStructure, modifyEnumeration, modifyIdentifier, modifySpecimen,
      modifyFactory, modifyInterface]

/-- To fill an open slot loses nothing. -/
theorem grows_fill (h : d.IsOpen slot) (t : DataType) : Grows d (d.fill slot t) where
  extent := extent_fill d slot t ▸ Extent.le_refl _
  slots s hs := by
    rw [slot?_fill d t h.isSome]
    split
    · rfl
    · exact hs
  filled s u hs := by
    have hne : s ≠ slot := by
      rintro rfl
      cases hs.symm.trans h
    rw [slot?_fill d t h.isSome, if_neg hne]
    exact hs
  instances id i hi := by
    rw [get?_templates_fill, hi]
    split
    · exact ⟨_, rfl, rfl, rfl⟩
    · exact ⟨i, rfl, rfl, rfl⟩
  methods id i hi := by
    cases slot with
    | methodParameter o method parameter =>
      simp only [fill, modifyInterface, Arena.get?_modify]
      split
      · exact ⟨_, by rw [hi]; rfl, by simp⟩
      · exact ⟨i, hi, Nat.le_refl _⟩
    | _ => exact ⟨i, hi, Nat.le_refl _⟩
  owners := by
    cases slot with
    | enumerationParameter id => exact keepsOwners_modifyEnumeration d id fun _ => rfl
    | _ => exact keepsOwners_of_eq rfl

theorem hangsOn_fill (ht : ∀ id, t ≠ .template id) {u : DataType} {o : TemplateId}
    (h : (d.fill slot t).HangsOn u o) : d.HangsOn u o ∧ slot ≠ .templateArgument o := by
  induction h with
  | here hi ha =>
    rw [get?_templates_fill] at hi
    split at hi
    · obtain ⟨i, _, rfl⟩ := Option.map_eq_some_iff.1 hi
      cases ha
    · rename_i hs
      exact ⟨.here hi ha, hs⟩
  | inside hi ha _ ih =>
    rw [get?_templates_fill] at hi
    split at hi
    · obtain ⟨i, _, rfl⟩ := Option.map_eq_some_iff.1 hi
      cases ha
      rename_i hc
      cases hc with
      | here _ _ => exact absurd rfl (ht _)
      | inside _ _ _ => exact absurd rfl (ht _)
    · exact ⟨.inside hi ha ih.1, ih.2⟩

/-- The slot that is filled holds a type that is there; all else is linked as before. -/
theorem LinksInto.fill {world : Document} (hd : d.LinksInto world) (slot : Slot)
    (ht : t.Named world.extent) : (d.fill slot t).LinksInto world := by
  have known : TypeLinked world (some t) := by
    rintro _ ⟨⟩
    exact ht.1
  cases slot with
  | field f =>
    exact { hd with structures := hd.structures.modify fun x hx =>
      (hd.structures f.owner x hx).modifyField f.member (fun _ => rfl) fun _ _ => known }
  | enumerationParameter id =>
    exact { hd with enumerations := hd.enumerations.modify fun x hx =>
      ⟨known, (hd.enumerations id x hx).owner, (hd.enumerations id x hx).values⟩ }
  | identifierParameter id =>
    exact { hd with identifiers := hd.identifiers.modify fun _ _ => known }
  | specimenParameter id =>
    exact { hd with specimens := hd.specimens.modify fun x hx =>
      ⟨known, (hd.specimens id x hx).base⟩ }
  | factoryParameter id =>
    exact { hd with factories := hd.factories.modify fun x hx =>
      ⟨known, (hd.factories id x hx).filters⟩ }
  | templateArgument id =>
    exact { hd with templates := hd.templates.modify fun x hx =>
      ⟨known, fun o ho => absurd (Option.some.inj ho) (ht.2 o)⟩ }
  | methodParameter id method parameter =>
    refine { hd with interfaces := hd.interfaces.modify fun x hx m hm p hp => ?_ }
    obtain ⟨_, hm⟩ := List.getElem?_of_mem hm
    simp only [List.getElem?_modify, Option.map_eq_map, Option.map_eq_some_iff] at hm
    obtain ⟨m', hm', rfl⟩ := hm
    have hl := hd.interfaces id x hx m' (List.mem_of_getElem? hm')
    split at hp
    · obtain ⟨_, hp⟩ := List.getElem?_of_mem hp
      simp only [Method.modifyParameter, List.getElem?_modify, Option.map_eq_map,
        Option.map_eq_some_iff] at hp
      obtain ⟨p', hp', rfl⟩ := hp
      split
      · exact known
      · exact hl p' (List.mem_of_getElem? hp')
    · exact hl p hp

/-- To fill the slot of a name that waits keeps a document sound for the other names. -/
theorem Sound.fill {b : Binding} {ws : List Binding} (h : d.Sound (b :: ws))
    (ht : t.Named d.extent) : (d.fill b.slot t).Sound ws := by
  have hopen : d.IsOpen b.slot := (h.waiting.slots b.slot).1 List.mem_cons_self
  have hnotin : b.slot ∉ ws.map Binding.slot := (List.nodup_cons.1 h.waiting.distinct).1
  have ht' : t.Named (d.fill b.slot t).extent := by rwa [extent_fill]
  refine ⟨(h.linked.mono (grows_fill hopen t)).fill b.slot ht', ?_, ?_, ?_⟩
  · refine ⟨(List.nodup_cons.1 h.waiting.distinct).2, fun slot => ?_⟩
    have hslot := h.waiting.slots slot
    rw [List.map_cons, List.mem_cons] at hslot
    rw [IsOpen, slot?_fill d t hopen.isSome]
    split
    · rename_i hs
      simp [hs, hnotin]
    · rename_i hs
      rw [← IsOpen, ← hslot]
      simp [hs]
  · intro b' hb' id hid
    have := h.scopes b' (List.mem_cons_of_mem _ hb') id hid
    exact Nat.lt_of_lt_of_eq this (congrArg Extent.structures (extent_fill d b.slot t)).symm
  · intro f u hf
    rw [slot?_fill d t hopen.isSome] at hf
    split at hf
    · cases hf
      exact .of_named ht'
    · have hu := h.fields f u hf
      refine ⟨by rw [extent_fill]; exact hu.below, fun o ho => ?_⟩
      obtain ⟨hold, hne⟩ := hangsOn_fill ht.2 ho
      obtain ⟨b', hb', hs, hscope⟩ := hu.waits o hold
      rcases List.mem_cons.1 hb' with rfl | hb'
      · exact absurd hs hne
      · exact ⟨b', hb', hs, hscope⟩

/-- A name that waits among others can be taken first. -/
theorem perm_waiting (others front : List Binding) (b : Binding) (back : List Binding) :
    (others ++ (front ++ b :: back)).Perm (b :: (others ++ (front ++ back))) := by
  rw [← List.append_assoc, ← List.append_assoc]
  exact List.perm_middle

/-- To bind a name that waits to a type it can mean. -/
theorem Sound.bind {s : Session} {b : Binding} {ws : List Binding}
    (h : s.document.Sound (b :: ws)) (checks : List Check) (ht : t.Named s.document.extent) :
    (s.bind checks b t).document.Sound ws :=
  (h.fill ht).sheds (s.sheds_bind checks b t)

/-- Nothing but an open slot is filled when a name that waits is bound. -/
theorem Sound.grows_bind {s : Session} {b : Binding} {ws : List Binding}
    (h : s.document.Sound (b :: ws)) (checks : List Check) (t : DataType) :
    s.document.Grows (s.bind checks b t).document :=
  (grows_fill ((h.waiting.slots b.slot).1 List.mem_cons_self) t).trans
    (s.sheds_bind checks b t).grows

end Fill

end Document

end Idl
