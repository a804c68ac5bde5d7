import Idl.Proofs.Document.Sound
import Idl.Proofs.Document.Write

/-!
Instances that are given out again. An instance that is made with an argument is shared from then
on; one that is made without is not, not even when it gets its argument later. To take instances
away is to forget what shares them, so their numbers can be given to others. What the instances
were made as lies in the past of a document, but it can be told from the document.
-/

namespace Idl

/-- Among entries with different keys each one is the first with its key. -/
theorem lookup_eq_some_of_mem {α β : Type} [BEq α] [LawfulBEq α] {entries : List (α × β)}
    (h : (entries.map Prod.fst).Nodup) {key : α} {value : β} (hmem : (key, value) ∈ entries) :
    entries.lookup key = some value := by
  induction entries with
  | nil => cases hmem
  | cons entry entries ih =>
    obtain ⟨key', value'⟩ := entry
    rw [List.map_cons, List.nodup_cons] at h
    rcases List.mem_cons.1 hmem with heq | hmem
    · cases heq
      exact List.lookup_cons_self
    · have hne : (key == key') = false := by
        refine beq_eq_false_iff_ne.2 fun heq => h.1 ?_
        exact List.mem_map.2 ⟨(key, value), hmem, heq⟩
      simp only [List.lookup_cons, hne]
      exact ih h.2 hmem

theorem mem_of_lookup_eq_some {α β : Type} [BEq α] [LawfulBEq α] {entries : List (α × β)}
    {key : α} {value : β} (h : entries.lookup key = some value) : (key, value) ∈ entries := by
  obtain ⟨front, back, heq, _⟩ := List.lookup_eq_some_iff.1 h
  simp [heq]

theorem getElem?_concat_eq_some_iff {α : Type} {entries : List α} {entry other : α} {i : Nat} :
    (entries ++ [entry])[i]? = some other ↔
      entries[i]? = some other ∨ i = entries.length ∧ entry = other := by
  rw [List.getElem?_append]
  split
  · rename_i hlt
    exact ⟨.inl, fun h => h.resolve_right fun ⟨heq, _⟩ => Nat.ne_of_lt hlt heq⟩
  · rename_i hge
    rw [List.getElem?_eq_none (Nat.le_of_not_lt hge), List.getElem?_singleton]
    grind

namespace Document

variable {d d' d'' : Document} {made made' made'' : List Instance} {kept : Nat}

theorem mem_shared_insertInstance (d : Document) (i : Instance) {template : Template}
    {t : DataType} {weak : Bool} {id : TemplateId} :
    ((template, t, weak), id) ∈ (d.insertInstance i).shared ↔
      ((template, t, weak), id) ∈ d.shared ∨
        id = d.templates.next ∧ i = ⟨template, some t, weak⟩ := by
  obtain ⟨template', argument, weak'⟩ := i
  cases argument with
  | none => simp [insertInstance]
  | some t' =>
    simp only [insertInstance, List.mem_append, List.mem_singleton, Prod.mk.injEq,
      Instance.mk.injEq, Option.some.injEq]
    grind

instance (d : Document) (i : Instance) : Decidable (d.Lacks i) :=
  inferInstanceAs (Decidable (_ = _))

theorem instantiate_of_lacks {i : Instance} (h : d.Lacks i) :
    d.instantiate i.template i.argument i.weak = (d.templates.next, d.insertInstance i) := by
  simp only [instantiate, show (i.argument.bind _) = none from h]

theorem instantiate_of_not_lacks {i : Instance} (h : ¬ d.Lacks i) :
    (d.instantiate i.template i.argument i.weak).2 = d := by
  obtain ⟨id, hid⟩ := Option.ne_none_iff_exists'.1 h
  simp only [instantiate, hid]

theorem shared_fill (d : Document) (slot : Slot) (t : DataType) :
    (d.fill slot t).shared = d.shared := by
  cases slot <;> rfl

/-- What is done to a document, as far as its instances are concerned. With the document goes the
list of its instances as they were made, and none of the first `kept` of them is taken away. -/
inductive Evolves (kept : Nat) (made : List Instance) (d : Document) :
    List Instance → Document → Prop where
  | refl : Evolves kept made d made d
  /-- An instance is asked for. It is given out again, or it is made. -/
  | instantiate {made' : List Instance} {d' : Document} (h : Evolves kept made d made' d')
      (i : Instance) :
      Evolves kept made d (if d'.Lacks i then made' ++ [i] else made')
        (d'.instantiate i.template i.argument i.weak).2
  /-- A type becomes known, it may be the argument of an instance that was made without one. -/
  | fill {made' : List Instance} {d' : Document} (h : Evolves kept made d made' d')
      {slot : Slot} (hopen : d'.IsOpen slot) (t : DataType) :
      Evolves kept made d made' (d'.fill slot t)
  | restore {made' : List Instance} {d' : Document} (h : Evolves kept made d made' d') {e : Extent}
      (he : kept ≤ e.templates) :
      Evolves kept made d (made'.take e.templates) (d'.restore e)
  | elsewhere {made' : List Instance} {d' d'' : Document} (h : Evolves kept made d made' d')
      (ht : d''.templates = d'.templates) (hs : d''.shared = d'.shared) :
      Evolves kept made d made' d''

/-- These are the instances of the document as they were made since there was none. -/
def Made (d : Document) (made : List Instance) : Prop :=
  ∃ first : Document, first.templates.size = 0 ∧ first.shared = [] ∧ Evolves 0 [] first made d

/-- What is shared are the instances that were made with an argument, and each is still what it
was made as. -/
structure Interned (d : Document) (made : List Instance) : Prop where
  size : d.templates.size = made.length
  /-- An instance can have got an argument since. -/
  origin : ∀ id i, d.templates.get? id = some i → ∃ c, made[id.index]? = some c ∧
    i.template = c.template ∧ i.weak = c.weak ∧ ∀ t, c.argument = some t → i.argument = some t
  shared : ∀ template t weak id, ((template, t, weak), id) ∈ d.shared ↔
    made[id.index]? = some ⟨template, some t, weak⟩
  keys : (d.shared.map Prod.fst).Nodup

namespace Evolves

theorem trans (h : Evolves kept made d made' d') (h' : Evolves kept made' d' made'' d'') :
    Evolves kept made d made'' d'' := by
  induction h' with
  | refl => exact h
  | instantiate _ i ih => exact ih.instantiate i
  | fill _ hopen t ih => exact ih.fill hopen t
  | restore _ he ih => exact ih.restore he
  | elsewhere _ ht hs ih => exact ih.elsewhere ht hs

/-- The instances that are not taken away are still known as they were made. -/
theorem take_kept (h : Evolves kept made d made' d') (hk : kept ≤ made.length) :
    kept ≤ made'.length ∧ made'.take kept = made.take kept := by
  induction h with
  | refl => exact ⟨hk, rfl⟩
  | instantiate _ i ih =>
    split
    · refine ⟨?_, (List.take_append_of_le_length ih.1).trans ih.2⟩
      rw [List.length_append]
      exact Nat.le_add_right_of_le ih.1
    · exact ih
  | fill _ _ _ ih => exact ih
  | restore _ he ih =>
    rw [List.length_take, List.take_take, Nat.min_eq_left he]
    exact ⟨Nat.le_min.2 ⟨he, ih.1⟩, ih.2⟩
  | elsewhere _ _ _ ih => exact ih

theorem getElem?_of_lt (h : Evolves kept made d made' d') (hk : kept ≤ made.length) {i : Nat}
    (hi : i < kept) : made'[i]? = made[i]? := by
  rw [← List.getElem?_take_of_lt hi, (h.take_kept hk).2, List.getElem?_take_of_lt hi]

end Evolves

namespace Interned

variable {template : Template} {t : DataType} {weak : Bool} {id : TemplateId}

section Keep

theorem make (h : d.Interned made) {i : Instance} (hi : d.Lacks i) :
    (d.insertInstance i).Interned (made ++ [i]) where
  size := by simp [insertInstance, h.size]
  origin id x hx := by
    simp only [insertInstance, Arena.get?_insert] at hx
    split at hx
    · rename_i hid
      cases hx
      have hindex : id.index = made.length := (congrArg Id.index hid).trans h.size
      exact ⟨i, by simp [hindex], rfl, rfl, fun _ h => h⟩
    · obtain ⟨c, hc, hx⟩ := h.origin id x hx
      exact ⟨c, List.getElem?_append_left (List.getElem?_eq_some_iff.1 hc).1 ▸ hc, hx⟩
  shared template t weak id := by
    have hnext : id = d.templates.next ↔ id.index = made.length := by
      rw [← h.size]
      exact ⟨fun heq => congrArg Id.index heq, fun heq => congrArg Id.mk heq⟩
    rw [mem_shared_insertInstance, h.shared, getElem?_concat_eq_some_iff, hnext]
  keys := by
    obtain ⟨template, argument, weak⟩ := i
    cases argument with
    | none => exact h.keys
    | some t =>
      simp only [insertInstance, List.map_append, List.map_cons, List.map_nil]
      refine List.nodup_append.2 ⟨h.keys, List.nodup_singleton _, fun key hkey _ hnew heq => ?_⟩
      obtain ⟨entry, hentry, rfl⟩ := List.mem_map.1 hkey
      have hother := List.lookup_eq_none_iff.1 hi entry hentry
      rw [List.mem_singleton.1 hnew] at heq
      simp [heq] at hother

theorem instantiate (h : d.Interned made) (i : Instance) :
    (d.instantiate i.template i.argument i.weak).2.Interned
      (if d.Lacks i then made ++ [i] else made) := by
  split
  · rename_i hi
    rw [instantiate_of_lacks hi]
    exact h.make hi
  · rename_i hi
    rw [instantiate_of_not_lacks hi]
    exact h

theorem fill (h : d.Interned made) {slot : Slot} (hopen : d.IsOpen slot) (t : DataType) :
    (d.fill slot t).Interned made where
  size := (congrArg Extent.templates (extent_fill d slot t)).trans h.size
  origin id x hx := by
    rw [get?_templates_fill] at hx
    split at hx
    · rename_i hslot
      obtain ⟨i, hi, rfl⟩ := Option.map_eq_some_iff.1 hx
      obtain ⟨c, hc, htemplate, hweak, harg⟩ := h.origin id i hi
      refine ⟨c, hc, htemplate, hweak, fun u hu => ?_⟩
      rw [hslot, IsOpen, slot?, hi] at hopen
      cases (harg u hu).symm.trans (Option.some.inj hopen)
    · exact h.origin id x hx
  shared := shared_fill d slot t ▸ h.shared
  keys := shared_fill d slot t ▸ h.keys

theorem restore (h : d.Interned made) (e : Extent) :
    (d.restore e).Interned (made.take e.templates) where
  size := by simp [Document.restore, h.size]
  origin id x hx := by
    rw [Document.restore, Arena.get?_truncate] at hx
    split at hx
    · rename_i hlt
      rw [List.getElem?_take_of_lt hlt]
      exact h.origin id x hx
    · cases hx
  shared template t weak id := by
    rw [Document.restore, List.mem_filter, h.shared, List.getElem?_take]
    by_cases hlt : id.index < e.templates <;> simp [hlt]
  keys := h.keys.sublist (List.filter_sublist.map Prod.fst)

theorem elsewhere (h : d.Interned made) (ht : d'.templates = d.templates)
    (hs : d'.shared = d.shared) : d'.Interned made where
  size := ht ▸ h.size
  origin := ht ▸ h.origin
  shared := hs ▸ h.shared
  keys := hs ▸ h.keys

theorem evolves (h : d.Interned made) (he : Evolves kept made d made' d') :
    d'.Interned made' := by
  induction he with
  | refl => exact h
  | instantiate _ i ih => exact ih.instantiate i
  | fill _ hopen t ih => exact ih.fill hopen t
  | restore _ _ ih => exact ih.restore _
  | elsewhere _ ht hs ih => exact ih.elsewhere ht hs

end Keep

section Read

variable (h : d.Interned made)

include h

/-- What is shared is the instance that was asked for. -/
theorem get?_of_mem_shared (hmem : ((template, t, weak), id) ∈ d.shared) :
    d.templates.get? id = some ⟨template, some t, weak⟩ := by
  have hmade := (h.shared template t weak id).1 hmem
  have hlt : id.index < d.templates.size := h.size ▸ (List.getElem?_eq_some_iff.1 hmade).1
  obtain ⟨i, hi⟩ := Option.isSome_iff_exists.1 ((d.templates.get?_isSome_iff id).2 hlt)
  obtain ⟨c, hc, htemplate, hweak, hargument⟩ := h.origin id i hi
  cases hmade.symm.trans hc
  obtain ⟨_, _, _⟩ := i
  cases htemplate
  cases hweak
  cases hargument t rfl
  exact hi

theorem lookup_eq_some_iff : d.shared.lookup (template, t, weak) = some id ↔
    made[id.index]? = some ⟨template, some t, weak⟩ := by
  rw [← h.shared]
  exact ⟨mem_of_lookup_eq_some, lookup_eq_some_of_mem h.keys⟩

/-- No two instances were made alike with an argument. -/
theorem eq_of_getElem? {i j : Nat} {c : Instance} (hi : made[i]? = some c)
    (hj : made[j]? = some c) (hc : c.argument ≠ none) : i = j := by
  obtain ⟨template, argument, weak⟩ := c
  obtain ⟨t, rfl⟩ := Option.ne_none_iff_exists'.1 hc
  have hfound {k : Nat} (hk : made[k]? = some ⟨template, some t, weak⟩) :
      d.shared.lookup (template, t, weak) = some ⟨k⟩ := h.lookup_eq_some_iff.2 hk
  exact congrArg Id.index (Option.some.inj ((hfound hi).symm.trans (hfound hj)))

theorem eq_of_argument (h' : d.Interned made') {i : Nat} {c c' : Instance}
    (hc : made[i]? = some c) (hc' : made'[i]? = some c') (ht : c.argument = some t) : c' = c := by
  obtain ⟨template, _, weak⟩ := c
  cases ht
  have hmem := (h.shared template t weak ⟨i⟩).2 hc
  exact Option.some.inj (hc'.symm.trans ((h'.shared template t weak ⟨i⟩).1 hmem))

/-- What an instance was made as can be told from the document: what is shared was made as it is,
and everything else without an argument. -/
theorem eq_of_getElem?_of_getElem? (h' : d.Interned made') {i : Nat} {c c' : Instance}
    (hc : made[i]? = some c) (hc' : made'[i]? = some c') : c' = c := by
  cases ht : c.argument with
  | some t => exact h.eq_of_argument h' hc hc' ht
  | none =>
    cases ht' : c'.argument with
    | some t => exact (h'.eq_of_argument h hc' hc ht').symm
    | none =>
      have hlt : i < made.length := (List.getElem?_eq_some_iff.1 hc).1
      obtain ⟨x, hx⟩ := Option.isSome_iff_exists.1
        ((d.templates.get?_isSome_iff ⟨i⟩).2 (h.size ▸ hlt))
      obtain ⟨_, hmade, htemplate, hweak, _⟩ := h.origin ⟨i⟩ x hx
      obtain ⟨_, hmade', htemplate', hweak', _⟩ := h'.origin ⟨i⟩ x hx
      cases hc.symm.trans hmade
      cases hc'.symm.trans hmade'
      obtain ⟨_, _, _⟩ := c
      obtain ⟨_, _, _⟩ := c'
      cases ht
      cases ht'
      rw [Instance.mk.injEq]
      exact ⟨htemplate'.symm.trans htemplate, rfl, hweak'.symm.trans hweak⟩

theorem unique (h' : d.Interned made') : made' = made :=
  List.ext_getElem (h'.size.symm.trans h.size) fun _ hi' hi =>
    h.eq_of_getElem?_of_getElem? h' (List.getElem?_eq_getElem hi) (List.getElem?_eq_getElem hi')

theorem instantiate_eq_of_getElem? {i : Nat} (hi : made[i]? = some ⟨template, some t, weak⟩) :
    d.instantiate template (some t) weak = (⟨i⟩, d) := by
  have hfound : d.shared.lookup (template, t, weak) = some ⟨i⟩ := h.lookup_eq_some_iff.2 hi
  simp only [Document.instantiate, Option.bind_some, hfound]

end Read

/-- Behind it the instance that was asked for is one that was made as that. -/
theorem getElem?_instantiate
    (h : (d.instantiate template (some t) weak).2.Interned made) :
    made[(d.instantiate template (some t) weak).1.index]? = some ⟨template, some t, weak⟩ := by
  rw [← h.shared, Document.instantiate]
  split
  · rename_i id hfound
    exact mem_of_lookup_eq_some hfound
  · exact (mem_shared_insertInstance d _).2 (.inr ⟨rfl, rfl⟩)

end Interned

theorem Made.interned (h : d.Made made) : d.Interned made := by
  obtain ⟨first, hsize, hshared, he⟩ := h
  refine Interned.evolves ⟨hsize, fun id i hi => ?_, fun _ _ _ _ => ?_, ?_⟩ he
  · rw [(first.templates.get?_eq_none_iff id).2 (hsize ▸ Nat.zero_le _)] at hi
    cases hi
  · simp [hshared]
  · simp [hshared]

theorem Made.evolves (h : d.Made made) (he : Evolves 0 made d made' d') : d'.Made made' := by
  obtain ⟨first, hsize, hshared, hfirst⟩ := h
  exact ⟨first, hsize, hshared, hfirst.trans he⟩

/-- An instance with an argument is asked for, and then, as long as the first one has not been
taken away, another one: they are the same instance if and only if the same was asked for. -/
theorem Interned.instantiate_eq_iff {template template' : Template} {t t' : DataType}
    {weak weak' : Bool} (h : (d.instantiate template (some t) weak).2.Interned made)
    (he : Evolves ((d.instantiate template (some t) weak).1.index + 1) made
      (d.instantiate template (some t) weak).2 made' d') :
    (d'.instantiate template' (some t') weak').1 = (d.instantiate template (some t) weak).1 ↔
      (template', t', weak') = (template, t, weak) := by
  have hmade := h.getElem?_instantiate
  have hkept : made'[(d.instantiate template (some t) weak).1.index]? =
      some ⟨template, some t, weak⟩ :=
    (he.getElem?_of_lt (List.getElem?_eq_some_iff.1 hmade).1 (Nat.lt_succ_self _)).trans hmade
  have h' := h.evolves he
  constructor
  · intro heq
    have he' := (Evolves.refl : Evolves made'.length made' d' made' d').instantiate
      ⟨template', some t', weak'⟩
    have hasked := (h'.evolves he').getElem?_instantiate
    rw [heq, he'.getElem?_of_lt (Nat.le_refl _) (List.getElem?_eq_some_iff.1 hkept).1, hkept]
      at hasked
    cases hasked
    rfl
  · intro heq
    cases heq
    rw [h'.instantiate_eq_of_getElem? hkept]

end Document

end Idl
