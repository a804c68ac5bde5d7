import Mathlib.Data.List.Find
import Idl.Proofs.Check.Stable

/-!
What unqualified names mean while a document is extended. Declarations are added behind those
that are there; headings stay, and so do the enumerations that are nested in a structure once it
is there. So a name goes on to mean a nested enumeration or a type of its own package.
-/

namespace Idl

theorem Package.same_comm (a b : Option Package) : same a b = same b a := by
  rw [Bool.eq_iff_iff, same_iff, same_iff, eq_comm]

theorem Structure.nestedEnumerations_untyped (s : Structure) :
    s.untyped.nestedEnumerations = s.nestedEnumerations := by
  refine filterMap_untyped fun m => ?_
  cases m <;> rfl

namespace Document

/-- Names mean the same in both documents. -/
structure Alike (d d' : Document) : Prop where
  extent : d'.extent = d.extent
  typeNames : d'.typeNames = d.typeNames
  heading : ∀ x, d'.heading? x = d.heading? x
  nested : ∀ id : StructureId, (d'.structures.get? id).map Structure.nestedEnumerations =
    (d.structures.get? id).map Structure.nestedEnumerations

/-- All that names could mean is still there. -/
structure Extends (d d' : Document) : Prop where
  extent : d.extent ≤ d'.extent
  typeNames : d.typeNames <+: d'.typeNames
  heading : ∀ x : Declaration, x.Below d.extent → d'.heading? x = d.heading? x
  nested : ∀ id : StructureId, id.index < d.structures.size →
    (d'.structures.get? id).map Structure.nestedEnumerations =
      (d.structures.get? id).map Structure.nestedEnumerations

variable {d d' d'' : Document}

namespace Alike

theorem refl (d : Document) : d.Alike d :=
  ⟨rfl, rfl, fun _ => rfl, fun _ => rfl⟩

theorem trans (h : d.Alike d') (h' : d'.Alike d'') : d.Alike d'' where
  extent := h'.extent.trans h.extent
  typeNames := h'.typeNames.trans h.typeNames
  heading x := (h'.heading x).trans (h.heading x)
  nested id := (h'.nested id).trans (h.nested id)

theorem toExtends (h : d.Alike d') : d.Extends d' where
  extent := h.extent ▸ Extent.le_refl _
  typeNames := h.typeNames ▸ List.prefix_rfl
  heading x _ := h.heading x
  nested id _ := h.nested id

theorem packageOf?_eq (h : d.Alike d') (t : DataType) : d'.packageOf? t = d.packageOf? t := by
  cases t <;> simp only [packageOf?, package?, h.heading]

theorem typesNamed_eq (h : d.Alike d') (name : String) :
    d'.typesNamed name = d.typesNamed name := by
  rw [typesNamed, h.typeNames, typesNamed]

theorem findNested?_eq (h : d.Alike d') (owner : StructureId) (name : String) :
    d'.findNested? owner name = d.findNested? owner name := by
  simp only [findNested?, h.nested, name?, h.heading]

theorem findUnqualified?_eq (h : d.Alike d') (package : Option Package)
    (scope : Option StructureId) (name : String) :
    d'.findUnqualified? package scope name = d.findUnqualified? package scope name := by
  simp only [findUnqualified?, h.findNested?_eq, h.typesNamed_eq, h.packageOf?_eq]

theorem findBehind?_eq (h : d.Alike d') (package : Option Package) (path : List String)
    (scope : Option StructureId) (name : String) :
    d'.findBehind? package scope name path = d.findBehind? package scope name path := by
  induction path generalizing scope name with
  | nil => exact h.findUnqualified?_eq package scope name
  | cons outer more ih =>
    simp only [findBehind?, ih, h.findNested?_eq, h.typesNamed_eq, h.packageOf?_eq]

theorem find?_eq (h : d.Alike d') (b : Binding) : b.find? d' = b.find? d :=
  h.findBehind?_eq _ _ _ _

end Alike

theorem alike_fill (d : Document) (slot : Slot) (t : DataType) : d.Alike (d.fill slot t) where
  extent := d.extent_fill slot t
  typeNames := by cases slot <;> rfl
  heading x := by
    cases slot <;> cases x <;>
      simp only [heading?, fill, modifyStructure, modifyEnumeration, modifyIdentifier,
        modifySpecimen, modifyFactory, modifyTemplate, modifyInterface, Arena.get?_modify]
    all_goals
      split
      · simp only [Option.map_map]
        rfl
      · rfl
  nested id := by
    have hu := congrArg (Option.map Structure.nestedEnumerations) (d.resembles_fill slot t id)
    simpa only [Option.map_map, Function.comp_def, Structure.nestedEnumerations_untyped] using hu

theorem extends_register (d : Document) (x : Declaration) : d.Extends (d.register x) where
  extent := Extent.le_refl _
  typeNames := by
    unfold register
    simp only
    split
    · exact List.prefix_append _ _
    · exact List.prefix_rfl
  heading y _ := by cases y <;> rfl
  nested _ _ := rfl

theorem alike_note (d : Document) (imports : List Import) (package : Option Package) :
    d.Alike (d.note imports package) :=
  ⟨rfl, rfl, fun x => by cases x <;> rfl, fun _ => rfl⟩

theorem AgreeBelow.heading?_eq {e : Extent} (h : AgreeBelow e d d') {x : Declaration}
    (hx : x.Below e) : d'.heading? x = d.heading? x := by
  cases x with
  | struct id => rw [heading?, heading?, h.structure_eq hx]
  | enum id => rw [heading?, heading?, h.enumeration_eq hx]
  | identifier id => rw [heading?, heading?, h.identifier_eq hx]
  | specimen id => rw [heading?, heading?, h.specimen_eq hx]
  | interface id => rw [heading?, heading?, h.interface_eq hx]
  | factory id => rw [heading?, heading?, h.factory_eq hx]

theorem AgreeBelow.toExtends (h : AgreeBelow d.extent d d') (he : d.extent ≤ d'.extent) :
    d.Extends d' where
  extent := he
  typeNames := h.typeNames_eq ▸ List.prefix_rfl
  heading x hx := h.heading?_eq hx
  nested id hid := by rw [h.structure_eq hid]

theorem packageOf?_congr {e : Extent}
    (h : ∀ x : Declaration, x.Below e → d'.heading? x = d.heading? x) {t : DataType}
    (ht : t.Below e) : d'.packageOf? t = d.packageOf? t := by
  cases t with
  | builtin b => rfl
  | template id => rfl
  | struct id => exact congrArg (·.bind Heading.package) (h (.struct id) ht)
  | enum id => exact congrArg (·.bind Heading.package) (h (.enum id) ht)
  | identifier id => exact congrArg (·.bind Heading.package) (h (.identifier id) ht)
  | specimen id => exact congrArg (·.bind Heading.package) (h (.specimen id) ht)

/-- As long as the headings stay, a registered type is found by its name and its package. -/
theorem Linked.find?_typesNamed_congr (hd : d.Linked)
    (h : ∀ x : Declaration, x.Below d.extent → d'.heading? x = d.heading? x)
    (p : Option Package → Bool) (name : String) :
    ((d.typesNamed name).find? fun t => p (d'.packageOf? t)) =
      (d.typesNamed name).find? fun t => p (d.packageOf? t) := by
  refine List.find?_congr fun t ht => ?_
  rw [packageOf?_congr h (hd.below_of_isListed (isListed_of_mem_typesNamed ht))]

namespace Extends

theorem refl (d : Document) : d.Extends d :=
  (Alike.refl d).toExtends

theorem trans (h : d.Extends d') (h' : d'.Extends d'') : d.Extends d'' where
  extent := Extent.le_trans h.extent h'.extent
  typeNames := h.typeNames.trans h'.typeNames
  heading x hx := by
    have hle := h.extent
    rw [Extent.le_iff] at hle
    have hx' : x.Below d'.extent := by
      cases x <;> simp only [Declaration.Below] at * <;> omega
    exact (h'.heading x hx').trans (h.heading x hx)
  nested id hid := (h'.nested id (Nat.lt_of_lt_of_le hid h.extent.1)).trans (h.nested id hid)

theorem packageOf?_eq (h : d.Extends d') {t : DataType} (ht : t.Below d.extent) :
    d'.packageOf? t = d.packageOf? t :=
  packageOf?_congr h.heading ht

theorem findNested?_eq (h : d.Extends d') (hd : d.Linked) {owner : StructureId}
    (ho : owner.index < d.structures.size) (name : String) :
    d'.findNested? owner name = d.findNested? owner name := by
  rw [findNested?, findNested?, h.nested owner ho]
  refine List.find?_congr fun id hid => ?_
  have hnested : d.IsNested id := by
    cases hs : d.structures.get? owner with
    | none => simp [hs] at hid
    | some s => exact ⟨owner, s, hs, by simpa [hs] using hid⟩
  rw [name?, name?, h.heading (.enum id) (hd.below_of_isNested hnested)]

theorem typesNamed_prefix (h : d.Extends d') (name : String) :
    d.typesNamed name <+: d'.typesNamed name :=
  h.typeNames.filterMap _

end Extends

/-- The first type of the name in a package. -/
def findOwn? (d : Document) (package : Option Package) (name : String) : Option DataType :=
  (d.typesNamed name).find? fun t => Package.same (d.packageOf? t) package

theorem Extends.findOwn?_eq_some (h : d.Extends d') (hd : d.Linked) {package : Option Package}
    {name : String} {t : DataType} (ht : d.findOwn? package name = some t) :
    d'.findOwn? package name = some t := by
  refine (h.typesNamed_prefix name).find?_eq_some ?_
  rw [← ht]
  exact hd.find?_typesNamed_congr h.heading (Package.same · package) name

/-- A declaration is the last of its name. -/
theorem find?_typesNamed_register {x : Declaration} {t : DataType} (hx : x.type? = some t)
    (p : Option Package → Bool) (name : String) :
    ((d.register x).typesNamed name).find? (fun u => p ((d.register x).packageOf? u)) =
      ((d.typesNamed name).find? fun u => p (d.packageOf? u)).or
        (if d.nameText x = name ∧ p (d.packageOf? t) = true then some t else none) := by
  have htypes : (d.register x).typesNamed name =
      d.typesNamed name ++ (if d.nameText x = name then [t] else []) := by
    simp only [typesNamed, register, hx, List.filterMap_append]
    by_cases hname : d.nameText x = name <;> simp [hname]
  have hpackage (u : DataType) : (d.register x).packageOf? u = d.packageOf? u := by cases u <;> rfl
  rw [htypes, List.find?_append]
  simp only [hpackage]
  by_cases hname : d.nameText x = name
  · by_cases hp : p (d.packageOf? t) = true <;> simp [hname, hp]
  · simp [hname]

end Document

/-- An unqualified name that is neither a builtin nor registered. -/
def TypeName.Unknown (names : List (String × DataType)) (name : TypeName) : Prop :=
  name.path = [] → Builtin.ofKeyword? name.last.text = none ∧
    ∀ entry ∈ names, entry.1 ≠ name.last.text

theorem Document.typesNamed_eq_nil_iff {d : Document} {name : String} :
    d.typesNamed name = [] ↔ ∀ entry ∈ d.typeNames, entry.1 ≠ name := by
  rw [typesNamed, List.filterMap_eq_nil_iff]
  refine forall₂_congr fun entry _ => ?_
  by_cases h : entry.1 = name <;> simp [h]

theorem TypeName.unknown_of_find? {d : Document} {package : Option Package}
    {scope : Option StructureId} {name : TypeName}
    (h : d.findType? package name.path scope name.last.text = none) : name.Unknown d.typeNames := by
  intro hpath
  rw [hpath, Document.findType?, List.reverse_nil, Document.findBehind?,
    Document.findUnqualified?] at h
  split at h
  · cases h
  · rename_i hbuiltin
    split at h
    · cases h
    · refine ⟨hbuiltin, Document.typesNamed_eq_nil_iff.1 ?_⟩
      exact List.head?_eq_none_iff.1 (Option.or_eq_none_iff.1 h).2

namespace Binding

open Document

variable {d d' : Document} {b : Binding} {t : DataType}

/-- The nested enumeration that the name means in its structure. -/
def nested? (b : Binding) (d : Document) : Option EnumerationId :=
  b.scope.bind (d.findNested? · b.name.last.text)

/-- The first type of the name in the package in which it was written. -/
def own? (b : Binding) (d : Document) : Option DataType :=
  d.findOwn? b.package b.name.last.text

/-- The name means neither a builtin nor an enumeration that is nested in its structure. -/
structure Outer (b : Binding) (d : Document) : Prop where
  builtin : Builtin.ofKeyword? b.name.last.text = none
  nested : b.nested? d = none

/-- The name means a type, whatever else is declared. -/
inductive Settles (b : Binding) (d : Document) (t : DataType) : Prop where
  | nested {id : EnumerationId} (hb : Builtin.ofKeyword? b.name.last.text = none)
      (h : b.nested? d = some id) (ht : t = .enum id)
  | own (ho : b.Outer d) (h : b.own? d = some t)

theorem find?_of_outer (hp : b.name.path = []) (h : b.Outer d) :
    b.find? d = (b.own? d).or (d.typesNamed b.name.last.text).head? := by
  have hn : b.scope.bind (d.findNested? · b.name.last.text) = none := h.nested
  rw [find?, findType?, hp, List.reverse_nil, findBehind?, findUnqualified?, h.builtin]
  simp only [hn]
  rfl

/-- Of the types of the name one in its own package is taken, if there is one. -/
theorem filter_or_eq_own? (hp : b.name.path = []) :
    (((b.own? d).or (d.typesNamed b.name.last.text).head?).filter fun t =>
      false || b.bindsEarly (d.packageOf? t)) = b.own? d := by
  have hearly (t : DataType) : b.bindsEarly (d.packageOf? t) =
      Package.same (d.packageOf? t) b.package := by
    simp [bindsEarly, hp, Package.same_comm b.package]
  simp only [hearly, Bool.false_or]
  cases hown : b.own? d with
  | some t =>
    have hsame := List.find?_some hown
    rw [Option.some_or, Option.filter_some, if_pos hsame]
  | none =>
    rw [Option.none_or, Option.filter_eq_none_iff]
    intro t ht
    have hnone := List.find?_eq_none.1 hown t (List.mem_of_mem_head? ht)
    exact hnone

theorem Settles.find?_eq (h : b.Settles d t) (hp : b.name.path = []) : b.find? d = some t := by
  cases h with
  | nested hb h ht =>
    have hn : b.scope.bind (d.findNested? · b.name.last.text) = some _ := h
    rw [find?, findType?, hp, List.reverse_nil, findBehind?, findUnqualified?, hb]
    simp only [hn, ht]
  | own ho h => rw [find?_of_outer hp ho, h, Option.some_or]

/-- What was unknown when it was read means nothing yet. -/
theorem own?_of_unknown (hp : b.name.path = []) (h : b.name.Unknown d.typeNames) :
    b.own? d = none := by
  rw [own?, findOwn?, typesNamed_eq_nil_iff.2 (h hp).2]
  rfl

theorem own?_of_extends (h : d.Extends d') (hd : d.Linked) (ht : d'.typeNames = d.typeNames) :
    b.own? d' = b.own? d := by
  rw [own?, own?, findOwn?, findOwn?, typesNamed, ht, ← typesNamed]
  exact hd.find?_typesNamed_congr h.heading (Package.same · b.package) b.name.last.text

theorem nested?_of_extends (h : d.Extends d') (hd : d.Linked)
    (hs : ∀ id, b.scope = some id → id.index < d.structures.size) :
    b.nested? d' = b.nested? d := by
  unfold nested?
  cases hscope : b.scope with
  | none => rfl
  | some id => exact h.findNested?_eq hd (hs id hscope) _

theorem Outer.of_extends (ho : b.Outer d) (h : d.Extends d') (hd : d.Linked)
    (hs : ∀ id, b.scope = some id → id.index < d.structures.size) : b.Outer d' :=
  ⟨ho.builtin, (nested?_of_extends h hd hs).trans ho.nested⟩

theorem Settles.of_extends (ht : b.Settles d t) (h : d.Extends d') (hd : d.Linked)
    (hs : ∀ id, b.scope = some id → id.index < d.structures.size) : b.Settles d' t := by
  cases ht with
  | nested hb hn ht => exact .nested hb ((nested?_of_extends h hd hs).trans hn) ht
  | own ho hown => exact .own (ho.of_extends h hd hs) (h.findOwn?_eq_some hd hown)

theorem own?_register {x : Declaration} (hx : x.type? = some t) :
    b.own? (d.register x) = (b.own? d).or
      (if d.nameText x = b.name.last.text ∧ Package.same (d.packageOf? t) b.package = true then
        some t else none) :=
  find?_typesNamed_register hx (Package.same · b.package) b.name.last.text

end Binding

end Idl
