import Mathlib.Data.List.Nodup
import Mathlib.Logic.Function.Basic
import Idl.Proofs.Check.Standard
import Idl.Proofs.Document.Member

/-!
Combined fields and the search for a field by its name. One is put together from the root of a
chain of bases, the other goes towards it; where the names along the chain are distinct and each
member speaks of the field its name leads to, both agree, whatever is overridden or altered on
the way. A member at a time keeps them in agreement, hence a structure, hence the chain.
-/

namespace Idl

namespace Alter

/-- The last of some alters that is one of the field. -/
def last? (alters : List Alter) (field : FieldRef) : Option Alter :=
  (alters.filter (·.field == field)).getLast?

theorem last?_eq_none {alters : List Alter} {field : FieldRef}
    (h : ∀ a ∈ alters, a.field ≠ field) : last? alters field = none := by
  have hnone : alters.filter (·.field == field) = [] :=
    List.filter_eq_nil_iff.2 fun a ha => by simpa using h a ha
  rw [last?, hnone, List.getLast?_nil]

theorem last?_concat (alters : List Alter) (a : Alter) (field : FieldRef) :
    last? (alters ++ [a]) field = if a.field = field then some a else last? alters field := by
  rw [last?, List.filter_append]
  by_cases h : a.field = field <;> simp [h, last?]

end Alter

/-- The name of a field that takes no other field's place. -/
def Member.plainName? : Member → Option String
  | .field f => some f.name.value
  | _ => none

namespace Document

namespace CombinedField

variable {l : List CombinedField} {owner : FieldRef}

/-- Where no field is listed twice, the first entry of an owner is the only one. -/
theorem setDefault_eq_map (hl : (l.map CombinedField.owner).Nodup) (default : Default) :
    setDefault owner default l =
      l.map fun c => if c.owner = owner then { c with default := some default } else c := by
  induction l with
  | nil => rfl
  | cons c rest ih =>
    rw [List.map_cons, List.nodup_cons] at hl
    rw [setDefault, List.map_cons]
    by_cases h : c.owner = owner
    · have hrest (x : CombinedField) (hx : x ∈ rest) : x.owner ≠ owner := by
        rintro rfl
        exact hl.1 (h ▸ List.mem_map_of_mem hx)
      rw [if_pos (by simpa using h), if_pos h,
        List.map_congr_left fun x hx => if_neg (hrest x hx), List.map_id']
    · rw [if_neg (by simpa using h), if_neg h, ih hl.2]

theorem replace_eq_map (hl : (l.map CombinedField.owner).Nodup)
    (hm : owner ∈ l.map CombinedField.owner) (entry : CombinedField) :
    replace owner entry l = l.map fun c => if c.owner = owner then entry else c := by
  induction l with
  | nil => cases hm
  | cons c rest ih =>
    rw [List.map_cons, List.nodup_cons] at hl
    rw [replace, List.map_cons]
    by_cases h : c.owner = owner
    · have hrest (x : CombinedField) (hx : x ∈ rest) : x.owner ≠ owner := by
        rintro rfl
        exact hl.1 (h ▸ List.mem_map_of_mem hx)
      rw [if_pos (by simpa using h), if_pos h,
        List.map_congr_left fun x hx => if_neg (hrest x hx), List.map_id']
    · have hmem : owner ∈ rest.map CombinedField.owner :=
        (List.mem_cons.1 hm).resolve_left fun ho => h ho.symm
      rw [if_neg (by simpa using h), if_neg h, ih hl.2 hmem]

end CombinedField

/-- The list of combined fields has these names in this order, each found where the search for
it ends, and each with the default that the last alter of it has given it. -/
structure Agrees (d : Document) (names : List String) (find : String → Option FieldRef)
    (alters : List Alter) (combined : List CombinedField) : Prop where
  listed : combined.map (·.field.name.value) = names
  distinct : names.Nodup
  found : ∀ name, (find name).isSome → name ∈ names
  owner : ∀ c ∈ combined, find c.field.name.value = some c.owner
  field : ∀ c ∈ combined, d.field? c.owner = some c.field
  default : ∀ c ∈ combined,
    c.default = ((Alter.last? alters c.owner).map Alter.default).or c.field.default

namespace Agrees

variable {d : Document} {names : List String} {find : String → Option FieldRef}
  {alters : List Alter} {combined : List CombinedField}

theorem empty (d : Document) : d.Agrees [] (fun _ => none) [] [] := by
  refine ⟨rfl, List.nodup_nil, ?_, ?_, ?_, ?_⟩ <;> simp

theorem exists_of_find (h : d.Agrees names find alters combined) {name : String} {f : FieldRef}
    (hf : find name = some f) : ∃ c ∈ combined, c.field.name.value = name ∧ c.owner = f := by
  have hname : name ∈ combined.map (·.field.name.value) :=
    h.listed ▸ h.found name (hf ▸ rfl)
  obtain ⟨c, hc, rfl⟩ := List.mem_map.1 hname
  exact ⟨c, hc, rfl, Option.some.inj ((h.owner c hc).symm.trans hf)⟩

theorem owners_nodup (h : d.Agrees names find alters combined) :
    (combined.map CombinedField.owner).Nodup := by
  have hnames : (combined.map (·.field.name.value)) = (combined.map CombinedField.owner).map
      fun f => ((d.field? f).map (·.name.value)).getD "" := by
    rw [List.map_map]
    refine List.map_congr_left fun c hc => ?_
    simp [h.field c hc]
  have hdistinct := h.distinct
  rw [← h.listed, hnames] at hdistinct
  exact hdistinct.of_map

/-- A field of a new name comes behind all others. -/
theorem append (h : d.Agrees names find alters combined) {f : Field} {own : FieldRef}
    (hnew : find f.name.value = none) (hfield : d.field? own = some f)
    (halters : ∀ a ∈ alters, a.field ≠ own) :
    d.Agrees (names ++ [f.name.value]) (Function.update find f.name.value (some own)) alters
      (combined ++ [⟨f, own, f.default⟩]) := by
  have hother (c : CombinedField) (hc : c ∈ combined) : c.field.name.value ≠ f.name.value := by
    intro hn
    have ho := h.owner c hc
    rw [hn, hnew] at ho
    cases ho
  refine ⟨by simp [h.listed], ?_, fun name hname => ?_, fun c hc => ?_, fun c hc => ?_,
    fun c hc => ?_⟩
  · refine List.nodup_append.2 ⟨h.distinct, List.nodup_singleton _, fun a ha b hb hab => ?_⟩
    rw [← h.listed] at ha
    obtain ⟨c, hc, rfl⟩ := List.mem_map.1 ha
    exact hother c hc (hab.trans (List.mem_singleton.1 hb))
  · by_cases hn : name = f.name.value
    · exact List.mem_append_right _ (List.mem_singleton.2 hn)
    · rw [Function.update_of_ne hn] at hname
      exact List.mem_append_left _ (h.found name hname)
  · rcases List.mem_append.1 hc with hc | hc
    · rw [Function.update_of_ne (hother c hc)]
      exact h.owner c hc
    · rw [List.mem_singleton.1 hc]
      exact Function.update_self ..
  · rcases List.mem_append.1 hc with hc | hc
    · exact h.field c hc
    · rw [List.mem_singleton.1 hc]
      exact hfield
  · rcases List.mem_append.1 hc with hc | hc
    · exact h.default c hc
    · rw [List.mem_singleton.1 hc, Alter.last?_eq_none halters]
      rfl

/-- An overriding field takes the place of the one that its name led to. -/
theorem override (h : d.Agrees names find alters combined) {f : Field} {own overridden : FieldRef}
    (hold : find f.name.value = some overridden) (hfield : d.field? own = some f)
    (halters : ∀ a ∈ alters, a.field ≠ own) :
    d.Agrees names (Function.update find f.name.value (some own)) alters
      (CombinedField.replace overridden ⟨f, own, f.default⟩ combined) := by
  obtain ⟨c₀, hc₀, hname₀, howner₀⟩ := h.exists_of_find hold
  have hname (c : CombinedField) (hc : c ∈ combined) :
      c.field.name.value = f.name.value ↔ c.owner = overridden := by
    constructor
    · intro hn
      have ho := h.owner c hc
      rw [hn, hold] at ho
      exact (Option.some.inj ho).symm
    · intro ho
      have hf := h.field c hc
      rw [ho, ← howner₀, h.field c₀ hc₀] at hf
      rw [← Option.some.inj hf, hname₀]
  rw [CombinedField.replace_eq_map h.owners_nodup (List.mem_map.2 ⟨c₀, hc₀, howner₀⟩)]
  refine ⟨?_, h.distinct, fun name hn => ?_, fun c hc => ?_, fun c hc => ?_, fun c hc => ?_⟩
  · rw [← h.listed, List.map_map]
    refine List.map_congr_left fun c hc => ?_
    simp only [Function.comp_apply]
    split
    · rename_i ho
      exact ((hname c hc).2 ho).symm
    · rfl
  · by_cases heq : name = f.name.value
    · exact h.found name (heq ▸ hold ▸ rfl)
    · rw [Function.update_of_ne heq] at hn
      exact h.found name hn
  all_goals
    obtain ⟨c₁, hc₁, rfl⟩ := List.mem_map.1 hc
    split
  · exact Function.update_self ..
  · rename_i ho
    rw [Function.update_of_ne (mt (hname c₁ hc₁).1 ho)]
    exact h.owner c₁ hc₁
  · exact hfield
  · exact h.field c₁ hc₁
  · rw [Alter.last?_eq_none halters]
    rfl
  · exact h.default c₁ hc₁

/-- An alter gives its field another default. -/
theorem alter (h : d.Agrees names find alters combined) (a : Alter) :
    d.Agrees names find (alters ++ [a])
      (CombinedField.setDefault a.field a.default combined) := by
  rw [CombinedField.setDefault_eq_map h.owners_nodup]
  refine ⟨?_, h.distinct, h.found, fun c hc => ?_, fun c hc => ?_, fun c hc => ?_⟩
  · rw [← h.listed, List.map_map]
    refine List.map_congr_left fun c _ => ?_
    simp only [Function.comp_apply]
    split <;> rfl
  all_goals
    obtain ⟨c₁, hc₁, rfl⟩ := List.mem_map.1 hc
    split
  · exact h.owner c₁ hc₁
  · exact h.owner c₁ hc₁
  · exact h.field c₁ hc₁
  · exact h.field c₁ hc₁
  · rename_i ho
    rw [Alter.last?_concat, if_pos ho.symm]
    rfl
  · rename_i ho
    rw [Alter.last?_concat, if_neg (Ne.symm ho)]
    exact h.default c₁ hc₁

end Agrees

/-- The search for a field by its name when some members of a structure have been added. -/
def overlay (id : StructureId) (find : String → Option FieldRef) :
    List (Member × Nat) → String → Option FieldRef
  | [] => find
  | (m, position) :: rest =>
    overlay id
      (match m.field? with
      | some f => Function.update find f.name.value (some ⟨id, position⟩)
      | none => find) rest

def numberedFields (members : List (Member × Nat)) : List (Nat × Field) :=
  members.filterMap fun (m, position) => m.field?.map (position, ·)

/-- Each member stands where the document says, under a name of its own, and speaks of the field
its name leads to. -/
structure Adjoins (d : Document) (id : StructureId) (find : String → Option FieldRef)
    (members : List (Member × Nat)) : Prop where
  distinct : ((numberedFields members).map (·.2.name.value)).Nodup
  fields : ∀ x ∈ numberedFields members, d.field? ⟨id, x.1⟩ = some x.2
  plain : ∀ f position, (.field f, position) ∈ members → find f.name.value = none
  override : ∀ f overridden position, (.override f overridden, position) ∈ members →
    find f.name.value = some overridden
  alter : ∀ a position, (.alter a, position) ∈ members → a.field.owner ≠ id

theorem numberedFields_cons (m : Member) (position : Nat) (rest : List (Member × Nat)) :
    numberedFields ((m, position) :: rest) =
      (m.field?.map (position, ·)).toList ++ numberedFields rest := by
  cases h : m.field? <;> simp [numberedFields, h]

namespace Adjoins

variable {d : Document} {id : StructureId} {find : String → Option FieldRef} {m : Member}
  {position : Nat} {rest : List (Member × Nat)}

theorem tail (h : d.Adjoins id find ((m, position) :: rest)) (hm : m.field? = none) :
    d.Adjoins id find rest := by
  have hrest : numberedFields ((m, position) :: rest) = numberedFields rest := by
    simp [numberedFields_cons, hm]
  refine ⟨hrest ▸ h.distinct, hrest ▸ h.fields, fun f p hf => ?_, fun f o p hf => ?_,
    fun a p ha => ?_⟩
  · exact h.plain f p (List.mem_cons_of_mem _ hf)
  · exact h.override f o p (List.mem_cons_of_mem _ hf)
  · exact h.alter a p (List.mem_cons_of_mem _ ha)

/-- A field leads its own name to itself, and no other name of a member that follows. -/
theorem tail_update (h : d.Adjoins id find ((m, position) :: rest)) {f : Field}
    (hm : m.field? = some f) :
    d.Adjoins id (Function.update find f.name.value (some ⟨id, position⟩)) rest := by
  have hcons : numberedFields ((m, position) :: rest) = (position, f) :: numberedFields rest := by
    simp [numberedFields_cons, hm]
  have hdistinct := h.distinct
  rw [hcons, List.map_cons, List.nodup_cons] at hdistinct
  have hother {g : Field} {m' : Member} {p : Nat} (hmem : (m', p) ∈ rest)
      (hg : m'.field? = some g) : g.name.value ≠ f.name.value := by
    intro hn
    refine hdistinct.1 (hn ▸ List.mem_map.2 ⟨(p, g), ?_, rfl⟩)
    exact List.mem_filterMap.2 ⟨(m', p), hmem, by simp [hg]⟩
  refine ⟨hdistinct.2, fun x hx => ?_, fun g p hg => ?_, fun g o p hg => ?_, fun a p ha => ?_⟩
  · exact h.fields x (hcons ▸ List.mem_cons_of_mem _ hx)
  · rw [Function.update_of_ne (hother hg rfl)]
    exact h.plain g p (List.mem_cons_of_mem _ hg)
  · rw [Function.update_of_ne (hother hg rfl)]
    exact h.override g o p (List.mem_cons_of_mem _ hg)
  · exact h.alter a p (List.mem_cons_of_mem _ ha)

/-- With distinct names the search finds the only field of the name that was added, if there is
one. -/
theorem overlay_eq {members : List (Member × Nat)} (h : d.Adjoins id find members)
    (name : String) : overlay id find members name =
      (((numberedFields members).find? (·.2.name.value == name)).map
        fun x => (⟨id, x.1⟩ : FieldRef)).or (find name) := by
  induction members generalizing find with
  | nil => rfl
  | cons x rest ih =>
    obtain ⟨m, position⟩ := x
    rw [overlay]
    cases hm : m.field? with
    | none => simp only [ih (h.tail hm), numberedFields_cons, hm, Option.map_none,
        Option.toList_none, List.nil_append]
    | some f =>
      have hdistinct := h.distinct
      simp only [numberedFields_cons, hm, Option.map_some, Option.toList_some,
        List.cons_append, List.nil_append, List.map_cons, List.nodup_cons] at hdistinct ⊢
      rw [ih (h.tail_update hm), List.find?_cons]
      by_cases hn : f.name.value = name
      · have hnone : (numberedFields rest).find? (·.2.name.value == name) = none := by
          refine List.find?_eq_none.2 fun x hx => ?_
          simp only [beq_iff_eq, ← hn]
          exact fun hx' => hdistinct.1 (hx' ▸ List.mem_map_of_mem hx)
        simp [hnone, hn]
      · simp [beq_false_of_ne hn, Function.update_of_ne (Ne.symm hn)]

end Adjoins

/-- Members that adjoin to what is listed keep it in agreement. -/
theorem Agrees.members {d : Document} {id : StructureId} {find : String → Option FieldRef}
    {names : List String} {alters : List Alter} {combined : List CombinedField}
    {members : List (Member × Nat)} (h : d.Agrees names find alters combined)
    (hm : d.Adjoins id find members) (ha : ∀ a ∈ alters, a.field.owner ≠ id) :
    d.Agrees (names ++ members.filterMap (·.1.plainName?)) (overlay id find members)
      (alters ++ members.filterMap (·.1.alter?)) (members.foldl (combineMember id) combined) := by
  induction members generalizing names find alters combined with
  | nil => simpa [overlay] using h
  | cons x rest ih =>
    obtain ⟨m, position⟩ := x
    have hfresh (a : Alter) (hmem : a ∈ alters) : a.field ≠ ⟨id, position⟩ :=
      fun heq => ha a hmem (by rw [heq])
    have hfield (f : Field) (hf : m.field? = some f) : d.field? ⟨id, position⟩ = some f :=
      hm.fields (position, f) (List.mem_filterMap.2 ⟨_, List.mem_cons_self, by simp [hf]⟩)
    rw [List.foldl_cons, overlay]
    cases m with
    | field f =>
      have hnew := h.append (hm.plain f position List.mem_cons_self) (hfield f rfl) hfresh
      have hrest := ih hnew (hm.tail_update rfl) ha
      rw [← List.append_cons] at hrest
      exact hrest
    | override f overridden =>
      have hnew := h.override (hm.override f overridden position List.mem_cons_self)
        (hfield f rfl) hfresh
      exact ih hnew (hm.tail_update rfl) ha
    | alter a =>
      have hown : ∀ a' ∈ alters ++ [a], a'.field.owner ≠ id := by
        intro a' ha'
        rcases List.mem_append.1 ha' with ha' | ha'
        · exact ha a' ha'
        · rw [List.mem_singleton.1 ha']
          exact hm.alter a position List.mem_cons_self
      have hrest := ih (h.alter a) (hm.tail rfl) hown
      rw [← List.append_cons] at hrest
      exact hrest
    | enumeration _ | identification _ | upcopy _ | operator _ =>
      exact ih h (hm.tail rfl) ha

/-- The names of the fields along the bases that take no other field's place, those of the root
in front. -/
def plainNames (d : Document) (id : StructureId) : List String :=
  (d.lineage id).reverse.flatMap fun owner =>
    ((d.structures.get? owner).map Structure.plainNames).getD []

/-- The alters along the bases, those of the root in front. -/
def alters (d : Document) (id : StructureId) : List Alter :=
  (d.lineage id).reverse.flatMap fun owner =>
    ((d.structures.get? owner).map Structure.alters).getD []

/-- What each member of a structure says about a field of its base is right. -/
def Rooted (d : Document) : Prop :=
  d.structures.All fun _ x => ∀ m ∈ x.members, m.Rooted d x.base

section Chain

variable {d : Document} {id : StructureId} {x : Structure}

theorem owner_le_of_findField? {name : String} {f : FieldRef}
    (h : d.findField? id name = some f) : f.owner.index ≤ id.index := by
  obtain ⟨owner, ho, hf⟩ := List.exists_of_findSome?_eq_some h
  obtain ⟨position, _, rfl⟩ := Option.map_eq_some_iff.1 hf
  exact index_le_of_inherits (List.contains_iff_mem.2 ho)

/-- An alter in a structure is one of a field that stands before it. -/
theorem owner_lt_of_rooted (hd : d.Linked) (hx : d.structures.get? id = some x) {a : Alter}
    (ha : (Member.alter a).Rooted d x.base) : a.field.owner.index < id.index := by
  obtain ⟨b, hb, hf⟩ := ha
  exact Nat.lt_of_le_of_lt (owner_le_of_findField? hf) ((hd.structures id x hx).base b hb)

theorem owner_lt_of_mem_alters (hd : d.Linked) (hr : d.Rooted) {n : Nat}
    (hid : id.index < n) {a : Alter} (ha : a ∈ d.alters id) : a.field.owner.index < n := by
  obtain ⟨owner, ho, ha⟩ := List.mem_flatMap.1 ha
  have hle : owner.index ≤ id.index :=
    index_le_of_inherits (List.contains_iff_mem.2 (List.mem_reverse.1 ho))
  cases hx : d.structures.get? owner with
  | none => simp [hx] at ha
  | some x =>
    have ha : a ∈ x.alters := by simpa [hx] using ha
    have hlt := owner_lt_of_rooted hd hx (hr owner x hx _ (Structure.mem_alters.1 ha))
    omega

theorem members_zipIdx_filterMap {β : Type} (members : List Member) (g : Member → Option β)
    (n : Nat) : (members.zipIdx n).filterMap (fun y => g y.1) = members.filterMap g := by
  induction members generalizing n with
  | nil => rfl
  | cons m rest ih => simp only [List.zipIdx_cons, List.filterMap_cons, ih]

/-- The members of a structure adjoin to the fields of its base. -/
theorem adjoins_members (hd : d.Linked) (hx : d.structures.get? id = some x)
    (hdistinct : x.Distinct d) (hr : ∀ m ∈ x.members, m.Rooted d x.base) :
    d.Adjoins id (fun name => x.base.bind (d.findField? · name)) x.members.zipIdx := by
  have hmember {m : Member} {position : Nat} (h : (m, position) ∈ x.members.zipIdx) :
      m ∈ x.members :=
    List.mem_of_getElem? (List.mem_zipIdx_iff_getElem?.1 h)
  refine ⟨?_, fun y hy => ?_, fun f position hf => ?_, fun f overridden position hf => ?_,
    fun a position ha heq => ?_⟩
  · have hnames : (numberedFields x.members.zipIdx).map (·.2.name.value) = x.fieldNames := by
      rw [numberedFields, List.map_filterMap, Structure.fieldNames, List.map_filterMap,
        ← members_zipIdx_filterMap x.members _ 0]
      refine List.filterMap_congr fun y _ => ?_
      simp [Option.map_map, Function.comp_def]
    rw [hnames]
    exact hdistinct.fields
  · have hy' : (y.1, y.2) ∈ x.fields := hy
    rw [field?, hx, Option.bind_some]
    exact Structure.mem_fields_iff.1 hy'
  · cases hb : x.base with
    | none => rfl
    | some base =>
      exact hdistinct.plain _ (Structure.mem_plainNames_iff.2 ⟨f, hmember hf, rfl⟩) base hb
  · obtain ⟨b, hb, hfind⟩ := hr _ (hmember hf)
    simpa [hb] using hfind
  · have hlt := owner_lt_of_rooted hd hx (hr _ (hmember ha))
    rw [heq] at hlt
    exact Nat.lt_irrefl _ hlt

theorem findField?_of_base {name : String} (hd : d.Linked)
    (hx : d.structures.get? id = some x) : d.findField? id name =
      ((x.findField? name).map (FieldRef.mk id)).or (x.base.bind (d.findField? · name)) := by
  rw [findField?, lineage, List.findSome?_cons, hx, Option.bind_some]
  cases x.findField? name with
  | some position => rfl
  | none =>
    cases hb : x.base with
    | none => simp [ancestors, hx, hb]
    | some base =>
      have hbase : d.HasBase id base := by simp [HasBase, hx, hb]
      rw [hd.ancestors_of_hasBase hbase]
      rfl

/-- What a structure adds to the search along its bases is what its members add. -/
theorem findField?_eq_overlay (hd : d.Linked) (hx : d.structures.get? id = some x)
    (hdistinct : x.Distinct d) (hr : ∀ m ∈ x.members, m.Rooted d x.base) (name : String) :
    d.findField? id name =
      overlay id (fun name => x.base.bind (d.findField? · name)) x.members.zipIdx name := by
  rw [(adjoins_members hd hx hdistinct hr).overlay_eq, findField?_of_base hd hx,
    Structure.findField?, Option.map_map]
  rfl

/-- Along a chain of structures with distinct names the combined fields agree with the search
for a field. -/
theorem agrees_combinedFields (hd : d.Linked) (hr : d.Rooted)
    (hid : id.index < d.structures.size)
    (hdistinct : ∀ owner ∈ d.lineage id, d.NamesDistinct (.struct owner)) :
    d.Agrees (d.plainNames id) (d.findField? id) (d.alters id) (d.combinedFields id) := by
  induction hn : id.index using Nat.strongRecOn generalizing id with
  | ind n ih =>
    obtain ⟨x, hx⟩ := Option.isSome_iff_exists.1 ((d.structures.get?_isSome_iff id).2 hid)
    have hown := hdistinct id List.mem_cons_self x hx
    have hrooted := hr id x hx
    have hplain : (x.members.zipIdx.filterMap (·.1.plainName?)) = x.plainNames :=
      members_zipIdx_filterMap x.members Member.plainName? 0
    have halters : (x.members.zipIdx.filterMap (·.1.alter?)) = x.alters :=
      members_zipIdx_filterMap x.members Member.alter? 0
    have hadjoins := adjoins_members hd hx hown hrooted
    rw [show d.findField? id = _ from funext (findField?_eq_overlay hd hx hown hrooted)]
    cases hb : x.base with
    | none =>
      have hlineage : d.lineage id = [id] := by simp [lineage, ancestors, hx, hb]
      rw [hb] at hadjoins
      have hall := (Agrees.empty d).members hadjoins fun a ha => (by cases ha)
      rw [hplain, halters] at hall
      simpa [plainNames, alters, combinedFields, combineStructure, hlineage, hx] using hall
    | some base =>
      have hbase : d.HasBase id base := by simp [HasBase, hx, hb]
      have hlt := hd.index_lt_of_hasBase hbase
      have hlineage : d.lineage id = id :: d.lineage base := by
        rw [lineage, hd.ancestors_of_hasBase hbase, lineage]
      have hdistinct' (owner : StructureId) (ho : owner ∈ d.lineage base) :
          d.NamesDistinct (.struct owner) :=
        hdistinct owner (hlineage ▸ List.mem_cons_of_mem id ho)
      have hbefore := ih base.index (hn ▸ hlt) (Nat.lt_trans hlt hid) hdistinct' rfl
      rw [hb] at hadjoins
      have hall := hbefore.members hadjoins fun a ha heq => by
        have := owner_lt_of_mem_alters hd hr hlt ha
        rw [heq] at this
        exact Nat.lt_irrefl _ this
      rw [hplain, halters] at hall
      simpa [plainNames, alters, combinedFields, combineStructure, hlineage, hx] using hall

end Chain

end Document

end Idl
