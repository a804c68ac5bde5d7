import Idl.Proofs.Document.Heading

/-!
The names of the registered types. They are kept beside the declarations, and always list the
types of these under their names, in the order of the declarations. So to look a type up there
is to go through the declarations.
-/

namespace Idl.Document

variable {d d' : Document}

/-- The names lead to the types of the registered declarations, in their order. -/
def Indexed (d : Document) : Prop :=
  d.typeNames = d.declarations.filterMap fun x => x.type?.map (d.nameText x, ·)

theorem nameText_congr {x : Declaration} (h : d'.heading? x = d.heading? x) :
    d'.nameText x = d.nameText x := by
  rw [nameText, name?, h, nameText, name?]

theorem packageOf?_of_type? {x : Declaration} {t : DataType} (h : x.type? = some t) :
    d.packageOf? t = d.package? x := by
  cases x <;> cases h <;> rfl

namespace Indexed

theorem congr (h : d.Indexed) (hx : d'.declarations = d.declarations)
    (ht : d'.typeNames = d.typeNames)
    (hh : ∀ x ∈ d.declarations, d'.heading? x = d.heading? x) : d'.Indexed := by
  rw [Indexed, ht, hx, show d.typeNames = _ from h]
  refine List.filterMap_congr fun x hmem => ?_
  rw [nameText_congr (hh x hmem)]

theorem alike (h : d.Indexed) (ha : d.Alike d') (hx : d'.declarations = d.declarations) :
    d'.Indexed :=
  h.congr hx ha.typeNames fun x _ => ha.heading x

/-- What is added above the extent is not registered. -/
theorem agree (h : d.Indexed) (hd : d.Linked) (ha : AgreeBelow d.extent d d') : d'.Indexed :=
  h.congr ha.declarations_eq ha.typeNames_eq fun x hx => ha.heading?_eq (hd.declarations x hx)

theorem register (h : d.Indexed) (x : Declaration) : (d.register x).Indexed := by
  have hname (y : Declaration) : (d.register x).nameText y = d.nameText y :=
    nameText_congr (heading?_register y x)
  simp only [Indexed, hname]
  simp only [Document.register, List.filterMap_append, show d.typeNames = _ from h]
  cases ht : x.type? with
  | none => simp [ht]
  | some t => simp [ht]

/-- A type is withdrawn from the names together with its declaration. -/
theorem withdraw (h : d.Indexed) (x : Declaration) : (d.withdraw x).Indexed := by
  have hname (y : Declaration) : (d.withdraw x).nameText y = d.nameText y :=
    nameText_congr (heading?_withdraw y x)
  simp only [Indexed, hname]
  simp only [Document.withdraw, show d.typeNames = _ from h, List.filter_filterMap,
    List.filterMap_filter]
  refine List.filterMap_congr fun y _ => ?_
  cases ht : y.type? with
  | none => simp
  | some t =>
    have hsame : some t = x.type? ↔ y = x := by
      refine ⟨fun hx => Declaration.eq_of_type? ht hx.symm, ?_⟩
      rintro rfl
      exact ht.symm
    by_cases hy : y = x <;> simp [hy, hsame]

theorem sheds (h : d.Indexed) (hs : d.Sheds d') : d'.Indexed := by
  induction hs with
  | refl => exact h
  | dropDefault f _ ih =>
    exact ih.congr rfl rfl fun x _ => heading?_modifyStructure x fun _ => rfl
  | withdraw x _ ih => exact ih.withdraw x

theorem bind {s : Session} (h : s.document.Indexed) (checks : List Check) (b : Binding)
    (t : DataType) : (s.bind checks b t).document.Indexed :=
  (h.alike (s.document.alike_fill b.slot t) (s.document.declarations_fill b.slot t)).sheds
    (s.sheds_bind checks b t)

end Indexed

/-- The type of the first registered declaration of a name whose package is one of those asked
for. -/
def firstNamed? (d : Document) (name : String) (p : Option Package → Bool) : Option DataType :=
  d.declarations.findSome? fun x =>
    if (d.heading? x).any fun h => h.name.value == name && p h.package then x.type? else none

/-- The first enumeration of a name among the members of a structure. -/
def firstNested? (d : Document) (owner : StructureId) (name : String) : Option DataType :=
  (d.structures.get? owner).bind fun s => s.members.findSome? fun
    | .enumeration id =>
      if (d.enumerations.get? id).any (·.name.value == name) then some (.enum id) else none
    | _ => none

theorem findNested?_eq_firstNested? (d : Document) (owner : StructureId) (name : String) :
    (d.findNested? owner name).map .enum = d.firstNested? owner name := by
  rw [findNested?, firstNested?]
  cases d.structures.get? owner with
  | none => rfl
  | some s =>
    rw [Option.map_some, Option.getD_some, Option.bind_some, Structure.nestedEnumerations]
    induction s.members with
    | nil => rfl
    | cons m rest ih =>
      cases m with
      | enumeration id =>
        have hname : (d.name? (.enum id)).any (·.value == name) =
            (d.enumerations.get? id).any (·.name.value == name) := by
          rw [name?, heading?, Option.map_map, Option.any_map]
          rfl
        have hfirst : (Member.enumeration id :: rest).filterMap Member.enumeration? =
            id :: rest.filterMap Member.enumeration? := rfl
        rw [hfirst, List.find?_cons, List.findSome?_cons, hname, ← ih]
        dsimp only
        cases (d.enumerations.get? id).any (·.name.value == name) <;> rfl
      | _ => exact ih

/-- The names and the declarations lead to the same type. -/
theorem Indexed.find?_typesNamed (h : d.Indexed) (hd : d.Linked) (name : String)
    (p : Option Package → Bool) :
    ((d.typesNamed name).find? fun t => p (d.packageOf? t)) = d.firstNamed? name p := by
  have scan (declarations : List Declaration) (hx : ∀ x ∈ declarations, x.Below d.extent) :
      (((declarations.filterMap fun x => x.type?.map (d.nameText x, ·)).filterMap fun entry =>
        if entry.1 == name then some entry.2 else none).find? fun t => p (d.packageOf? t)) =
      declarations.findSome? fun x =>
        if (d.heading? x).any fun h => h.name.value == name && p h.package then x.type?
        else none := by
    induction declarations with
    | nil => rfl
    | cons x rest ih =>
      obtain ⟨heading, hheading⟩ := exists_heading (hx x List.mem_cons_self)
      have hname : d.nameText x = heading.name.value := by rw [nameText, name?, hheading]; rfl
      have hpackage : d.package? x = heading.package := by rw [package?, hheading]; rfl
      rw [List.findSome?_cons, ← ih fun y hy => hx y (List.mem_cons_of_mem _ hy), hheading,
        Option.any_some]
      cases ht : x.type? with
      | none => simp only [List.filterMap_cons, ht, Option.map_none, ite_self]
      | some t =>
        simp only [List.filterMap_cons, ht, Option.map_some, hname]
        cases heading.name.value == name with
        | false => simp only [Bool.false_and, Bool.false_eq_true, if_false]
        | true =>
          simp only [if_true, List.find?_cons, packageOf?_of_type? ht, hpackage, Bool.true_and]
          cases p heading.package <;> rfl
  rw [typesNamed, show d.typeNames = _ from h]
  exact scan d.declarations hd.declarations

section Lookup

variable (h : d.Indexed) (hd : d.Linked) (package : Option Package)
  (scope : Option StructureId) (name : String)

include h hd

/-- A name without a path means a builtin, a nested enumeration of the structure it is used in,
the first type of its own package, or the first type of any package. -/
theorem Indexed.findType?_nil : d.findType? package [] scope name =
    ((Builtin.all.find? (·.keyword == name)).map .builtin).or
      ((scope.bind (d.firstNested? · name)).or
        ((d.firstNamed? name fun other =>
          other.map (·.full.map (·.value)) == package.map (·.full.map (·.value))).or
          (d.firstNamed? name fun _ => true))) := by
  have hsame (other : Option Package) : Package.same other package =
      (other.map (·.full.map (·.value)) == package.map (·.full.map (·.value))) :=
    Bool.eq_iff_iff.2 ((Package.same_iff other package).trans beq_iff_eq.symm)
  have hhead : (d.typesNamed name).head? = d.firstNamed? name fun _ => true := by
    rw [← h.find?_typesNamed hd]
    cases d.typesNamed name <;> rfl
  have hnested : (scope.bind (d.findNested? · name)).map .enum =
      scope.bind (d.firstNested? · name) := by
    simp only [← findNested?_eq_firstNested?, Option.map_bind, Function.comp_def]
  rw [← hnested]
  simp only [← hsame]
  simp only [findType?, List.reverse_nil, findBehind?, findUnqualified?,
    h.find?_typesNamed hd name (Package.same · package), hhead, Builtin.ofKeyword?]
  cases Builtin.all.find? (·.keyword == name) with
  | some b => rfl
  | none => cases scope.bind (d.findNested? · name) <;> rfl

/-- A name behind a path means the first type of a package that the path names, or a nested
enumeration of the structure that the last segment means behind the others. -/
theorem Indexed.findType?_concat (path : List String) (outer : String) :
    d.findType? package (path ++ [outer]) scope name =
      (d.firstNamed? name (·.any fun p => p.short.map (·.value) == path ++ [outer] ||
        p.full.map (·.value) == path ++ [outer])).or
        (match d.findType? package path none outer with
        | some (.struct owner) => d.firstNested? owner name
        | _ => none) := by
  have hpath : (outer :: path.reverse).reverse = path ++ [outer] := by simp
  have hfirst := h.find?_typesNamed hd name (·.any (·.isNamed (path ++ [outer])))
  have hreverse : (path ++ [outer]).reverse = outer :: path.reverse := by simp
  simp only [← findNested?_eq_firstNested?]
  rw [findType?, hreverse, findBehind?, hpath]
  exact congrArg (Option.or · _) hfirst

end Lookup

end Idl.Document
