import Idl.Proofs.Document.Write

/-!
What qualified names mean while a document is extended. A type that is found in the package that
the path names stays found. So does an enumeration that is nested in the structure to which the
path leads, but it may be overtaken: a type may turn up in the package that the path names, or
a nearer structure in the package in which the name was written.
-/

namespace Idl

namespace Document

variable {d d' : Document} {path : List String} {name : String} {t : DataType}

/-- The first type of the name in a package that the path names. -/
def findPackaged? (d : Document) (path : List String) (name : String) : Option DataType :=
  (d.typesNamed name).find? fun t => (d.packageOf? t).any (·.isNamed path)

theorem isListed_of_findPackaged? (h : d.findPackaged? path name = some t) : d.IsListed t :=
  isListed_of_mem_typesNamed (List.mem_of_find?_eq_some h)

theorem findPackaged?_register {x : Declaration} (hx : x.type? = some t) :
    (d.register x).findPackaged? path name = (d.findPackaged? path name).or
      (if d.nameText x = name ∧ (d.packageOf? t).any (·.isNamed path) = true then some t
        else none) :=
  find?_typesNamed_register hx (Option.any fun package => package.isNamed path) name

theorem Extends.findPackaged?_eq_some (h : d.Extends d') (hd : d.Linked)
    (ht : d.findPackaged? path name = some t) : d'.findPackaged? path name = some t := by
  refine (h.typesNamed_prefix name).find?_eq_some ?_
  rw [← ht]
  exact hd.find?_typesNamed_congr h.heading
    (Option.any fun package => package.isNamed path) name

theorem Remembers.findPackaged?_eq (h : d.Remembers d') (hd : d.Linked) (path : List String)
    (name : String) : d'.findPackaged? path name = d.findPackaged? path name := by
  rw [findPackaged?, findPackaged?, typesNamed, h.typeNames, ← typesNamed]
  exact hd.find?_typesNamed_congr h.heading
    (Option.any fun package => package.isNamed path) name

theorem Extends.remembers (h : d.Extends d') (ht : d'.typeNames = d.typeNames) :
    d.Remembers d' :=
  ⟨h.extent, ht, h.heading⟩

end Document

namespace Binding

open Document

variable {d d' : Document} {b : Binding} {t : DataType} {o : StructureId}

/-- The first type of the name in a package that its path names. -/
def packaged? (b : Binding) (d : Document) : Option DataType :=
  d.findPackaged? b.name.path b.name.last.text

/-- The path leads to a structure: to a type of the package that the rest of the path names, or,
of a single segment, to a type of the package in which the name was written or, failing that, to
the first type of another package. -/
inductive Leads (b : Binding) (d : Document) (o : StructureId) : Prop where
  | packaged {outer : String} {more : List String} (hp : b.name.path.reverse = outer :: more)
      (hm : more ≠ []) (h : d.findPackaged? more.reverse outer = some (.struct o))
  | own {outer : String} (hp : b.name.path = [outer]) (hb : Builtin.ofKeyword? outer = none)
      (h : d.findOwn? b.package outer = some (.struct o))
  | foreign {outer : String} (hp : b.name.path = [outer]) (hb : Builtin.ofKeyword? outer = none)
      (ho : Package.same (d.packageOf? (.struct o)) b.package = false)
      (h : (d.typesNamed outer).head? = some (.struct o))

/-- The structure to which the path leads is not what the name means any more: the package that
the path names has a type of the name, or the path leads to a structure of another package and
the package in which the name was written has a type of that name as well. -/
inductive Overtaken (b : Binding) (d : Document) (o : StructureId) : Prop where
  | packaged (h : (b.packaged? d).isSome)
  | own {outer : String} (hp : b.name.path = [outer])
      (ho : Package.same (d.packageOf? (.struct o)) b.package = false)
      (h : (d.findOwn? b.package outer).isSome)

theorem Leads.isListed (ho : b.Leads d o) : d.IsListed (.struct o) := by
  cases ho with
  | packaged hp hm h => exact isListed_of_findPackaged? h
  | own hp hb h => exact isListed_of_mem_typesNamed (List.mem_of_find?_eq_some h)
  | foreign hp hb ho h => exact isListed_of_mem_typesNamed (List.mem_of_mem_head? h)

section Extends

variable (h : d.Extends d') (hd : d.Linked)

include h hd

theorem Leads.of_extends (ho : b.Leads d o) : b.Leads d' o := by
  have hbelow := hd.below_of_isListed (ho.isListed)
  cases ho with
  | packaged hp hm hf => exact .packaged hp hm (h.findPackaged?_eq_some hd hf)
  | own hp hb hf => exact .own hp hb (h.findOwn?_eq_some hd hf)
  | @foreign outer hp hb hother hf =>
    refine .foreign hp hb ((h.packageOf?_eq hbelow).symm ▸ hother) ?_
    obtain ⟨more, hmore⟩ := h.typesNamed_prefix outer
    rw [← hmore, List.head?_append, hf]
    rfl

end Extends

/-- A qualified name means a type of the package that its path names, or else an enumeration that
is nested in the structure its path means. -/
theorem find?_eq_of_path {outer : String} {more : List String}
    (hp : b.name.path.reverse = outer :: more) :
    b.find? d = (b.packaged? d).or
      (match d.findBehind? b.package none outer more with
      | some (.struct o) => (d.findNested? o b.name.last.text).map .enum
      | _ => none) := by
  have hpath : (outer :: more).reverse = b.name.path := by rw [← hp, List.reverse_reverse]
  rw [find?, findType?, hp, findBehind?, hpath]
  rfl

theorem path_eq_singleton {outer : String} (hp : b.name.path.reverse = [outer]) :
    b.name.path = [outer] := by
  rw [← b.name.path.reverse_reverse, hp, List.reverse_singleton]

theorem leads_of_findBehind? {outer : String} {more : List String}
    (hp : b.name.path.reverse = outer :: more)
    (h : d.findBehind? b.package none outer more = some (.struct o)) : b.Leads d o := by
  cases more with
  | nil =>
    have hpath := path_eq_singleton hp
    rw [findBehind?, findUnqualified?] at h
    split at h
    · cases h
    · rename_i hbuiltin
      simp only [Option.bind_none] at h
      cases hown : d.findOwn? b.package outer with
      | some t =>
        rw [findOwn?] at hown
        rw [hown, Option.some_or] at h
        cases h
        exact .own hpath hbuiltin hown
      | none =>
        have hnone : (d.typesNamed outer).find? _ = none := hown
        rw [hnone, Option.none_or] at h
        have hother := List.find?_eq_none.1 hnone _ (List.mem_of_mem_head? h)
        exact .foreign hpath hbuiltin (Bool.eq_false_iff.2 hother) h
  | cons next rest =>
    rw [findBehind?] at h
    cases hf : d.findPackaged? (next :: rest).reverse outer with
    | some t =>
      have hpackaged : (d.typesNamed outer).find? _ = some t := hf
      rw [hpackaged, Option.some_or] at h
      cases h
      exact .packaged hp (List.cons_ne_nil _ _) hf
    | none =>
      have hpackaged : (d.typesNamed outer).find? _ = none := hf
      rw [hpackaged, Option.none_or] at h
      split at h
      · obtain ⟨e, _, he⟩ := Option.map_eq_some_iff.1 h
        cases he
      · cases h

theorem find?_of_packaged? (hp : b.name.path ≠ []) (h : b.packaged? d = some t) :
    b.find? d = some t := by
  obtain ⟨outer, more, hpath⟩ := List.exists_cons_of_ne_nil (List.reverse_ne_nil_iff.2 hp)
  rw [find?_eq_of_path hpath, h, Option.some_or]

theorem packaged?_of_find? (hp : b.name.path ≠ []) (h : b.find? d = none) :
    b.packaged? d = none := by
  obtain ⟨outer, more, hpath⟩ := List.exists_cons_of_ne_nil (List.reverse_ne_nil_iff.2 hp)
  rw [find?_eq_of_path hpath] at h
  exact (Option.or_eq_none_iff.1 h).1

/-- The structure to which the path leads is the one that is meant, unless it is overtaken. -/
theorem Leads.findBehind?_or_overtaken (ho : b.Leads d o) {outer : String} {more : List String}
    (hp : b.name.path.reverse = outer :: more) :
    d.findBehind? b.package none outer more = some (.struct o) ∨ b.Overtaken d o := by
  cases ho with
  | @packaged outer' more' hp' hm h =>
    obtain ⟨rfl, rfl⟩ := List.cons.inj (hp'.symm.trans hp)
    obtain ⟨next, rest, rfl⟩ := List.exists_cons_of_ne_nil hm
    have hpackaged : (d.typesNamed outer').find? _ = some (.struct o) := h
    rw [findBehind?, hpackaged, Option.some_or]
    exact .inl rfl
  | @own outer' hp' hb h =>
    rw [hp', List.reverse_singleton] at hp
    obtain ⟨rfl, rfl⟩ := List.cons.inj hp
    have hown : (d.typesNamed outer').find? _ = some (.struct o) := h
    left
    simp only [findBehind?, findUnqualified?, hb, Option.bind_none, hown, Option.some_or]
  | @foreign outer' hp' hb hother h =>
    have hsingle := hp'
    rw [hp', List.reverse_singleton] at hp
    obtain ⟨rfl, rfl⟩ := List.cons.inj hp
    cases hown : d.findOwn? b.package outer' with
    | some t => exact .inr (.own hsingle hother (Option.isSome_of_eq_some hown))
    | none =>
      have hnone : (d.typesNamed outer').find? _ = none := hown
      left
      simp only [findBehind?, findUnqualified?, hb, Option.bind_none, hnone, Option.none_or, h]

/-- A structure that is meant is not overtaken. -/
theorem not_overtaken_of_findBehind? {outer : String} {more : List String}
    (hp : b.name.path.reverse = outer :: more)
    (h : d.findBehind? b.package none outer more = some (.struct o)) (hn : b.packaged? d = none) :
    ¬ b.Overtaken d o := by
  intro hovertaken
  cases hovertaken with
  | packaged hpackaged =>
    rw [hn] at hpackaged
    cases hpackaged
  | @own outer' hsingle hother hown =>
    rw [hsingle, List.reverse_singleton] at hp
    obtain ⟨rfl, rfl⟩ := List.cons.inj hp
    obtain ⟨t, ht⟩ := Option.isSome_iff_exists.1 hown
    have hfound : (d.typesNamed outer').find? _ = some t := ht
    rw [findBehind?, findUnqualified?] at h
    split at h
    · cases h
    · simp only [Option.bind_none, hfound, Option.some_or, Option.some.injEq] at h
      subst h
      have hsame : Package.same (d.packageOf? (.struct o)) b.package = true :=
        List.find?_some (p := fun t => Package.same (d.packageOf? t) b.package) hfound
      cases hother.symm.trans hsame

/-- What a qualified name has meant it goes on to mean, or it has meant an enumeration in a
structure that has been overtaken since. -/
theorem find?_or_overtaken (hp : b.name.path ≠ []) (hf : b.find? d = some t)
    (h : d.Extends d') (hd : d.Linked) :
    b.find? d' = some t ∨ ∃ o e, t = .enum e ∧ b.Leads d o ∧
      d.findNested? o b.name.last.text = some e ∧ ¬ b.Overtaken d o ∧ b.Overtaken d' o := by
  obtain ⟨outer, more, hpath⟩ := List.exists_cons_of_ne_nil (List.reverse_ne_nil_iff.2 hp)
  rw [find?_eq_of_path hpath] at hf
  rcases Option.or_eq_some_iff.1 hf with hpackaged | ⟨hnone, hnested⟩
  · exact .inl (find?_of_packaged? hp (h.findPackaged?_eq_some hd hpackaged))
  · split at hnested
    · rename_i o ho
      obtain ⟨e, he, rfl⟩ := Option.map_eq_some_iff.1 hnested
      have hleads := leads_of_findBehind? hpath ho
      have hbefore := not_overtaken_of_findBehind? hpath ho hnone
      have he' : d'.findNested? o b.name.last.text = some e :=
        (h.findNested?_eq hd (hd.below_of_isListed hleads.isListed) _).trans he
      cases hpackaged : b.packaged? d' with
      | some u =>
        exact .inr ⟨o, e, rfl, hleads, he, hbefore, .packaged (Option.isSome_of_eq_some hpackaged)⟩
      | none =>
        rcases (hleads.of_extends h hd).findBehind?_or_overtaken hpath with hbehind | hovertaken
        · left
          rw [find?_eq_of_path hpath, hpackaged, hbehind, Option.none_or]
          simp only [he', Option.map_some]
        · exact .inr ⟨o, e, rfl, hleads, he, hbefore, hovertaken⟩
    · cases hnested

end Binding

end Idl
