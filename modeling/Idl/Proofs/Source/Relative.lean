import Idl.Proofs.Grammar.Package
import Idl.Proofs.Source.Path

/-!
Paths below the directory that the root was asked for from. All sources of an import chain have
the same root, so the directory is the same for all of them, and where a source lies below it is
known from the value of the source alone: how many imports lead to it, through which sources, and
what it was asked for by does not count. The inherited elements of its package are the directories
on that way.
-/

namespace Idl

namespace SourceId

open Idl.Path (Component)

variable {root : SourceName} {id : SourceId} {base rest : List Component}

/-- The sources of the import chains that start from a root. -/
inductive ReachedFrom (root : SourceName) : SourceId → Prop
  | root (id : SourceId) : id.toSourceName = root → ReachedFrom root (id.importedBy none)
  | imported {importer : SourceId} (id : SourceId) :
      ReachedFrom root importer → ReachedFrom root (id.importedBy (some importer))

theorem root_importedBy (id importer : SourceId) :
    (id.importedBy (some importer)).root = importer.root :=
  List.getLastD_cons ..

theorem ReachedFrom.root_eq (h : ReachedFrom root id) : id.root = root := by
  induction h with
  | root id h => exact h
  | imported id _ ih => exact (root_importedBy id _).trans ih

/-- The names in the text that the root was asked for by. -/
def asked (root : SourceName) : List Component :=
  (Path.ofString root.requested).names.map Component.name

theorem baseComponents?_eq_some_iff : baseComponents? root = some base ↔
    (Path.ofString root.value).components = base ++ asked root := by
  have hunfold : baseComponents? root =
      if (asked root).isSuffixOf (Path.ofString root.value).components then
        some ((Path.ofString root.value).components.take
          ((Path.ofString root.value).components.length - (asked root).length))
      else none := rfl
  rw [hunfold]
  constructor
  · intro h
    split at h
    · rename_i hsuffix
      obtain ⟨front, hfront⟩ := List.isSuffixOf_iff_suffix.1 hsuffix
      rw [← hfront, List.length_append, Nat.add_sub_cancel, List.take_left] at h
      rw [← hfront, Option.some.inj h]
    · cases h
  · intro h
    rw [if_pos (List.isSuffixOf_iff_suffix.2 ⟨base, h.symm⟩), h, List.length_append,
      Nat.add_sub_cancel, List.take_left]

/-- Below the base, a source is known by what its value has behind the base. -/
theorem relativeToRoot_below (hbase : baseComponents? id.root = some base)
    (hvalue : (Path.ofString id.value).components = base ++ rest) :
    id.relativeToRoot = ((Path.ofString id.value).behind base.length).toString ∧
      (Path.ofString id.relativeToRoot).components = rest := by
  obtain ⟨hbehind, hrest⟩ := Path.behindBase?_eq_some hvalue
  have hrelative : id.relativeToRoot = ((Path.ofString id.value).behind base.length).toString := by
    rw [relativeToRoot, hbase, Option.bind_some, hbehind]
  have hspelled := (Path.spelled_ofString id.value).behind base.length
  exact ⟨hrelative, by rw [hrelative, hspelled.components_toString, hrest]⟩

/-- A source that is not below the base keeps the text it was asked for by. -/
theorem relativeToRoot_elsewhere (h : ∀ base rest, baseComponents? id.root = some base →
    (Path.ofString id.value).components ≠ base ++ rest) : id.relativeToRoot = id.requested := by
  rw [relativeToRoot]
  cases hbase : baseComponents? id.root with
  | none => rfl
  | some base => rw [Option.bind_some, Path.behindBase?_eq_none fun rest => h base rest hbase]

/-- Where a source lies below the directory of the root depends on nothing but its value, and so
do the inherited elements of its package; a source that is not below it keeps the text that it
was asked for by. -/
theorem relative_paths_do_not_depend_on_imports (h : ReachedFrom root id) :
    (∀ base rest, (Path.ofString root.value).components = base ++ asked root →
      (Path.ofString id.value).components = base ++ rest →
      (Path.ofString id.relativeToRoot).components = rest ∧
      (∀ other, ReachedFrom root other → other.value = id.value →
        other.relativeToRoot = id.relativeToRoot) ∧
      ∀ (s : Grammar.State) (position : Nat), s.source = some id →
        Grammar.inheritedElement? s position =
          (rest.dropLast.filterMap Component.name?)[position]? ∧
        ∀ (t : Token) (name : String), s.current = some t → t.kind = .asterisk →
          (rest.dropLast.filterMap Component.name?)[position]? = some name →
          Grammar.packageElement position s = .ok ⟨name, s.locationOf t, true⟩ s.advance) ∧
    ((∀ base rest, (Path.ofString root.value).components = base ++ asked root →
      (Path.ofString id.value).components ≠ base ++ rest) → id.relativeToRoot = id.requested) := by
  refine ⟨fun base rest hbase hvalue => ?_, fun helsewhere => ?_⟩
  · have hbase := baseComponents?_eq_some_iff.2 hbase
    obtain ⟨hrelative, hcomponents⟩ := relativeToRoot_below (h.root_eq ▸ hbase) hvalue
    refine ⟨hcomponents, fun other hother hsame => ?_, fun s position hs => ?_⟩
    · rw [hrelative, ← hsame]
      exact (relativeToRoot_below (hother.root_eq ▸ hbase) (hsame ▸ hvalue)).1
    · have hinherited : Grammar.inheritedElement? s position =
          (rest.dropLast.filterMap Component.name?)[position]? := by
        rw [Grammar.inheritedElement?, hs, Option.bind_some, directories, hcomponents]
      refine ⟨hinherited, fun t name ht hkind hname => ?_⟩
      rw [Grammar.packageElement_of_asterisk ht hkind, hinherited, hname]
  · refine relativeToRoot_elsewhere fun base rest hbase => ?_
    exact helsewhere base rest (baseComponents?_eq_some_iff.1 (h.root_eq ▸ hbase))

/-- A source that two imports lead to, and one that lies beside the directory of the root. -/
theorem relative_paths_do_not_depend_on_imports_nested :
    let root : SourceName := ⟨"/work/./main.idl", "./main.idl", "main_idl"⟩
    let shape := (ofValue "/work/geo/shape.idl").importedBy (some { root with importers := [] })
    let point := { ofValue "/work//geo/flat/./point.idl" with requested := "point.idl" }.importedBy
      (some shape)
    let beside := { ofValue "/worker/x.idl" with requested := "./x.idl" }.importedBy (some shape)
    let star : Token := ⟨.asterisk, "*", {}⟩
    let s : Grammar.State := { (default : Grammar.State) with
      source := some point, cursor := ⟨[star], 1, 2⟩ }
    let base : List Component := [.root, .name "work"]
    let rest : List Component := [.name "geo", .name "flat", .name "point.idl"]
    ReachedFrom root point ∧ ReachedFrom root beside ∧
      (Path.ofString root.value).components = base ++ asked root ∧
      (Path.ofString point.value).components = base ++ rest ∧
      (Path.ofString point.relativeToRoot).components = rest ∧
      Grammar.packageElement 1 s = .ok ⟨"flat", s.locationOf star, true⟩ s.advance ∧
      beside.relativeToRoot = "./x.idl" := by
  intro root shape point beside star s base rest
  have hshape : ReachedFrom root shape := .imported _ (.root { root with importers := [] } rfl)
  have hpoint : ReachedFrom root point := .imported _ hshape
  have hbeside : ReachedFrom root beside := .imported _ hshape
  have hbase : (Path.ofString root.value).components = base ++ asked root := by decide +kernel
  have hvalue : (Path.ofString point.value).components = base ++ rest := by decide +kernel
  obtain ⟨hrelative, -, helement⟩ :=
    (relative_paths_do_not_depend_on_imports hpoint).1 base rest hbase hvalue
  refine ⟨hpoint, hbeside, hbase, hvalue, hrelative,
    (helement s 1 rfl).2 star "flat" rfl rfl rfl,
    (relative_paths_do_not_depend_on_imports hbeside).2 fun base' rest' hbase' hvalue' => ?_⟩
  obtain rfl : base = base' := List.append_cancel_right (hbase.symm.trans hbase')
  have hfirst : (Path.ofString beside.value).components[1]? = some (.name "worker") := by
    decide +kernel
  rw [hvalue'] at hfirst
  exact absurd hfirst (by simp [base])

end SourceId

end Idl
