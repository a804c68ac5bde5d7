import Idl.Check.Standard
import Idl.Proofs.Document.Write
import Idl.Proofs.Token.Lexer

/-!
Packages as they are read. An element of a path is a word, or the name of a directory; only such
a name can contain a dot. Declarations are compared by the full paths of their packages as these
are written, so two paths may be taken for one although they differ; but then one of them is
inherited from a directory with a dot in its name.
-/

namespace Idl

/-- The element is not empty, and only one that is inherited contains a dot. -/
structure PackageElement.Regular (e : PackageElement) : Prop where
  nonempty : e.value ≠ ""
  undotted : e.inherited = false → '.' ∉ e.value.toList

structure Package.Regular (p : Package) : Prop where
  nonempty : p.full ≠ []
  elements : ∀ e ∈ p.full, e.Regular

theorem Path.ne_empty_of_name_mem {text name : String}
    (h : Path.Component.name name ∈ (Path.ofString text).components) : name ≠ "" := by
  have hlead : (Path.ofString text).lead ≠ some (.name name) := by
    unfold Path.ofString
    split <;> nofun
  rcases List.mem_append.1 h with h | h
  · exact absurd (Option.mem_toList.1 h) hlead
  · obtain ⟨segment, _, hsegment⟩ := List.mem_filterMap.1 h
    unfold Path.component? at hsegment
    split at hsegment
    · cases hsegment
    · rename_i hvoid
      split at hsegment
      · cases hsegment
      · cases hsegment
        rintro rfl
        exact hvoid rfl

theorem PackageElement.Regular.of_word {text : String} {location : Location}
    (h : Pattern.Matches Token.Rule.identifier text.toList) :
    (⟨text, location, false⟩ : PackageElement).Regular where
  nonempty := by
    rintro rfl
    exact absurd ((Pattern.nullable_iff _).2 h) (by decide)
  undotted _ hdot := Pattern.ne_of_avoids (by decide) _ h '.' hdot rfl

theorem PackageElement.Regular.of_directory {id : SourceId} {position : Nat} {value : String}
    {location : Location} (h : id.directories[position]? = some value) :
    (⟨value, location, true⟩ : PackageElement).Regular where
  nonempty := by
    obtain ⟨c, hc, hname⟩ := List.mem_filterMap.1 (List.mem_of_getElem? h)
    cases c with
    | name text =>
      cases hname
      exact Path.ne_empty_of_name_mem (List.dropLast_subset _ hc)
    | _ => cases hname
  undotted := nofun

namespace Package

/-- A path can be read off from the way it is written, unless its elements contain dots. -/
theorem dotted_injective {a b : List String} (ha : a ≠ []) (hb : b ≠ [])
    (hadots : ∀ s ∈ a, '.' ∉ s.toList) (hbdots : ∀ s ∈ b, '.' ∉ s.toList)
    (h : dotted a = dotted b) : a = b := by
  have hsplit {path : List String} (hne : path ≠ []) (hdots : ∀ s ∈ path, '.' ∉ s.toList) :
      (dotted path).toList.splitOn '.' = path.map String.toList := by
    rw [dotted, String.toList_intercalate]
    refine List.splitOn_intercalate '.' (by simpa using hdots) (by simpa using hne)
  have hlists : a.map String.toList = b.map String.toList := by
    rw [← hsplit ha hadots, h, hsplit hb hbdots]
  exact List.map_injective_iff.2 (fun _ _ => String.toList_injective) hlists

theorem Regular.dotted_ne {p : Package} (h : p.Regular) : dotted p.fullPath ≠ "" := by
  obtain ⟨first, rest, hfull⟩ := List.exists_cons_of_ne_nil h.nonempty
  have hfirst := (h.elements first (hfull ▸ List.mem_cons_self)).nonempty
  rw [dotted, fullPath, hfull, List.map_cons]
  cases rest with
  | nil => simpa using hfirst
  | cons second rest => simp [String.append_eq_empty_iff]

/-- The full paths differ, and are written the same way, as an element that is inherited
contains a dot. -/
def blurred : Option Package → Option Package → Bool
  | some a, some b =>
    a.fullPath != b.fullPath && dotted a.fullPath == dotted b.fullPath &&
      (a.full ++ b.full).any fun e => e.inherited && e.value.toList.contains '.'
  | _, _ => false

/-- In a regular package only what is inherited contains a dot. -/
theorem Regular.undotted {p : Package} (h : p.Regular)
    (hdots : ∀ e ∈ p.full, (e.inherited && e.value.toList.contains '.') = false) :
    ∀ s ∈ p.fullPath, '.' ∉ s.toList := by
  intro s hs
  obtain ⟨e, he, rfl⟩ := List.mem_map.1 hs
  cases hinherited : e.inherited with
  | false => exact (h.elements e he).undotted hinherited
  | true => simpa [hinherited] using hdots e he

/-- Packages are written the same way if they are one, or if a dot in a directory blurs them. -/
theorem written_eq_iff {a b : Option Package} (ha : ∀ p, a = some p → p.Regular)
    (hb : ∀ p, b = some p → p.Regular) :
    (a.map fun p => dotted p.fullPath).getD "" = (b.map fun p => dotted p.fullPath).getD "" ↔
      (same a b || blurred a b) = true := by
  cases a with
  | none =>
    cases b with
    | none => simp [same]
    | some q => simpa [same, blurred] using (hb q rfl).dotted_ne.symm
  | some p =>
    cases b with
    | none => simpa [same, blurred] using (ha p rfl).dotted_ne
    | some q =>
      have hp := ha p rfl
      have hq := hb q rfl
      simp only [Option.map_some, Option.getD_some, same, blurred, Bool.or_eq_true,
        Bool.and_eq_true, beq_iff_eq, bne_iff_ne]
      constructor
      · intro hwritten
        by_cases hpath : p.fullPath = q.fullPath
        · exact .inl hpath
        refine .inr ⟨⟨hpath, hwritten⟩, ?_⟩
        by_contra hdots
        have hdots := List.any_eq_false.1 (Bool.eq_false_iff.2 hdots)
        refine hpath (dotted_injective ?_ ?_ (hp.undotted fun e he => ?_)
          (hq.undotted fun e he => ?_) hwritten)
        · simpa [fullPath] using hp.nonempty
        · simpa [fullPath] using hq.nonempty
        · exact Bool.eq_false_iff.2 (hdots e (List.mem_append_left _ he))
        · exact Bool.eq_false_iff.2 (hdots e (List.mem_append_right _ he))
      · rintro (hpath | ⟨⟨_, hwritten⟩, _⟩)
        · rw [hpath]
        · exact hwritten

end Package

namespace Document

/-- The packages of all nodes are regular. -/
def Packaged (d : Document) : Prop :=
  ∀ x p, d.package? x = some p → p.Regular

variable {d d' : Document}

theorem Packaged.of_heading (h : d.Packaged) (hh : ∀ x, d'.heading? x = d.heading? x) :
    d'.Packaged :=
  fun x p hp => h x p (by rw [package?, ← hh]; exact hp)

theorem Packaged.restore (h : d.Packaged) (e : Extent) : (d.restore e).Packaged := by
  intro x p hp
  obtain ⟨heading, hx, hp⟩ := Option.bind_eq_some_iff.1 hp
  exact h x p (Option.bind_eq_some_iff.2 ⟨heading, heading?_restore hx, hp⟩)

theorem Packaged.write (h : d.Packaged) {L : Location → Prop}
    (hw : d.Write L (fun x => ∀ p, x.package = some p → p.Regular) d') : d'.Packaged := by
  intro x p hp
  obtain ⟨heading, hx, hp⟩ := Option.bind_eq_some_iff.1 hp
  rcases hw.heading? hx with hx | hnew
  · exact h x p (Option.bind_eq_some_iff.2 ⟨heading, hx, hp⟩)
  · exact hnew p hp

/-- The declaration has the name of one in front of it, and its package is the same or cannot be
told from that of the other one. -/
def isRepeated (d : Document) (position : Nat) (x : Declaration) : Bool :=
  (d.declarations.take position).any fun y => d.nameText y == d.nameText x &&
    (Package.same (d.package? y) (d.package? x) || Package.blurred (d.package? y) (d.package? x))

end Document

end Idl
