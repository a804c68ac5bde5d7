import Mathlib.Data.List.DropRight
import Idl.Path

/-!
Paths by their components. To cut the first components off a path, or to leave out what is no
component at its end, leaves the other components as they are; and because what is cut out keeps
no slash and no dot in front, the components are also those of the text that it is spelled by.
-/

namespace Idl

namespace Path

variable {p : Path} {segments : List String} {base rest : List Component}

/-- The path is spelled by a text: no slash stands inside of a piece, and a leading piece that is
no component is told as the lead. -/
structure Spelled (p : Path) : Prop where
  lead : p.lead = none ∨ p.lead = some .root ∨ p.lead = some .here
  pieces : ∀ segment ∈ p.segments, '/' ∉ segment.toList
  front : p.lead = none → ∀ segment ∈ p.segments.head?, isVoid segment = false

theorem spelled_ofString (text : String) : (ofString text).Spelled := by
  have hpieces : ∀ segment ∈ (Text.pieces '/' text.toList).map String.ofList,
      '/' ∉ segment.toList := by
    refine List.forall_mem_map.2 fun piece hpiece => ?_
    rw [String.toList_ofList]
    exact Text.separator_notMem_pieces '/' text.toList piece hpiece
  unfold ofString
  split
  · exact ⟨.inl rfl, List.forall_mem_nil _, fun _ => nofun⟩
  · rename_i rest _ hrest
    rw [hrest, List.forall_mem_cons] at hpieces
    exact ⟨.inr (.inl rfl), hpieces.2, nofun⟩
  · rename_i rest hrest
    rw [hrest, List.forall_mem_cons] at hpieces
    exact ⟨.inr (.inr rfl), hpieces.2, nofun⟩
  · rename_i _ hroot hhere
    refine ⟨.inl rfl, hpieces, fun _ segment hsegment => ?_⟩
    obtain ⟨rest, hrest⟩ := List.head?_eq_some_iff.1 hsegment
    have hempty : segment ≠ "" := fun h => hroot rest (h ▸ hrest)
    have hdot : segment ≠ "." := fun h => hhere rest (h ▸ hrest)
    simp [isVoid, hempty, hdot]

section Components

theorem component?_eq_none_iff {segment : String} :
    component? segment = none ↔ isVoid segment = true := by
  unfold component?
  split
  · rename_i h
    exact iff_of_true rfl h
  · rename_i h
    split <;> simpa using h

theorem filterMap_dropWhile_isVoid (segments : List String) :
    (segments.dropWhile isVoid).filterMap component? = segments.filterMap component? := by
  induction segments with
  | nil => rfl
  | cons segment rest ih =>
    rw [List.dropWhile_cons]
    split
    · rename_i h
      rw [ih, List.filterMap_cons_none (component?_eq_none_iff.2 h)]
    · rfl

theorem filterMap_dropVoidEnd (segments : List String) :
    (dropVoidEnd segments).filterMap component? = segments.filterMap component? := by
  rw [dropVoidEnd, List.filterMap_reverse, filterMap_dropWhile_isVoid, List.filterMap_reverse,
    List.reverse_reverse]

theorem filterMap_dropComponents (count : Nat) (segments : List String) :
    (dropComponents count segments).filterMap component? =
      (segments.filterMap component?).drop count := by
  fun_induction dropComponents count segments with
  | case1 => rfl
  | case2 => rfl
  | case3 count segment rest h ih =>
    rw [ih, List.filterMap_cons_none (component?_eq_none_iff.2 h)]
  | case4 count segment rest h ih =>
    obtain ⟨c, hc⟩ := Option.ne_none_iff_exists'.1 (mt component?_eq_none_iff.1 h)
    rw [ih, List.filterMap_cons_some hc, List.drop_succ_cons]

theorem components_trimmed (p : Path) : p.trimmed.components = p.components := by
  rw [components, components, trimmed, filterMap_dropVoidEnd]

/-- To cut off what is in front leaves the components behind it. -/
theorem components_behind (p : Path) (count : Nat) :
    (p.behind count).components = p.components.drop count := by
  cases count with
  | zero => rw [behind, components_trimmed, List.drop_zero]
  | succ count =>
    rw [behind, components, components, filterMap_dropVoidEnd, filterMap_dropWhile_isVoid,
      filterMap_dropComponents]
    cases p.lead <;> rfl

theorem behindBase?_eq_some (h : p.components = base ++ rest) :
    p.behindBase? base = some (p.behind base.length) ∧
      (p.behind base.length).components = rest := by
  constructor
  · rw [behindBase?, if_pos (List.isPrefixOf_iff_prefix.2 ⟨rest, h.symm⟩)]
  · rw [components_behind, h, List.drop_left]

theorem behindBase?_eq_none (h : ∀ rest, p.components ≠ base ++ rest) :
    p.behindBase? base = none := by
  refine if_neg fun hprefix => ?_
  obtain ⟨rest, hrest⟩ := List.isPrefixOf_iff_prefix.1 hprefix
  exact h rest hrest.symm

end Components

section Spelling

theorem front_dropVoidEnd (segments : List String) : dropVoidEnd segments <+: segments :=
  List.rdropWhile_prefix isVoid segments

theorem dropComponents_suffix (count : Nat) (segments : List String) :
    dropComponents count segments <:+ segments := by
  fun_induction dropComponents count segments with
  | case1 => exact List.suffix_rfl
  | case2 => exact List.suffix_rfl
  | case3 count segment rest h ih => exact ih.trans (List.suffix_cons segment rest)
  | case4 count segment rest h ih => exact ih.trans (List.suffix_cons segment rest)

theorem Spelled.trimmed (h : p.Spelled) : p.trimmed.Spelled where
  lead := h.lead
  pieces segment hsegment :=
    h.pieces segment ((front_dropVoidEnd p.segments).subset hsegment)
  front hlead segment hsegment := by
    refine h.front hlead segment ?_
    obtain ⟨rest, hrest⟩ := front_dropVoidEnd p.segments
    change (dropVoidEnd p.segments).head? = some segment at hsegment
    rw [← hrest, List.head?_append, hsegment]
    rfl

theorem Spelled.behind (h : p.Spelled) (count : Nat) : (p.behind count).Spelled := by
  cases count with
  | zero => exact h.trimmed
  | succ count =>
    rw [Path.behind]
    generalize (if p.lead.isSome = true then count else count + 1) = count
    have hsuffix : (dropComponents count p.segments).dropWhile isVoid <:+ p.segments :=
      (List.dropWhile_suffix isVoid).trans (dropComponents_suffix count p.segments)
    refine Spelled.trimmed (p := ⟨none, (dropComponents count p.segments).dropWhile isVoid⟩)
      ⟨.inl rfl, fun segment hsegment => h.pieces segment (hsuffix.subset hsegment), fun _ => ?_⟩
    intro segment hsegment
    have hfirst := List.head?_dropWhile_not isVoid (dropComponents count p.segments)
    rw [Option.mem_def.1 hsegment] at hfirst
    simpa using hfirst

theorem pieces_joinSegments (hne : segments ≠ [])
    (h : ∀ segment ∈ segments, '/' ∉ segment.toList) :
    (Text.pieces '/' (joinSegments segments).toList).map String.ofList = segments := by
  have hsplit : (joinSegments segments).toList.splitOn '/' = segments.map String.toList := by
    rw [joinSegments, String.toList_intercalate]
    exact List.splitOn_intercalate '/' (by simpa using h) (by simpa using hne)
  rw [Text.pieces_eq_splitOn, hsplit, List.map_map]
  simp

/-- Behind the slash of an empty path stands an empty piece, which is no component. -/
theorem components_slash (h : ∀ segment ∈ segments, '/' ∉ segment.toList) :
    (ofString ("/" ++ joinSegments segments)).components = components ⟨some .root, segments⟩ := by
  have htail : ((Text.pieces '/' (joinSegments segments).toList).map String.ofList).filterMap
      component? = segments.filterMap component? := by
    cases segments with
    | nil => rfl
    | cons first rest => rw [pieces_joinSegments (List.cons_ne_nil first rest) h]
  obtain ⟨piece, more, hsplit⟩ := List.exists_cons_of_ne_nil
    (List.splitOn_ne_nil '/' (joinSegments segments).toList)
  rw [← Text.pieces_eq_splitOn] at hsplit
  rw [hsplit] at htail
  have hroot : (Text.pieces '/' ("/" ++ joinSegments segments).toList).map String.ofList =
      "" :: String.ofList piece :: more.map String.ofList := by
    rw [String.toList_append]
    exact congrArg (fun l => ([] :: l).map String.ofList) hsplit
  rw [ofString, hroot]
  exact congrArg (Component.root :: ·) htail

theorem components_dot (h : ∀ segment ∈ segments, '/' ∉ segment.toList) :
    (ofString (joinSegments ("." :: segments))).components =
      components ⟨some .here, segments⟩ := by
  have hdot : ∀ segment ∈ "." :: segments, '/' ∉ segment.toList :=
    List.forall_mem_cons.2 ⟨by decide, h⟩
  rw [ofString, pieces_joinSegments (List.cons_ne_nil "." segments) hdot]
  rfl

theorem components_joinSegments (h : ∀ segment ∈ segments, '/' ∉ segment.toList)
    (hfront : ∀ segment ∈ segments.head?, isVoid segment = false) :
    (ofString (joinSegments segments)).components = components ⟨none, segments⟩ := by
  cases segments with
  | nil => rfl
  | cons first rest =>
    have hfirst := hfront first rfl
    rw [ofString, pieces_joinSegments (List.cons_ne_nil first rest) h]
    split
    case h_4 => rfl
    all_goals
      rename_i heq
      cases heq
      cases hfirst

/-- The text that a path is spelled by has the components of the path. -/
theorem Spelled.components_toString (h : p.Spelled) :
    (ofString p.toString).components = p.components := by
  obtain ⟨lead, segments⟩ := p
  rcases h.lead with rfl | rfl | rfl
  · exact components_joinSegments h.pieces (h.front rfl)
  · exact components_slash h.pieces
  · exact components_dot h.pieces

end Spelling

end Path

end Idl
