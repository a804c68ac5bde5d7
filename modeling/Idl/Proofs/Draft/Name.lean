import Idl.Proofs.Draft.Registration

/-!
What names mean among declarations that were read as they were drafted: a builtin, or the type of
the draft with this name. Whether a name means something does not depend on the order of the
drafts.
-/

namespace Idl

/-- Under a name that only one entry has, the first entry with a type is the only one. -/
theorem head?_filterMap_zip {names : List String} (hnames : names.Nodup) (ys : List Declaration)
    (name : String) :
    (((names.zip ys).filterMap fun (n, y) => y.type?.map (n, ·)).filterMap fun entry =>
      if entry.1 == name then some entry.2 else none).head? =
      ((names.zip ys).lookup name).bind Declaration.type? := by
  induction names generalizing ys with
  | nil => rfl
  | cons n names ih =>
    rw [List.nodup_cons] at hnames
    cases ys with
    | nil => rfl
    | cons y ys =>
      have hrest := ih hnames.2 ys
      rw [List.zip_cons_cons, List.filterMap_cons, List.lookup_cons]
      by_cases hn : n = name
      · subst hn
        have hnone : (names.zip ys).lookup n = none := by
          refine List.lookup_eq_none_iff.2 fun entry hentry => bne_iff_ne.2 fun hsame => ?_
          exact hnames.1 (hsame ▸ (List.of_mem_zip hentry).1)
        rw [hnone] at hrest
        cases hy : y.type? with
        | some t => simp [hy]
        | none => simpa [hy] using hrest
      · have hskip : (name == n) = false := beq_false_of_ne (Ne.symm hn)
        simp only [hskip]
        rw [← hrest]
        cases y.type? with
        | some t => simp [hn]
        | none => simp

namespace Document.Matches

variable {source : Option SourceId} {ds : List Draft} {pieces : List Piece} {read : List Token}
  {d : Document} {ws : List Binding} {name : String} {t : DataType}

/-- A name means what the draft of this name was read as. -/
theorem leaf?_eq (h : Matches source ds pieces read d ws) (hnames : (ds.map Draft.name).Nodup)
    (name : String) : d.leaf? name = Draft.target ds d.declarations name := by
  have hnamed : d.typesNamed name = (((ds.map Draft.name).zip d.declarations).filterMap
      fun (n, y) => y.type?.map (n, ·)).filterMap fun entry =>
        if entry.1 == name then some entry.2 else none := by
    rw [typesNamed, h.typeNames, List.zip_map_left, List.filterMap_map]
    rfl
  rw [h.plain.leaf?_eq, hnamed, head?_filterMap_zip hnames, Draft.target]
  cases Builtin.ofKeyword? name <;> simp

/-- Which names mean something is known from the drafts, in whatever order they stand. -/
theorem isSome_leaf? (h : Matches source ds pieces read d ws) (name : String) :
    (d.leaf? name).isSome = Draft.known ds name := by
  obtain ⟨hlength, hread⟩ := List.forall₂_iff_zip.1 h.readAs
  have hlisted : (d.typesNamed name).head?.isSome =
      ds.any fun x => x.isType && x.name == name := by
    rw [Bool.eq_iff_iff, List.any_eq_true, Option.isSome_iff_exists]
    constructor
    · rintro ⟨t, ht⟩
      obtain ⟨x, y, hxy, hname, hy⟩ := h.mem_typesNamed.1 (List.mem_of_mem_head? ht)
      have htype := (hread hxy).isSome_type?
      rw [hy] at htype
      exact ⟨x, (List.of_mem_zip hxy).1, by simp [← htype, hname]⟩
    · rintro ⟨x, hx, hname⟩
      rw [Bool.and_eq_true, beq_iff_eq] at hname
      obtain ⟨i, hi, rfl⟩ := List.getElem_of_mem hx
      have hi₁ : i < d.declarations.length := hlength ▸ hi
      have hxy : (ds[i], d.declarations[i]) ∈ ds.zip d.declarations := by
        have hi' : i < (ds.zip d.declarations).length := by simpa [← hlength] using hi
        rw [← List.getElem_zip (h := hi')]
        exact List.getElem_mem hi'
      obtain ⟨t, ht⟩ := Option.isSome_iff_exists.1 ((hread hxy).isSome_type?.trans hname.1)
      have hmem := h.mem_typesNamed.2 ⟨_, _, hxy, hname.2, ht⟩
      exact Option.isSome_iff_exists.1 (List.isSome_head?.2 (List.ne_nil_of_mem hmem))
  rw [h.plain.leaf?_eq, Option.isSome_or, Option.isSome_map, hlisted]
  rfl

/-- The type that a name means has this name, and is no template. -/
theorem named_of_leaf? (h : Matches source ds pieces read d ws) (ht : d.leaf? name = some t) :
    d.coreName t = name ∧ d.layers t = ⟨[], some t⟩ := by
  rw [h.plain.leaf?_eq] at ht
  rcases Option.or_eq_some_iff.1 ht with hb | ⟨-, ht⟩
  · obtain ⟨b, hword, rfl⟩ := Option.map_eq_some_iff.1 hb
    exact ⟨Builtin.keyword_of_ofKeyword? hword, rfl⟩
  · obtain ⟨x, y, hxy, rfl, hy⟩ := h.mem_typesNamed.1 (List.mem_of_mem_head? ht)
    rw [← ((List.forall₂_iff_zip.1 h.readAs).2 hxy).nameText_eq]
    cases y <;> cases hy <;> exact ⟨rfl, rfl⟩

/-- What is left to wait at the end means nothing, and all else has the name it was used by. -/
theorem exhausted (h : Matches source ds pieces read d ws) (hs : d.Sound ws) :
    d.Exhausted ws where
  linked := hs.linked
  waiting b hb := by
    have huse : b.use ∈ ws.map Binding.use := List.mem_map_of_mem hb
    rw [h.waiting] at huse
    have hnone := (List.mem_filter.1 huse).2
    rw [Binding.use, (h.bare b hb).first] at hnone
    exact Option.isNone_iff_eq_none.1 hnone
  named _ _ ht := h.named_of_leaf? ht

end Document.Matches

end Idl
