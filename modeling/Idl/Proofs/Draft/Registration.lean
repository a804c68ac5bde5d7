import Idl.Proofs.Draft.Binding
import Idl.Proofs.Draft.Check
import Idl.Proofs.Draft.Declaration
import Idl.Proofs.Grammar.Declaration

/-!
Declarations that are read one after the other. At any time all that was read looks like its
draft, the types of the drafts are listed under their names, and a name waits for each use of a
name that means nothing yet.
-/

namespace Idl

namespace Document

variable {d d' : Document} {ws ws' : List Binding} {x : Draft} {y : Declaration} {t : DataType}
  {name : String} {slot : Slot} {e : TypeExpr}

theorem nameText_of_viewAs {call : Option DataType → Option String} {v : View}
    (h : d.viewAs call y = some v) : d.nameText y = v.name ∧ y.type?.isSome = v.isType := by
  cases y with
  | struct id =>
    obtain ⟨s, hs, rfl⟩ := Option.map_eq_some_iff.1 h
    simp [nameText, name?, heading?, hs, View.name, View.isType, Declaration.type?]
  | interface id =>
    obtain ⟨i, hi, rfl⟩ := Option.map_eq_some_iff.1 h
    simp [nameText, name?, heading?, hi, View.name, View.isType, Declaration.type?]
  | enum id =>
    obtain ⟨e, he, rfl⟩ := Option.map_eq_some_iff.1 h
    simp [nameText, name?, heading?, he, View.name, View.isType, Declaration.type?]
  | _ => cases h

/-- What was read from a draft has its name. -/
theorem ReadAs.nameText_eq (h : d.ReadAs ws x y) : d.nameText y = x.name := by
  rw [(nameText_of_viewAs h.view).1]
  cases x <;> rfl

/-- What was read from a draft of a type is a type. -/
theorem ReadAs.isSome_type? (h : d.ReadAs ws x y) : y.type?.isSome = x.isType := by
  rw [(nameText_of_viewAs h.view).2]
  cases x <;> rfl

/-- Below an extent declarations look the same in documents that agree there. -/
theorem AgreeBelow.viewAs_eq {extent : Extent} (h : AgreeBelow extent d d') (hy : y.Below extent)
    (call : Option DataType → Option String) : d'.viewAs call y = d.viewAs call y := by
  cases y with
  | struct id => rw [viewAs, viewAs, h.structure_eq hy]
  | interface id => rw [viewAs, viewAs, h.interface_eq hy]
  | enum id => rw [viewAs, viewAs, h.enumeration_eq hy]
  | _ => rfl

section Register

theorem viewAs_register (d : Document) (z : Declaration) (call : Option DataType → Option String)
    (y : Declaration) : (d.register z).viewAs call y = d.viewAs call y := by
  cases y <;> rfl

/-- What a name means is not lost when a declaration is registered. -/
theorem IsPlain.leaf?_register_of_some (hd : d.IsPlain) (z : Declaration)
    (h : d.leaf? name = some t) : (d.register z).leaf? name = some t := by
  cases hz : z.type? with
  | some u => rw [hd.leaf?_register hz, h, Option.some_or]
  | none =>
    have hnames : (d.register z).typeNames = d.typeNames := by
      rw [Document.register]
      simp only [hz]
    rw [hd.leaf?_congr (hd.register z) hnames, h]

theorem Stands.register {leaf : String} {shells : List Template} {t? : Option DataType}
    (h : d.Stands ws leaf shells t? slot) (hd : d.IsPlain) (z : Declaration) :
    (d.register z).Stands ws leaf shells t? slot := by
  induction shells generalizing t? slot with
  | nil =>
    cases t? with
    | some t => exact hd.leaf?_register_of_some z h
    | none => exact h
  | cons template shells ih =>
    obtain ⟨id, i, rfl, hi, ht, h⟩ := stands_cons.1 h
    exact ⟨i, hi, ht, ih h⟩

theorem ReadAs.register (h : d.ReadAs ws x y) (hd : d.IsPlain) (z : Declaration) :
    (d.register z).ReadAs ws x y := by
  refine ⟨(viewAs_register d z _ y).trans h.view, fun p hp => ?_⟩
  obtain ⟨t?, hslot, hstands⟩ := h.holds p hp
  exact ⟨t?, (d.slot?_register z p.1).trans hslot, hstands.register hd z⟩

end Register

/-- The declarations of the document are those that were drafted, read from the pieces. -/
structure Matches (source : Option SourceId) (ds : List Draft) (pieces : List Piece)
    (read : List Token) (d : Document) (ws : List Binding) : Prop where
  plain : d.IsPlain
  readAs : List.Forall₂ (d.ReadAs ws) ds d.declarations
  typeNames : d.typeNames =
    (ds.zip d.declarations).filterMap fun (x, y) => y.type?.map (x.name, ·)
  spell : Spell read pieces
  waiting : ws.map Binding.use =
    (uses read pieces).filter fun u => (d.leaf? u.2.text).isNone
  bare : ∀ b ∈ ws, b.IsBare source

namespace Matches

variable {source : Option SourceId} {ds : List Draft} {pieces : List Piece} {read : List Token}

/-- The types of a name are what the drafts of this name were read as. -/
theorem mem_typesNamed (h : Matches source ds pieces read d ws) : t ∈ d.typesNamed name ↔
    ∃ x y, (x, y) ∈ ds.zip d.declarations ∧ x.name = name ∧ y.type? = some t := by
  rw [typesNamed, h.typeNames, List.filterMap_filterMap, List.mem_filterMap]
  constructor
  · rintro ⟨⟨x, y⟩, hxy, hentry⟩
    obtain ⟨⟨n, u⟩, hu, hname⟩ := Option.bind_eq_some_iff.1 hentry
    obtain ⟨_, hy, hpair⟩ := Option.map_eq_some_iff.1 hu
    cases hpair
    split at hname
    · rename_i hsame
      cases hname
      exact ⟨x, y, hxy, beq_iff_eq.1 hsame, hy⟩
    · cases hname
  · rintro ⟨x, y, hxy, rfl, hy⟩
    exact ⟨(x, y), hxy, by simp [hy]⟩

/-- A name that no draft has, and no builtin, means nothing. -/
theorem leaf?_eq_none (h : Matches source ds pieces read d ws) (hnew : name ∉ ds.map Draft.name)
    (hbuiltin : Builtin.ofKeyword? name = none) : d.leaf? name = none := by
  have hnamed : d.typesNamed name = [] := by
    refine List.eq_nil_iff_forall_not_mem.2 fun t ht => hnew ?_
    obtain ⟨x, y, hxy, rfl, -⟩ := h.mem_typesNamed.1 ht
    exact List.mem_map_of_mem (List.of_mem_zip hxy).1
  rw [h.plain.leaf?_eq, hbuiltin, hnamed]
  rfl

/-- Another declaration has been read, which is not registered yet. -/
theorem drafted {s : Grammar.State} {scope : Option StructureId} {pieces' : List Piece}
    {tokens : List Token} (h : Matches s.source ds pieces read d ws) (hl : d.Linked)
    (ha : AgreeBelow d.extent d d')
    (hx : s.Drafted scope pieces' tokens d ws x y d' ws') :
    Matches s.source ds (pieces ++ pieces') (read ++ tokens) d' ws' := by
  obtain ⟨new, hws, huse, hbare⟩ := hx.gains.waiting
  have hleaf (name : String) : d'.leaf? name = d.leaf? name :=
    h.plain.leaf?_congr hx.gains.plain hx.gains.typeNames name
  refine ⟨hx.gains.plain, ?_, ?_, h.spell.append hx.spell, ?_, fun b hb => ?_⟩
  · rw [ha.declarations_eq]
    obtain ⟨hlength, hall⟩ := List.forall₂_iff_zip.1 h.readAs
    refine List.forall₂_iff_zip.2 ⟨hlength, fun {x y} hxy => ?_⟩
    have hbelow := hl.declarations y (List.of_mem_zip hxy).2
    exact (hall hxy).mono h.plain hx.gains.plain hx.gains.toKeeps hx.gains.subset
      (ha.viewAs_eq hbelow _)
  · rw [hx.gains.typeNames, ha.declarations_eq, h.typeNames]
  · rw [hws, List.map_append, h.waiting, huse, uses_append h.spell, List.filter_append]
    simp only [hleaf]
  · rw [hws] at hb
    exact (List.mem_append.1 hb).elim (h.bare b) fun hb => (hbare b hb).1

/-- The declaration that was read is registered. What means its type from now on is bound. -/
theorem register {s : Grammar.State} (h : Matches source ds pieces read s.document s.pending)
    (hy : s.document.ReadAs s.pending x y) (hs : s.Sound []) (hbelow : y.Below s.document.extent)
    (hnew : x.name ∉ ds.map Draft.name) (hbuiltin : Builtin.ofKeyword? x.name = none) :
    Matches source (ds ++ [x]) pieces read (s.register Check.standard y).document
        (s.register Check.standard y).pending ∧
      (s.register Check.standard y).messages = s.messages := by
  let d := s.document.register y
  have hplain : d.IsPlain := h.plain.register y
  have hreadAs : List.Forall₂ (d.ReadAs s.pending) (ds ++ [x]) d.declarations := by
    refine List.rel_append ?_ (.cons (hy.register h.plain y) .nil)
    exact h.readAs.imp fun _ _ hxy => hxy.register h.plain y
  have htypeNames : d.typeNames =
      ((ds ++ [x]).zip d.declarations).filterMap fun (x, y) => y.type?.map (x.name, ·) := by
    have hzip : (ds ++ [x]).zip d.declarations = ds.zip s.document.declarations ++ [(x, y)] :=
      List.zip_append h.readAs.length_eq
    rw [hzip, List.filterMap_append, ← h.typeNames]
    simp only [d, Document.register, hy.nameText_eq]
    cases hy : y.type? <;> simp [hy]
  cases ht : y.type? with
  | none =>
    have hregister : s.register Check.standard y = s.modifyDocument (·.register y) := by
      rw [Grammar.State.register]
      simp only [ht]
    have hsame : d.typeNames = s.document.typeNames := by
      simp only [d, Document.register, ht]
    rw [hregister]
    refine ⟨⟨hplain, hreadAs, htypeNames, h.spell, ?_, h.bare⟩, rfl⟩
    refine h.waiting.trans (List.filter_congr fun u _ => ?_)
    rw [← h.plain.leaf?_congr hplain hsame]
    rfl
  | some t =>
    have hleaf : d.leaf? x.name = some t := by
      rw [h.plain.leaf?_register ht, h.leaf?_eq_none hnew hbuiltin, hy.nameText_eq]
      simp
    have hcore : d.coreName t = x.name := by
      rw [← hy.nameText_eq]
      cases y <;> cases ht <;> rfl
    have hbare : ∀ b ∈ s.pending, b.name.path = [] ∧ b.package = none :=
      fun b hb => ⟨(h.bare b hb).path, (h.bare b hb).package⟩
    let session := s.toSession.modifyDocument (·.register y)
    let bound := session.settleRegistered Check.standard t s.pending
    have hregister : s.register Check.standard y =
        { s with toSession := bound.1, pending := bound.2 } := by
      rw [Grammar.State.register]
      simp only [ht]
      rfl
    obtain ⟨hbinds, hkept⟩ : session.Binds s.pending bound.1 bound.2 ∧ bound.2 = _ :=
      Session.settleRegistered_of_plain (hs.register hbelow) hplain hcore hleaf hbare
    rw [hregister]
    refine ⟨⟨hbinds.plain, ?_, ?_, h.spell, ?_, fun b hb => ?_⟩, hbinds.messages⟩
    · rw [hbinds.declarations]
      exact hreadAs.imp hbinds.readAs
    · rw [hbinds.typeNames, hbinds.declarations]
      exact htypeNames
    · have hmap : bound.2.map Binding.use =
          (s.pending.map Binding.use).filter fun u => u.2.text != x.name := by
        rw [hkept, List.filter_map]
        refine congrArg (List.map Binding.use) (List.filter_congr fun b hb => ?_)
        rw [Function.comp_apply, Binding.use, (h.bare b hb).first]
      rw [hmap, h.waiting, List.filter_filter]
      refine List.filter_congr fun u _ => ?_
      rw [hplain.leaf?_congr hbinds.plain hbinds.typeNames, h.plain.leaf?_register ht,
        hy.nameText_eq]
      by_cases hu : u.2.text = x.name
      · simp [hu]
      · simp [hu, Ne.symm hu]
    · rw [hkept] at hb
      exact h.bare b (List.mem_filter.1 hb).1

end Matches

end Document

namespace Grammar

/-- Where a source stands between two declarations when nothing but drafts was read. -/
structure State.Matches (s : State) (ds : List Draft) (read rest : List Token) : Prop where
  package : s.package = none
  messages : s.messages = []
  rest : s.cursor.rest = rest
  document : s.document.Matches s.source ds (ds.flatMap Draft.pieces) read s.pending

/-- One more draft is read, passes its checks and is registered. -/
theorem State.Matches.declare {s : State} {ds : List Draft} {read tokens rest : List Token}
    {x : Draft} (h : s.Matches ds read (tokens ++ rest)) (hs : s.Sound []) (hx : x.IsPlain)
    (hnew : x.name ∉ ds.map Draft.name) (hbuiltin : Builtin.ofKeyword? x.name = none)
    (htokens : Spell tokens x.pieces) (hclear : Clear (tokens ++ rest)) :
    (s.declare Check.standard none).Matches (ds ++ [x]) (read ++ tokens) rest ∧
      (s.declare Check.standard none).source = s.source := by
  have hfacing : s = s.facing (tokens ++ rest) s.document s.pending := by
    rw [← h.rest]
    rfl
  have hscopes : ∀ b ∈ s.pending, ∀ i, b.scope = some i →
      i.index < s.document.structures.size := fun b hb => hs.scopes b hb
  obtain ⟨y, scope, d', ws', hrun, hdrafted⟩ := exists_declaration Check.standard h.document.plain
    h.package hscopes hx htokens hclear
  rw [← hfacing] at hrun
  let s₁ := s.facing rest d' ws'
  obtain ⟨hedits, -, hbelow⟩ := After.of_ok (builds_declaration hs.ready none) hrun
  have hmatches := h.document.drafted hs.linked (hedits.keeps hs.ready).agree hdrafted
  have hpassed : Check.runAll Check.standard d' (.declaration y) = {} :=
    Check.runAll_of_readAs hdrafted.gains.plain hx hdrafted.readAs
  let s₂ : State :=
    { s₁ with toSession := (s₁.toSession.visit Check.standard (.declaration y) false).2 }
  have hs₂ : s₂.Sound [] := (hedits.ready hs.ready).sound.reads (reads_visit s₁ _ _ _)
  have hmessages : s₂.messages = [] := by
    have hverdict : s₂.messages =
        s.messages ++ (Check.runAll Check.standard d' (.declaration y)).messages := rfl
    rw [hverdict, hpassed, h.messages]
    rfl
  have haccept : acceptDeclaration Check.standard y s₁ = (true, s₂.register Check.standard y) :=
    if_pos (congrArg Verdict.passed hpassed)
  have hdeclare : s.declare Check.standard none = s₂.register Check.standard y := by
    rw [State.declare, construct_of_accepted hrun (congrArg Prod.fst haccept), haccept]
  obtain ⟨hregistered, hsilent⟩ :=
    Document.Matches.register (s := s₂) hmatches hdrafted.readAs hs₂ hbelow hnew hbuiltin
  have honward : s₂.Onward (s₂.register Check.standard y) := onward_register y s₂
  rw [hdeclare]
  refine ⟨⟨honward.package.trans h.package, hsilent.trans hmessages, ?_, ?_⟩, honward.source⟩
  · rw [cursor_register]
    rfl
  · rw [honward.source, List.flatMap_append, List.flatMap_singleton]
    exact hregistered

end Grammar

end Idl
