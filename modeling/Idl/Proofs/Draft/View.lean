import Idl.Proofs.Draft.Type

/-!
What was read as it was drafted: without regard to types a declaration looks like its draft, and
the types that were meant stand in its slots. So whatever types are called by, the declaration
looks like its draft if each slot is called like the type that was meant for it. A declaration
is read as a growing draft: with each part that is read the draft gets this part.
-/

namespace Idl

/-- Lists that are mapped alike have alike elements at each position. -/
theorem map_eq_map_iff_getElem? {α β γ : Type} {f : α → γ} {g : β → γ} {as : List α}
    {bs : List β} : as.map f = bs.map g ↔ as.length = bs.length ∧
      ∀ (i : Nat) a b, as[i]? = some a → bs[i]? = some b → f a = g b := by
  constructor
  · intro h
    refine ⟨by simpa using congrArg List.length h, fun i a b ha hb => ?_⟩
    have hi := congrArg (·[i]?) h
    simpa [ha, hb] using hi
  · rintro ⟨hlength, h⟩
    refine List.ext_getElem (by simpa using hlength) fun i hi _ => ?_
    rw [List.length_map] at hi
    simpa using h i as[i] (bs.get ⟨i, hlength ▸ hi⟩) (by simp) (by simp)

theorem Member.view?_eq_some {m : Member} {call : Option DataType → Option String}
    {v : String × Option String} : m.view? call = some v ↔
      ∃ f, m = .field f ∧ f.default = none ∧ (f.name.value, call f.type) = v := by
  cases m with
  | field f => simp [Member.view?]
  | _ => simp [Member.view?]

namespace Draft

theorem mem_slots_struct {name : String} {fields : List Field} {id : StructureId} {i : Nat}
    {f : Field} (h : fields[i]? = some f) :
    (.field ⟨id, i⟩, f.type) ∈ (struct name fields).slots (.struct id) :=
  List.mem_map.2 ⟨(f, i), List.mk_mem_zipIdx_iff_getElem?.2 h, rfl⟩

theorem mem_slots_interface {name : String} {methods : List Method} {id : InterfaceId}
    {i j : Nat} {m : Method} {p : Parameter} (hm : methods[i]? = some m)
    (hp : m.parameters[j]? = some p) :
    (.methodParameter id i j, p.type) ∈ (interface name methods).slots (.interface id) :=
  List.mem_flatMap.2 ⟨(m, i), List.mk_mem_zipIdx_iff_getElem?.2 hm,
    List.mem_map.2 ⟨(p, j), List.mk_mem_zipIdx_iff_getElem?.2 hp, rfl⟩⟩

theorem slots_addField (name : String) (fields : List Field) (f : Field) (id : StructureId) :
    (struct name (fields ++ [f])).slots (.struct id) =
      (struct name fields).slots (.struct id) ++ [(.field ⟨id, fields.length⟩, f.type)] := by
  simp [slots, List.zipIdx_append]

theorem slots_addMethod (name : String) (methods : List Method) (method : String)
    (id : InterfaceId) :
    (interface name (methods ++ [⟨method, []⟩])).slots (.interface id) =
      (interface name methods).slots (.interface id) := by
  simp [slots, List.zipIdx_append]

theorem slots_addParameter (name : String) (methods : List Method) (method : String)
    (parameters : List Parameter) (p : Parameter) (id : InterfaceId) :
    (interface name (methods ++ [⟨method, parameters ++ [p]⟩])).slots (.interface id) =
      (interface name (methods ++ [⟨method, parameters⟩])).slots (.interface id) ++
        [(.methodParameter id methods.length parameters.length, p.type)] := by
  simp [slots, List.zipIdx_append]

end Draft

namespace Document

variable {d d' : Document} {ws ws' : List Binding} {x : Draft} {y : Declaration}

/-- The declaration was read from the draft. -/
structure ReadAs (d : Document) (ws : List Binding) (x : Draft) (y : Declaration) : Prop where
  view : d.viewAs (fun _ => none) y = some (x.view fun _ => none)
  holds : ∀ p ∈ x.slots y, d.Holds ws p.1 p.2

theorem ReadAs.mono (h : d.ReadAs ws x y) (hd : d.IsPlain) (hd' : d'.IsPlain)
    (hk : d.Keeps d') (hws : ws ⊆ ws')
    (hview : d'.viewAs (fun _ => none) y = d.viewAs (fun _ => none) y) : d'.ReadAs ws' x y :=
  ⟨hview.trans h.view, fun p hp => (h.holds p hp).mono hd hd' hk hws⟩

section View

variable {call : Option DataType → Option String} {call' : TypeExpr → Option String}

theorem viewAs_struct {id : StructureId} {name : String} {fields : List Draft.Field}
    (h : d.viewAs (fun _ => none) (.struct id) = some ((Draft.struct name fields).view
      fun _ => none))
    (hcall : ∀ i f t?, fields[i]? = some f → d.slot? (.field ⟨id, i⟩) = some t? →
      call t? = call' f.type) :
    d.viewAs call (.struct id) = some ((Draft.struct name fields).view call') := by
  simp only [viewAs, Draft.view, Option.map_eq_some_iff, View.struct.injEq] at h ⊢
  obtain ⟨s, hs, hname, hbase, htraits, hmembers⟩ := h
  refine ⟨s, hs, hname, hbase, htraits, ?_⟩
  rw [map_eq_map_iff_getElem?] at hmembers ⊢
  refine ⟨hmembers.1, fun i m f hm hf => ?_⟩
  obtain ⟨g, rfl, hg, hv⟩ := Member.view?_eq_some.1 (hmembers.2 i m f hm hf)
  have hslot : d.slot? (.field ⟨id, i⟩) = some g.type := by
    simp [slot?, field?, hs, Structure.field?, hm, Member.field?]
  refine Member.view?_eq_some.2 ⟨g, rfl, hg, ?_⟩
  rw [hcall i f g.type hf hslot, (Prod.mk.inj hv).1]

theorem viewAs_interface {id : InterfaceId} {name : String} {methods : List Draft.Method}
    (h : d.viewAs (fun _ => none) (.interface id) = some ((Draft.interface name methods).view
      fun _ => none))
    (hcall : ∀ i m j p t?, methods[i]? = some m → m.parameters[j]? = some p →
      d.slot? (.methodParameter id i j) = some t? → call t? = call' p.type) :
    d.viewAs call (.interface id) = some ((Draft.interface name methods).view call') := by
  simp only [viewAs, Draft.view, Option.map_eq_some_iff, View.interface.injEq] at h ⊢
  obtain ⟨x, hx, hname, hmethods⟩ := h
  refine ⟨x, hx, hname, ?_⟩
  rw [map_eq_map_iff_getElem?] at hmethods ⊢
  refine ⟨hmethods.1, fun i m m' hm hm' => ?_⟩
  obtain ⟨hname, hparameters⟩ := Prod.mk.inj (hmethods.2 i m m' hm hm')
  refine Prod.ext hname (map_eq_map_iff_getElem?.2 ?_)
  rw [map_eq_map_iff_getElem?] at hparameters
  refine ⟨hparameters.1, fun j p p' hp hp' => ?_⟩
  obtain ⟨hdirection, hv⟩ := Prod.mk.inj (hparameters.2 j p p' hp hp')
  have hslot : d.slot? (.methodParameter id i j) = some p.type := by
    simp [slot?, hx, Interface.parameter?, hm, hp]
  rw [hdirection, (Prod.mk.inj hv).1, hcall i m' j p' p.type hm' hp' hslot]

theorem viewAs_enum {id : EnumerationId} {front : Draft.Front} {name : String} {behind : Bool}
    {values : List String} (hd : d.IsPlain)
    (h : d.viewAs (fun _ => none) (.enum id) = some ((Draft.enum front name behind values).view
      fun _ => none))
    (hcall : call (some (.builtin .integer)) = call' ⟨[], Builtin.integer.keyword⟩) :
    d.viewAs call (.enum id) = some ((Draft.enum front name behind values).view call') := by
  simp only [viewAs, Draft.view, Option.map_eq_some_iff, View.enum.injEq] at h ⊢
  obtain ⟨e, he, hname, _, hrest⟩ := h
  exact ⟨e, he, hname, by rw [(hd.enumerations id e he).parameter, hcall], hrest⟩

/-- What was read as it was drafted is of the same form, so its slots are those of the draft. -/
theorem ReadAs.viewAs_eq (h : d.ReadAs ws x y) (hd : d.IsPlain)
    (hcall : ∀ p ∈ x.slots y, ∀ t?, d.slot? p.1 = some t? → call t? = call' p.2)
    (hinteger : call (some (.builtin .integer)) = call' ⟨[], Builtin.integer.keyword⟩) :
    d.viewAs call y = some (x.view call') := by
  have hview := h.view
  cases x with
  | struct name fields =>
    cases y with
    | struct id =>
      exact viewAs_struct hview fun i f t? hf => hcall _ (Draft.mem_slots_struct hf) t?
    | _ => simp [viewAs, Draft.view] at hview
  | interface name methods =>
    cases y with
    | interface id =>
      exact viewAs_interface hview fun i m j p t? hm hp =>
        hcall _ (Draft.mem_slots_interface hm hp) t?
    | _ => simp [viewAs, Draft.view] at hview
  | enum front name behind values =>
    cases y with
    | enum id => exact viewAs_enum hd hview hinteger
    | _ => simp [viewAs, Draft.view] at hview

/-- When nothing more can be bound, a declaration looks like its draft as far as the names of
types are known. -/
theorem Exhausted.view?_eq (hx : d.Exhausted ws) (hd : d.IsPlain) (h : d.ReadAs ws x y) :
    d.view? y = some (x.view (TypeExpr.shown fun name => (d.leaf? name).isSome)) := by
  refine h.viewAs_eq hd (fun p hp t? ht => ?_) ?_
  · obtain ⟨u?, hu, hstands⟩ := h.holds p hp
    cases ht.symm.trans hu
    exact hx.typeName_eq_shown hstands
  · have hinteger : d.leaf? Builtin.integer.keyword = some (.builtin .integer) := by
      rw [hd.leaf?_eq, Builtin.ofKeyword?_keyword]
      rfl
    have hstands : d.Stands ws Builtin.integer.keyword [] (some (.builtin .integer))
        (.templateArgument ⟨0⟩) := hinteger
    exact @Exhausted.typeName_eq_shown d ws _ _ ⟨[], Builtin.integer.keyword⟩ hx hstands

end View

end Document

namespace Grammar

open Document

/-- What is read in front of a body. -/
theorem exists_spell_block {keyword name : String} {tokens : List Token} {inner : List Piece}
    (h : Spell tokens (.word keyword :: .word name :: .opening :: inner)) :
    ∃ t u v rest, tokens = [t, u, v] ++ rest ∧ t.is .identifier keyword = true ∧
      u.is .identifier name = true ∧ isOpening v = true ∧
      Spell [t, u, v] [.word keyword, .word name, .opening] ∧ Spell rest inner := by
  obtain ⟨t, _, rfl, ht, h⟩ := spell_cons.1 h
  obtain ⟨u, _, rfl, hu, h⟩ := spell_cons.1 h
  obtain ⟨v, rest, rfl, hv, h⟩ := spell_cons.1 h
  refine ⟨t, u, v, rest, rfl, ht, hu, hv, ?_, h⟩
  exact spell_cons.2 ⟨t, _, rfl, ht, spell_cons.2 ⟨u, _, rfl, hu,
    spell_cons.2 ⟨v, _, rfl, hv, spell_nil.2 rfl⟩⟩⟩

/-- How far a declaration was read: its draft so far, from these pieces. -/
structure State.Drafted (s : State) (scope : Option StructureId) (pieces : List Piece)
    (read : List Token) (d₀ : Document) (ws₀ : List Binding) (x : Draft) (y : Declaration)
    (d : Document) (ws : List Binding) : Prop where
  spell : Spell read pieces
  gains : d₀.Gains s.source scope (uses read pieces) ws₀ d ws
  readAs : d.ReadAs ws x y

namespace State

variable {s : State} {scope : Option StructureId} {pieces pieces' : List Piece}
  {read tokens : List Token} {d₀ d d' d'' : Document} {ws₀ ws ws' : List Binding} {x x' : Draft}
  {y : Declaration}

/-- A declaration without slots has just been inserted. -/
theorem drafted_of_keeps (hk : d₀.Keeps d) (hd : d.IsPlain)
    (hview : d.viewAs (fun _ => none) y = some (x.view fun _ => none)) (hslots : x.slots y = [])
    (hspell : Spell read pieces) (hnone : ∀ p ∈ pieces, p.classifier = none) :
    s.Drafted scope pieces read d₀ ws₀ x y d ws₀ := by
  refine ⟨hspell, ?_, hview, by simp [hslots]⟩
  rw [uses_eq_nil hnone]
  exact .of_keeps hk hd ws₀

/-- A part without slots is read. -/
theorem Drafted.extend (h : s.Drafted scope pieces read d₀ ws₀ x y d ws) (h₀ : d₀.IsPlain)
    (hk : d.Keeps d') (hd' : d'.IsPlain)
    (hview : d'.viewAs (fun _ => none) y = some (x'.view fun _ => none))
    (hslots : x'.slots y = x.slots y) (hspell : Spell tokens pieces')
    (hnone : ∀ p ∈ pieces', p.classifier = none) :
    s.Drafted scope (pieces ++ pieces') (read ++ tokens) d₀ ws₀ x' y d' ws := by
  refine ⟨h.spell.append hspell, ?_, hview, fun p hp => ?_⟩
  · rw [uses_append h.spell, uses_eq_nil hnone, List.append_nil]
    exact h.gains.trans_keeps h₀ hk hd'
  · exact (h.readAs.holds p (hslots ▸ hp)).mono h.gains.plain hd' hk (List.Subset.refl _)

/-- Tokens are read that change nothing. -/
theorem Drafted.skip (h : s.Drafted scope pieces read d₀ ws₀ x y d ws) (h₀ : d₀.IsPlain)
    (hspell : Spell tokens pieces') (hnone : ∀ p ∈ pieces', p.classifier = none) :
    s.Drafted scope (pieces ++ pieces') (read ++ tokens) d₀ ws₀ x y d ws :=
  h.extend h₀ (keeps_of_slot? rfl rfl fun _ => rfl) h.gains.plain h.readAs.view rfl hspell hnone

/-- A slot is made for a type that was read. -/
theorem Drafted.write {classifier : String} {e : TypeExpr} {use : TypeUse} {slot : Slot}
    (h : s.Drafted scope pieces read d₀ ws₀ x y d ws) (h₀ : d₀.IsPlain)
    (hfits : s.Fits classifier scope (uses tokens pieces') d ws e use d' ws')
    (hn : d''.typeNames = d'.typeNames) (ht : d''.templates = d'.templates)
    (hs : ∀ o, d''.slot? o = if o = slot then some use.type? else d'.slot? o)
    (hmade : d'.slot? slot = none) (hd'' : d''.IsPlain)
    (hview : d''.viewAs (fun _ => none) y = some (x'.view fun _ => none))
    (hslots : x'.slots y = x.slots y ++ [(slot, e)]) (hspell : Spell tokens pieces') :
    s.Drafted scope (pieces ++ pieces') (read ++ tokens) d₀ ws₀ x' y d''
      (ws' ++ use.bindings classifier scope slot s) := by
  obtain ⟨hgains, hstands⟩ := hfits.2 slot
  have hk := keeps_of_made hn ht hs hmade
  have hgains' := hgains.trans_keeps h.gains.plain hk hd''
  refine ⟨h.spell.append hspell, ?_, hview, fun p hp => ?_⟩
  · rw [uses_append h.spell]
    exact h.gains.trans h₀ hgains'
  · rw [hslots] at hp
    rcases List.mem_append.1 hp with hp | hp
    · exact hgains'.holds h.gains.plain (h.readAs.holds p hp)
    · rw [List.mem_singleton.1 hp]
      exact ⟨use.type?, by rw [hs, if_pos rfl],
        hstands.mono hgains.plain hd'' hk (List.Subset.refl _)⟩

end State

/-- A body is read to its end if each of its items takes its part of the draft. -/
theorem exists_drafted_items {α : Type} {spell : α → List Piece} {P : α → Prop}
    (statement : String) (draft : List α → Draft) {s : State} {scope : Option StructureId}
    {pieces : List Piece} {read tokens rest : List Token} {d₀ d : Document}
    {ws₀ ws : List Binding} {y : Declaration} {todo : List α} {item : Item}
    (hstep : ∀ {before read a tokens rest d ws},
      s.Drafted scope (pieces ++ before.flatMap spell) read d₀ ws₀ (draft before) y d ws → P a →
      Spell tokens (spell a) → Clear (tokens ++ rest) →
      ∃ d' ws', TakesItem item s tokens rest d d' ws ws' ∧
        s.Drafted scope ((pieces ++ before.flatMap spell) ++ spell a) (read ++ tokens) d₀ ws₀
          (draft (before ++ [a])) y d' ws')
    (h₀ : d₀.IsPlain) (h : s.Drafted scope pieces read d₀ ws₀ (draft []) y d ws)
    (hP : ∀ a ∈ todo, P a) (htokens : Spell tokens (todo.flatMap spell ++ [.closing]))
    (hclear : Clear (tokens ++ rest)) :
    ∃ d' ws', items statement item (s.facing (tokens ++ rest) d ws) =
        .ok () (s.facing rest d' ws') ∧
      s.Drafted scope (pieces ++ (todo.flatMap spell ++ [.closing])) (read ++ tokens) d₀ ws₀
        (draft todo) y d' ws' := by
  obtain ⟨inner, closing, rfl, hinner, hclosing⟩ := spell_append.1 htokens
  obtain ⟨t, rfl, ht⟩ := spell_singleton.1 hclosing
  let R (before : List α) (read : List Token) (d : Document) (ws : List Binding) : Prop :=
    s.Drafted scope (pieces ++ before.flatMap spell) read d₀ ws₀ (draft before) y d ws
  have hR : R [] read d ws := by simpa [R] using h
  have hstep' {before : List α} {read : List Token} {a : α} {tokens rest : List Token}
      {d : Document} {ws : List Binding} (hR : R before read d ws) (ha : P a)
      (ht : Spell tokens (spell a)) (hclear : Clear (tokens ++ rest)) :
      ∃ d' ws', TakesItem item s tokens rest d d' ws ws' ∧
        R (before ++ [a]) (read ++ tokens) d' ws' := by
    obtain ⟨d', ws', hitem, hR'⟩ := hstep hR ha ht hclear
    exact ⟨d', ws', hitem, by simpa [R] using hR'⟩
  rw [List.append_assoc] at hclear ⊢
  have hall : ∀ i a, todo[i]? = some a → P a := fun _ a ha => hP a (List.mem_of_getElem? ha)
  obtain ⟨d', ws', hrun, hR'⟩ :=
    run_items (P := fun _ a => P a) hstep' hR hall hinner ht hclear
  refine ⟨d', ws', hrun, ?_⟩
  simpa [R] using State.Drafted.skip hR' h₀ hclosing (by simp [Piece.closing])

end Grammar

end Idl
