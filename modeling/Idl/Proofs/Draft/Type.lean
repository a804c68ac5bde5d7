import Idl.Proofs.Draft.Slot
import Idl.Proofs.Grammar.Type
import Idl.Proofs.Reading.Exact

/-!
Types that are read as they were written. Whatever slot a type is read for, it will stand there
together with the name that then waits for the slot, and in the end one name waits for each
unknown name among the tokens.
-/

namespace Idl

/-- What a name is reported with. -/
def Binding.use (b : Binding) : String × Token :=
  (b.classifier, b.name.first)

/-- A single word that was written outside of all packages. -/
structure Binding.IsBare (source : Option SourceId) (b : Binding) : Prop where
  path : b.name.path = []
  first : b.name.first = b.name.last
  package : b.package = none
  source : b.source = source

/-- What was added while some names of types were found: a name waits for each that meant
nothing, and all that was there is still there. -/
structure Document.Gains (source : Option SourceId) (scope : Option StructureId)
    (found : List (String × Token)) (d : Document) (ws : List Binding) (d' : Document)
    (ws' : List Binding) : Prop extends d.Keeps d' where
  plain : d'.IsPlain
  waiting : ∃ new, ws' = ws ++ new ∧
    new.map Binding.use = found.filter (fun u => (d.leaf? u.2.text).isNone) ∧
    ∀ b ∈ new, b.IsBare source ∧ b.scope = scope

/-- Nothing but instances was added. -/
def Document.OnlyInstances (d d' : Document) : Prop :=
  ∃ templates shared, d' = { d with templates, shared }

namespace Document.OnlyInstances

variable {d d' d'' : Document}

theorem refl (d : Document) : d.OnlyInstances d :=
  ⟨_, _, rfl⟩

theorem trans (h : d.OnlyInstances d') (h' : d'.OnlyInstances d'') : d.OnlyInstances d'' := by
  obtain ⟨_, _, rfl⟩ := h
  obtain ⟨_, _, rfl⟩ := h'
  exact ⟨_, _, rfl⟩

theorem viewAs_eq (h : d.OnlyInstances d') (call : Option DataType → Option String)
    (x : Declaration) : d'.viewAs call x = d.viewAs call x := by
  obtain ⟨_, _, rfl⟩ := h
  cases x <;> rfl

end Document.OnlyInstances

namespace Document.Gains

variable {source : Option SourceId} {scope : Option StructureId}
  {found found' : List (String × Token)} {d d' d'' : Document} {ws ws' ws'' : List Binding}

/-- Nothing waits for a change that makes no slot for a type. -/
theorem of_keeps (h : d.Keeps d') (hd : d'.IsPlain) (ws : List Binding) :
    Gains source scope [] d ws d' ws :=
  { h with plain := hd, waiting := ⟨[], (List.append_nil ws).symm, rfl, by simp⟩ }

theorem trans (hd : d.IsPlain) (h : Gains source scope found d ws d' ws')
    (h' : Gains source scope found' d' ws' d'' ws'') :
    Gains source scope (found ++ found') d ws d'' ws'' := by
  obtain ⟨new, rfl, huse, hbare⟩ := h.waiting
  obtain ⟨new', rfl, huse', hbare'⟩ := h'.waiting
  have hleaf (name : String) : d'.leaf? name = d.leaf? name :=
    hd.leaf?_congr h.plain h.typeNames name
  simp only [hleaf] at huse'
  refine { h.toKeeps.trans h'.toKeeps with
    plain := h'.plain, waiting := ⟨new ++ new', List.append_assoc .., ?_, fun b hb => ?_⟩ }
  · rw [List.map_append, List.filter_append, huse, huse']
  · exact (List.mem_append.1 hb).elim (hbare b) (hbare' b)

/-- What follows upon all that was found. -/
theorem trans_keeps (hd : d.IsPlain) (h : Gains source scope found d ws d' ws')
    (hk : d'.Keeps d'') (hd'' : d''.IsPlain) : Gains source scope found d ws d'' ws' := by
  simpa using h.trans hd (of_keeps hk hd'' ws')

theorem subset (h : Gains source scope found d ws d' ws') : ws ⊆ ws' := by
  obtain ⟨new, rfl, _⟩ := h.waiting
  exact List.subset_append_left _ _

theorem holds (h : Gains source scope found d ws d' ws') (hd : d.IsPlain) {slot : Slot}
    {e : TypeExpr} (hs : d.Holds ws slot e) : d'.Holds ws' slot e :=
  hs.mono hd h.plain h.toKeeps h.subset

end Document.Gains

namespace Grammar

open Document

variable {s : State} {d : Document} {ws : List Binding} {t : Token} {tokens rest : List Token}
  {classifier : String} {scope : Option StructureId}

theorem run_typeName (ht : t.kind = .identifier) (hclear : Clear rest)
    (hdot : ∀ t ∈ rest.head?, t.is .dot "." = false) :
    typeName classifier (s.facing (t :: rest) d ws) = .ok ⟨[], t, t⟩ (s.facing rest d ws) := by
  have hkind : (t.kind == .identifier) = true := beq_iff_eq.2 ht
  have hread : expect (fun t => t.kind == .identifier) .expectType [(.classifier, classifier)]
      (s.facing (t :: rest) d ws) = .ok t (s.facing rest d ws) := run_expect hkind hclear _ _
  refine iterate_of_done ?_
  simp only [run_bind_of_ok hread, run_bind_of_ok (run_isAt_false hdot)]
  rfl

theorem openings_cons (template : Template) (shells : List Template) :
    TypeExpr.openings (template :: shells) =
      .word template.keyword :: .less :: TypeExpr.openings shells :=
  rfl

theorem run_templates {shells : List Template}
    (htokens : Spell tokens (TypeExpr.openings shells)) (ht : t.kind = .identifier)
    (hleaf : Template.ofKeyword? t.text = none) (hclear : Clear (tokens ++ t :: rest))
    (hdot : ∀ t ∈ rest.head?, t.is .dot "." = false) :
    templates classifier (s.facing (tokens ++ t :: rest) d ws) =
      .ok (shells.reverse, ⟨[], t, t⟩) (s.facing rest d ws) := by
  -- The templates that were read before stand behind those that are still to be read.
  suffices hall : ∀ outer : List Template,
      iterate (templateRound classifier) outer (s.facing (tokens ++ t :: rest) d ws) =
        .ok (shells.reverse ++ outer, ⟨[], t, t⟩) (s.facing rest d ws) by
    have h := hall []
    rwa [List.append_nil] at h
  induction shells generalizing tokens with
  | nil =>
    intro outer
    rw [TypeExpr.openings, List.flatMap_nil, spell_nil] at htokens
    subst htokens
    refine iterate_of_done ?_
    have htemplate : TypeName.template? ⟨[], t, t⟩ = none := hleaf
    rw [List.nil_append] at hclear
    rw [List.nil_append, templateRound,
      run_bind_of_ok (run_typeName ht (clear_cons.1 hclear).2 hdot)]
    simp only [htemplate]
    rfl
  | cons template shells ih =>
    intro outer
    rw [openings_cons, spell_cons] at htokens
    obtain ⟨u, _, rfl, hu, htokens⟩ := htokens
    obtain ⟨v, tokens, rfl, hv, htokens⟩ := spell_cons.1 htokens
    simp only [List.cons_append, clear_cons] at hclear
    obtain ⟨_, hv', hclear⟩ := hclear
    simp only [Token.is, Bool.and_eq_true, beq_iff_eq] at hu hv
    have htemplate : TypeName.template? ⟨[], u, u⟩ = some template := by
      change Template.ofKeyword? u.text = _
      rw [hu.2]
      cases template <;> rfl
    have hname : typeName classifier (s.facing (u :: v :: (tokens ++ t :: rest)) d ws) =
        .ok ⟨[], u, u⟩ (s.facing (v :: (tokens ++ t :: rest)) d ws) := by
      refine run_typeName hu.1 (clear_cons.2 ⟨hv', hclear⟩) ?_
      rintro _ ⟨⟩
      simp [Token.is, hv.1, Piece.less]
    have hless : expectToken .relation "<" (s.facing (v :: (tokens ++ t :: rest)) d ws) =
        .ok v (s.facing (tokens ++ t :: rest) d ws) :=
      run_expectToken (by simp [Token.is, hv, Piece.less]) hclear
    rw [List.reverse_cons, List.append_assoc, List.singleton_append,
      ← ih htokens hclear (template :: outer)]
    refine iterate_of_again ?_ ?_
    · rw [List.cons_append, List.cons_append, templateRound, run_bind_of_ok hname]
      simp only [htemplate, run_bind_of_ok hless]
      rfl
    · simp only [State.remaining_facing, List.length_append, List.length_cons]
      omega

theorem run_await {tokens : List Token} (use : TypeUse) (slot : Slot) :
    await use.name? classifier scope slot (s.facing tokens d ws) =
      .ok ⟨⟩ (s.facing tokens d (ws ++ use.bindings classifier scope slot s)) := by
  cases use with
  | known t => exact congrArg (EStateM.Result.ok _ <| s.facing tokens d ·) (List.append_nil ws).symm
  | awaited name => rfl

/-- An instance is there when it is given out, new or not. -/
theorem instantiate_plain (hd : d.IsPlain) (template : Template) (argument : Option DataType)
    (weak : Bool) :
    let found := d.instantiate template argument weak
    d.Keeps found.2 ∧ found.2.IsPlain ∧ d.OnlyInstances found.2 ∧
      found.2.templates.get? found.1 = some ⟨template, argument, weak⟩ := by
  intro found
  simp only [found, Document.instantiate]
  split
  · rename_i id hid
    obtain ⟨t, rfl, hshared⟩ := Option.bind_eq_some_iff.1 hid
    obtain ⟨before, after, hl, _⟩ := List.lookup_eq_some_iff.1 hshared
    have hentry := hd.shared ((template, t, weak), id) (by simp [hl])
    exact ⟨keeps_of_slot? rfl rfl fun _ => rfl, hd, .refl d, hentry⟩
  · refine ⟨⟨rfl, fun slot t? h => ?_, fun id i hi => get?_insertInstance_of_some hi _⟩,
      hd.insertInstance _, ⟨_, _, rfl⟩, get?_insertInstance_next d _⟩
    rw [slot?_insertInstance, if_neg]
    · exact h
    · rintro rfl
      simp [slot?, get?_next] at h

/-- Whatever slot the type is put into, it stands there together with the names that wait, and
these are the names that were found unknown. -/
def State.Fits (s : State) (classifier : String) (scope : Option StructureId)
    (found : List (String × Token)) (d₀ : Document) (ws₀ : List Binding) (e : TypeExpr)
    (use : TypeUse) (d : Document) (ws : List Binding) : Prop :=
  d₀.OnlyInstances d ∧
    ∀ slot, d₀.Gains s.source scope found ws₀ d (ws ++ use.bindings classifier scope slot s) ∧
      d.Stands (ws ++ use.bindings classifier scope slot s) e.leaf e.shells use.type? slot

variable {found : List (String × Token)} {d₀ : Document} {ws₀ : List Binding} {use : TypeUse}

/-- A template around a type fits where the type fits. -/
theorem State.Fits.instantiate (h₀ : d₀.IsPlain) {e : TypeExpr}
    (h : s.Fits classifier scope found d₀ ws₀ e use d ws) (template : Template) :
    let made := d.instantiate template use.type? false
    s.Fits classifier scope found d₀ ws₀ ⟨template :: e.shells, e.leaf⟩
      (.known (.template made.1)) made.2
      (ws ++ use.bindings classifier scope (.templateArgument made.1) s) := by
  intro made
  obtain ⟨hgains, hstands⟩ := h.2 (.templateArgument made.1)
  have hd := hgains.plain
  obtain ⟨hkeeps, hplain, honly, hget⟩ := instantiate_plain hd template use.type? false
  refine ⟨h.1.trans honly, fun slot => ?_⟩
  have hnone : (TypeUse.known (.template made.1)).bindings classifier scope slot s = [] := rfl
  rw [hnone, List.append_nil]
  refine ⟨hgains.trans_keeps h₀ hkeeps hplain, stands_cons.2 ?_⟩
  exact ⟨made.1, _, rfl, hget, rfl, hstands.mono hd hplain hkeeps (List.Subset.refl _)⟩

theorem exists_closeTemplates (h₀ : d₀.IsPlain) {outer : List Template} {e : TypeExpr}
    (h : s.Fits classifier scope found d₀ ws₀ e use d ws)
    (htokens : Spell tokens (List.replicate outer.length .greater))
    (hclear : Clear (tokens ++ rest)) :
    ∃ use' d' ws', closeTemplates classifier scope false outer use
        (s.facing (tokens ++ rest) d ws) = .ok use' (s.facing rest d' ws') ∧
      s.Fits classifier scope found d₀ ws₀ ⟨outer.reverse ++ e.shells, e.leaf⟩ use' d' ws' := by
  induction outer generalizing use e tokens d ws with
  | nil =>
    rw [List.length_nil, List.replicate_zero, spell_nil] at htokens
    subst htokens
    exact ⟨use, d, ws, rfl, h⟩
  | cons template outer ih =>
    rw [List.length_cons, List.replicate_succ, spell_cons] at htokens
    obtain ⟨t, tokens, rfl, ht, htokens⟩ := htokens
    rw [List.cons_append, clear_cons] at hclear
    obtain ⟨use', d', ws', hrun, hfits⟩ := ih (h.instantiate h₀ template) htokens hclear.2
    refine ⟨use', d', ws', ?_, by simpa using hfits⟩
    have hgreater : expectToken .relation ">" (s.facing (t :: (tokens ++ rest)) d ws) =
        .ok t (s.facing (tokens ++ rest) d ws) := run_expectToken ht hclear.2
    have hmade : Grammar.instantiate template use.type? (false && outer.isEmpty)
        (s.facing (tokens ++ rest) d ws) =
        .ok (d.instantiate template use.type? false).1
          (s.facing (tokens ++ rest) (d.instantiate template use.type? false).2 ws) := rfl
    rw [closeTemplates, List.cons_append, run_bind_of_ok hgreater, run_bind_of_ok hmade,
      run_bind_of_ok (run_await use _)]
    exact hrun

theorem classifier_openings (shells : List Template) :
    ∀ p ∈ TypeExpr.openings shells, p.classifier = none := by
  intro p hp
  obtain ⟨template, _, hp⟩ := List.mem_flatMap.1 hp
  simp only [List.mem_cons, List.not_mem_nil, or_false] at hp
  rcases hp with rfl | rfl <;> rfl

/-- The tokens of a type: its templates, its name, and the ends of the templates. The name is
what is used. -/
theorem exists_spell_type {e : TypeExpr} (h : Spell tokens (e.pieces classifier)) :
    ∃ front t back, tokens = front ++ t :: back ∧ Spell front (TypeExpr.openings e.shells) ∧
      t.is .identifier e.leaf = true ∧ Spell back (List.replicate e.shells.length .greater) ∧
      uses tokens (e.pieces classifier) = [(classifier, t)] := by
  obtain ⟨front, more, rfl, hfront, hmore⟩ := spell_append.1 h
  obtain ⟨t, back, rfl, ht, hback⟩ := spell_cons.1 hmore
  refine ⟨front, t, back, rfl, hfront, ht, hback, ?_⟩
  have hends : uses back (List.replicate e.shells.length .greater) = [] :=
    uses_eq_nil (fun p hp => by rw [List.eq_of_mem_replicate hp]; rfl) back
  rw [TypeExpr.pieces, uses_append hfront, uses_eq_nil (classifier_openings e.shells)]
  exact congrArg ((classifier, t) :: ·) hends

/-- A type starts with the word of a template or with its name. -/
theorem exists_head_type {e : TypeExpr} (h : Spell tokens (e.pieces classifier)) :
    ∃ t tail, tokens = t :: tail ∧ t.kind = .identifier ∧
      (t.text = e.leaf ∨ ∃ template : Template, t.text = template.keyword) := by
  obtain ⟨front, t, back, rfl, hfront, ht, -, -⟩ := exists_spell_type h
  simp only [Token.is, Bool.and_eq_true, beq_iff_eq] at ht
  cases hshells : e.shells with
  | nil =>
    rw [hshells, TypeExpr.openings, List.flatMap_nil, spell_nil] at hfront
    exact ⟨t, back, by rw [hfront]; rfl, ht.1, .inl ht.2⟩
  | cons template shells =>
    rw [hshells, openings_cons, spell_cons] at hfront
    obtain ⟨u, front, rfl, hu, -⟩ := hfront
    simp only [Token.is, Bool.and_eq_true, beq_iff_eq] at hu
    exact ⟨u, _, rfl, hu.1, .inr ⟨template, hu.2⟩⟩

theorem ofKeyword?_of_not_reserved {leaf : String} (h : leaf ∉ Draft.reserved) :
    Template.ofKeyword? leaf = none := by
  rw [Template.ofKeyword?, List.find?_eq_none]
  intro template _ htemplate
  rw [beq_iff_eq] at htemplate
  subst htemplate
  cases template <;> exact h (by decide)

/-- A name by itself fits: it means something, or it waits. -/
theorem fits_leaf (hd : d.IsPlain) (hpackage : s.package = none) {leaf : String}
    (ht : t.text = leaf) :
    s.Fits classifier scope [(classifier, t)] d ws ⟨[], leaf⟩
      (match d.leaf? leaf with
        | some u => .known u
        | none => .awaited ⟨[], t, t⟩) d ws := by
  subst ht
  refine ⟨.refl d, fun slot => ?_⟩
  cases hleaf : d.leaf? t.text with
  | some u =>
    refine ⟨{ keeps_of_slot? rfl rfl fun _ => rfl with
      plain := hd, waiting := ⟨[], rfl, by simp [hleaf], by simp⟩ }, hleaf⟩
  | none =>
    refine ⟨{ keeps_of_slot? rfl rfl fun _ => rfl with
      plain := hd, waiting := ⟨_, rfl, by simp [hleaf, TypeUse.bindings, TypeUse.name?,
        Binding.use], fun b hb => ?_⟩ }, ?_⟩
    · rw [List.mem_singleton.1 hb]
      exact ⟨⟨rfl, rfl, hpackage, rfl⟩, rfl⟩
    · exact ⟨_, List.mem_append_right _ (List.mem_singleton_self _), rfl, rfl⟩

/-- Any type is read to its end, unless its name is that of a template. -/
theorem exists_typeUse {e : TypeExpr} (ws : List Binding) (hd : d.IsPlain)
    (hpackage : s.package = none) (hleaf : Template.ofKeyword? e.leaf = none)
    (htokens : Spell tokens (e.pieces classifier)) (hclear : Clear (tokens ++ rest))
    (hdot : ∀ t ∈ rest.head?, t.is .dot "." = false) :
    ∃ use d' ws', typeUse classifier scope false (s.facing (tokens ++ rest) d ws) =
        .ok use (s.facing rest d' ws') ∧
      s.Fits classifier scope (uses tokens (e.pieces classifier)) d ws e use d' ws' := by
  obtain ⟨front, t, back, rfl, hfront, ht, hback, huses⟩ := exists_spell_type htokens
  rw [huses]
  simp only [Token.is, Bool.and_eq_true, beq_iff_eq] at ht
  rw [List.append_assoc, List.cons_append] at hclear ⊢
  have hdot' : ∀ t ∈ (back ++ rest).head?, t.is .dot "." = false := by
    cases hshells : e.shells with
    | nil =>
      rw [hshells, List.length_nil, List.replicate_zero, spell_nil] at hback
      rwa [hback, List.nil_append]
    | cons template shells =>
      rw [hshells, List.length_cons, List.replicate_succ, spell_cons] at hback
      obtain ⟨u, back, rfl, hu, _⟩ := hback
      simp only [Token.is, Bool.and_eq_true, beq_iff_eq, Piece.greater] at hu
      rintro _ ⟨⟩
      simp [Token.is, hu.1]
  have hnames : templates classifier (s.facing (front ++ t :: (back ++ rest)) d ws) =
      .ok (e.shells.reverse, ⟨[], t, t⟩) (s.facing (back ++ rest) d ws) :=
    run_templates hfront ht.1 (ht.2 ▸ hleaf) hclear hdot'
  have hfits : s.Fits classifier scope [(classifier, t)] d ws ⟨[], e.leaf⟩ _ d ws :=
    fits_leaf hd hpackage ht.2
  have hclosings : Spell back (List.replicate e.shells.reverse.length .greater) := by
    rwa [List.length_reverse]
  obtain ⟨use, d', ws', hrun, hfits'⟩ := exists_closeTemplates hd hfits hclosings
    (clear_cons.1 (clear_append.1 hclear).2).2
  refine ⟨use, d', ws', ?_, by simpa using hfits'⟩
  have hfind : (s.facing (back ++ rest) d ws).find? scope ⟨[], t, t⟩ = d.leaf? e.leaf := by
    rw [← hd.findType?_eq scope, ← ht.2, ← hpackage]
    rfl
  rw [typeUse, run_bind_of_ok hnames]
  simp only [run_bind_get, hfind]
  exact hrun

/-- A type with a name behind it is read up to the name. -/
theorem exists_named_type {e : TypeExpr} {name : String} (ws : List Binding) (hd : d.IsPlain)
    (hpackage : s.package = none) (hleaf : Template.ofKeyword? e.leaf = none)
    (htokens : Spell tokens (e.pieces classifier ++ [.word name, .semicolon]))
    (hclear : Clear (tokens ++ rest)) :
    ∃ t u use d' ws', t.is .identifier name = true ∧ u.is .delimiter ";" = true ∧
      Clear (t :: u :: rest) ∧
      typeUse classifier scope false (s.facing (tokens ++ rest) d ws) =
        .ok use (s.facing (t :: u :: rest) d' ws') ∧
      s.Fits classifier scope (uses tokens (e.pieces classifier ++ [.word name, .semicolon])) d ws
        e use d' ws' := by
  obtain ⟨type, more, rfl, htype, hmore⟩ := spell_append.1 htokens
  obtain ⟨t, _, rfl, ht, hmore⟩ := spell_cons.1 hmore
  obtain ⟨u, rfl, hu⟩ := spell_singleton.1 hmore
  have huses : uses (type ++ [t, u]) (e.pieces classifier ++ [.word name, .semicolon]) =
      uses type (e.pieces classifier) := by
    rw [uses_append htype]
    exact List.append_nil _
  rw [huses]
  rw [List.append_assoc] at hclear ⊢
  have hdot : ∀ w ∈ (t :: u :: rest).head?, w.is .dot "." = false := by
    simp only [Token.is, Bool.and_eq_true, beq_iff_eq] at ht
    rintro _ ⟨⟩
    simp [Token.is, ht.1, Piece.word]
  obtain ⟨use, d', ws', hrun, hfits⟩ := exists_typeUse ws hd hpackage hleaf htype hclear hdot
  exact ⟨t, u, use, d', ws', ht, hu, (clear_append.1 hclear).2, hrun, hfits⟩

end Grammar

end Idl
