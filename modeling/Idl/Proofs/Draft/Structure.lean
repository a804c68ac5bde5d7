import Idl.Proofs.Draft.View
import Idl.Proofs.Grammar.Structure

/-!
Structures that are read as they were drafted. Each field adds a member with a slot for its
type. Nothing that is nested is ever found at the end, so the names that wait stay in the order
in which they were read.
-/

namespace Idl.Grammar

open Document

variable {s : State} {id : StructureId} {name : String} {before : List Draft.Field}
  {pieces : List Piece} {read tokens rest : List Token} {d₀ d d' : Document}
  {ws₀ ws : List Binding} {f : Draft.Field} {t : Token}

/-- The structure that was drafted so far has a member for each field. -/
theorem exists_structure {call : Option DataType → Option String}
    {call' : TypeExpr → Option String}
    (h : d.viewAs call (.struct id) = some ((Draft.struct name before).view call')) :
    ∃ x, d.structures.get? id = some x ∧ x.members.length = before.length := by
  simp only [viewAs, Draft.view, Option.map_eq_some_iff, View.struct.injEq] at h
  obtain ⟨x, hx, -, -, -, hmembers⟩ := h
  exact ⟨x, hx, by simpa using congrArg List.length hmembers⟩

theorem view_addField {g : Field} (hname : g.name.value = f.name) (hdefault : g.default = none)
    (h : d.viewAs (fun _ => none) (.struct id) = some ((Draft.struct name before).view
      fun _ => none)) :
    (d.modifyStructure id (·.addMember (.field g))).viewAs (fun _ => none) (.struct id) =
      some ((Draft.struct name (before ++ [f])).view fun _ => none) := by
  simp only [viewAs, Draft.view, Option.map_eq_some_iff, View.struct.injEq] at h ⊢
  obtain ⟨x, hx, hname', hbase, htraits, hmembers⟩ := h
  refine ⟨x.addMember (.field g), ?_, hname', hbase, htraits, ?_⟩
  · simp [Document.modifyStructure, Arena.get?_modify, hx]
  · simp [Structure.addMember, hmembers, Member.view?, hname, hdefault]

/-- When its type has been read, a field is made with a slot for the type. -/
theorem run_field {use : TypeUse} {u : Token} {x : Structure} {type : List Token}
    {ws' : List Binding}
    (hrun : typeUse "field" (some id) false (s.facing type d ws) =
      .ok use (s.facing (t :: u :: rest) d' ws'))
    (ht : t.is .identifier f.name = true) (hu : u.is .delimiter ";" = true)
    (hclear : Clear (t :: u :: rest)) (hx : d'.structures.get? id = some x) :
    ∃ g : Field, g.name.value = f.name ∧ g.default = none ∧ g.type = use.type? ∧
      field id none [] false (s.facing type d ws) =
        .ok ⟨⟩ (s.facing rest (d'.modifyStructure id (·.addMember (.field g)))
          (ws' ++ use.bindings "field" (some id) (.field ⟨id, x.members.length⟩) s)) := by
  rw [clear_cons] at hclear
  have hequal : isAt .operator "=" (s.facing (u :: rest) d' ws') =
      .ok false (s.facing (u :: rest) d' ws') := by
    simp only [Token.is, Bool.and_eq_true, beq_iff_eq] at hu
    exact run_isAt_false (by rintro _ ⟨⟩; simp [Token.is, hu.1])
  have htaken : taken? [] ["override"] = none := rfl
  have hdocument : (s.facing rest d' ws').document = d' := rfl
  let g : Field :=
    { name := ⟨f.name, s.locationOf t⟩
      location := (s.facing type d ws).here
      type := use.type?
      bitmask := x.nextBitmask
      owner := id }
  refine ⟨g, rfl, rfl, rfl, ?_⟩
  simp only [field, run_bind_get, run_bind_of_ok hrun,
    run_bind_of_ok (run_expectName ht hclear.2 _), run_bind_of_ok hequal, Bool.false_eq_true,
    if_false, htaken, Option.mapM_none, pure_bind, run_bind_of_ok (run_expectSemicolon hu),
    hdocument, hx, Option.map_some, Option.getD_some]
  exact run_await use _

theorem exists_field (h₀ : d₀.IsPlain) (hpackage : s.package = none)
    (h : s.Drafted (some id) pieces read d₀ ws₀ (.struct name before) (.struct id) d ws)
    (hleaf : Template.ofKeyword? f.type.leaf = none) (htokens : Spell tokens f.pieces)
    (hclear : Clear (tokens ++ rest)) :
    ∃ d' ws', field id none [] false (s.facing (tokens ++ rest) d ws) =
        .ok ⟨⟩ (s.facing rest d' ws') ∧
      s.Drafted (some id) (pieces ++ f.pieces) (read ++ tokens) d₀ ws₀
        (.struct name (before ++ [f])) (.struct id) d' ws' := by
  obtain ⟨t, u, use, d', ws', ht, hu, hclear', hrun, hfits⟩ :=
    exists_named_type ws h.gains.plain hpackage hleaf htokens hclear
  have hview := (hfits.1.viewAs_eq _ _).trans h.readAs.view
  obtain ⟨x, hx, hlength⟩ := exists_structure hview
  obtain ⟨g, hname, hdefault, hg, hfield⟩ := run_field hrun ht hu hclear' hx
  have hnone : d'.slot? (.field ⟨id, x.members.length⟩) = none := by
    simp [slot?, field?, hx, Structure.field?]
  have hplain : d'.IsPlain := (hfits.2 (.field ⟨id, x.members.length⟩)).1.plain
  refine ⟨_, _, hfield, h.write h₀ hfits rfl rfl (fun o => ?_) hnone
    (hplain.addMember id hdefault) (view_addField hname hdefault hview) ?_ htokens⟩
  · rw [slot?_addField d' hx rfl, hg]
  · rw [Draft.slots_addField, hlength]

/-- The name of a type is read as a field. -/
theorem memberForm_of_type {leaf : String}
    (ht : t.text = leaf ∨ ∃ template : Template, t.text = template.keyword)
    (hleaf : leaf ∉ Draft.reserved) :
    memberModifiers.contains t.text = false ∧ MemberForm.ofToken (some t) = .field := by
  obtain ⟨hmodifier, h₁, h₂, h₃, h₄⟩ : t.text ∉ memberModifiers ∧ t.text ≠ "identification" ∧
      t.text ≠ "upcopy" ∧ t.text ≠ "operator" ∧ t.text ≠ "enum" := by
    rcases ht with ht | ⟨template, ht⟩
    · rw [ht]
      simp only [Draft.reserved, List.mem_cons, not_or] at hleaf
      simp [memberModifiers, hleaf]
    · rw [ht]
      cases template <;> decide
  refine ⟨by simpa using hmodifier, ?_⟩
  simp only [MemberForm.ofToken, Option.map_some]
  split <;> simp_all

/-- A member that starts with the name of a type is a field. -/
theorem run_member {leaf : String} {s' : State} (hkind : t.kind = .identifier)
    (ht : t.text = leaf ∨ ∃ template : Template, t.text = template.keyword)
    (hleaf : leaf ∉ Draft.reserved) (hclear : Clear (t :: rest))
    (hfield : field id none [] false (s.facing (t :: rest) d ws) = .ok ⟨⟩ s') :
    member id none t (s.facing (t :: rest) d ws) = .ok none s' := by
  obtain ⟨hmodifier, hform⟩ := memberForm_of_type ht hleaf
  have hmodifiers : modifiers memberModifiers (s.facing (t :: rest) d ws) =
      .ok [] (s.facing (t :: rest) d ws) :=
    @run_modifiers s t [] rest d ws memberModifiers (by simp)
      (by rw [hmodifier, Bool.and_false]) hclear
  have hcurrent : (s.facing (t :: rest) d ws).current = some t := rfl
  have hfalse : (t.kind != Token.Kind.identifier) = false := by simp [hkind]
  have htaken : isTaken [] "weak" = false := rfl
  simp only [member, hfalse, Bool.false_eq_true, if_false, run_bind_of_ok hmodifiers, run_bind_get,
    hcurrent, hform, htaken, Bool.and_false, leftOver_nil]
  rw [run_bind_of_ok hfield]
  rfl

/-- A field of the draft is taken as a member. -/
theorem exists_fieldItem (checks : List Check) (h₀ : d₀.IsPlain) (hpackage : s.package = none)
    (h : s.Drafted (some id) pieces read d₀ ws₀ (.struct name before) (.struct id) d ws)
    (hleaf : f.type.leaf ∉ Draft.reserved) (htokens : Spell tokens f.pieces)
    (hclear : Clear (tokens ++ rest)) :
    ∃ d' ws', TakesItem (structureItem checks id) s tokens rest d d' ws ws' ∧
      s.Drafted (some id) (pieces ++ f.pieces) (read ++ tokens) d₀ ws₀
        (.struct name (before ++ [f])) (.struct id) d' ws' := by
  obtain ⟨d', ws', hfield, hdrafted⟩ :=
    exists_field h₀ hpackage h (ofKeyword?_of_not_reserved hleaf) htokens hclear
  obtain ⟨type, more, rfl, htype, -⟩ := spell_append.1 htokens
  obtain ⟨t, tail, rfl, hkind, htext⟩ := exists_head_type htype
  have hmember := run_member hkind htext hleaf hclear hfield
  refine ⟨d', ws', ⟨t, tail ++ more, rfl, ?_, ?_, ?_⟩, hdrafted⟩
  · simp [isClosing, Token.is, hkind]
  · simp [isSemicolon, Token.is, hkind]
  · exact construct_of_accepted hmember rfl

/-- A structure without a base is there when its name has been read. -/
theorem run_structureHeader {u v : Token} (d : Document) (ws : List Binding)
    (ht : t.is .identifier "structure" = true) (hu : u.is .identifier name = true)
    (hv : isOpening v = true) (hclear : Clear (t :: u :: v :: rest)) (hpackage : s.package = none) :
    ∃ x : Structure, x.IsPlain ∧ x.members = [] ∧ x.name.value = name ∧
      structureHeader none [] (s.facing (t :: u :: v :: rest) d ws) =
        .ok d.structures.next (s.facing (v :: rest) (d.insertStructure x) ws) := by
  simp only [clear_cons] at hclear
  have hclear₁ : Clear (u :: v :: rest) := clear_cons.2 ⟨hclear.2.1, clear_cons.2 hclear.2.2⟩
  have hclear₂ : Clear (v :: rest) := clear_cons.2 hclear.2.2
  let x : Structure :=
    { name := ⟨name, s.locationOf u⟩
      location := s.locationOf t
      package := s.package }
  have hinherit : isAtKeyword "inherit" (s.facing (v :: rest) (d.insertStructure x) ws) =
      .ok false (s.facing (v :: rest) (d.insertStructure x) ws) := by
    simp only [isOpening, Token.is, Bool.and_eq_true, beq_iff_eq] at hv
    exact run_isAt_false (by rintro _ ⟨⟩; simp [Token.is, hv.1])
  refine ⟨x, ⟨hpackage, rfl, rfl, by simp [x]⟩, rfl, rfl, ?_⟩
  simp only [structureHeader, run_bind_of_ok (run_expectKeyword ht hclear₁),
    run_bind_of_ok (run_expectName hu hclear₂ _), run_bind_get,
    run_bind_of_ok (run_modifyDocument _)]
  exact run_bind_of_ok hinherit _

/-- To settle names of which none is found changes nothing. -/
theorem settle_of_not_found {checks : List Check} {find : Session → Binding → Option DataType}
    {session : Session} {pending : List Binding} (h : ∀ b ∈ pending, find session b = none) :
    session.settle checks find pending = (session, pending) := by
  induction pending with
  | nil => rfl
  | cons b rest ih =>
    rw [List.forall_mem_cons] at h
    rw [Session.settle, h.1, ih h.2]

/-- At the end of a structure nothing is bound. -/
theorem settleScope_of_plain {checks : List Check} {new : List Binding}
    (hd : s.document.IsPlain) (hpending : s.pending = ws ++ new)
    (hold : ∀ b ∈ ws, b.scope ≠ some id)
    (hnew : ∀ b ∈ new, b.name.path = [] ∧ b.scope = some id) :
    s.settle (fun session pending => session.settleScope checks id pending) = s := by
  have hinside : (ws ++ new).filter (fun b => b.scope == some id && b.name.path.isEmpty) =
      new := by
    rw [List.filter_append, List.filter_eq_nil_iff.2, List.filter_eq_self.2, List.nil_append]
    · exact fun b hb => by simp [hnew b hb]
    · exact fun b hb => by simp [hold b hb]
  have houtside : (ws ++ new).filter
      (fun b => !(b.scope == some id && b.name.path.isEmpty)) = ws := by
    rw [List.filter_append, List.filter_eq_self.2, List.filter_eq_nil_iff.2, List.append_nil]
    · exact fun b hb => by simp [hnew b hb]
    · exact fun b hb => by simp [hold b hb]
  have hnone : s.toSession.settle checks (fun session b =>
      (session.document.findNested? id b.name.last.text).map DataType.enum) new =
      (s.toSession, new) :=
    settle_of_not_found fun b _ => by rw [hd.findNested?_eq_none]; rfl
  have hscope : s.toSession.settleScope checks id (ws ++ new) = (s.toSession, ws ++ new) := by
    simp only [Session.settleScope, List.partition_eq_filter_filter, hinside, hnone]
    exact congrArg (fun outside => (s.toSession, outside ++ new)) houtside
  simp only [State.settle, hpending, hscope]
  rw [← hpending]

/-- A structure is read as it was drafted. -/
theorem exists_structureDeclaration (checks : List Check) {fields : List Draft.Field}
    (hd : d.IsPlain) (hpackage : s.package = none)
    (hscopes : ∀ b ∈ ws, ∀ i, b.scope = some i → i.index < d.structures.size)
    (hleaf : ∀ f ∈ fields, f.type.leaf ∉ Draft.reserved)
    (htokens : Spell tokens (Draft.struct name fields).pieces) (hclear : Clear (tokens ++ rest)) :
    ∃ d' ws', structureDeclaration checks none [] (s.facing (tokens ++ rest) d ws) =
        .ok d.structures.next (s.facing rest d' ws') ∧
      s.Drafted (some d.structures.next) (Draft.struct name fields).pieces tokens d ws
        (.struct name fields) (.struct d.structures.next) d' ws' := by
  obtain ⟨t, u, v, tokens, rfl, ht, hu, hv, hfront, hinner⟩ := exists_spell_block htokens
  rw [List.append_assoc] at hclear ⊢
  simp only [List.cons_append, List.nil_append] at hclear ⊢
  obtain ⟨x, hx, hmembers, hname, hheader⟩ := run_structureHeader d ws ht hu hv hclear hpackage
  have hview : (d.insertStructure x).viewAs (fun _ => none) (.struct d.structures.next) =
      some ((Draft.struct name []).view fun _ => none) := by
    simp [viewAs, insertStructure, Arena.get?_insert, Draft.view, hname, hx.base, hx.traits,
      hmembers]
  have hkeeps : d.Keeps (d.insertStructure x) :=
    keeps_of_slot? rfl rfl (slot?_insertStructure d x hmembers)
  have hstart : s.Drafted (some d.structures.next) [.word "structure", .word name, .opening]
      [t, u, v] d ws (.struct name []) (.struct d.structures.next) (d.insertStructure x) ws :=
    State.drafted_of_keeps hkeeps (hd.insertStructure hx) hview rfl hfront
      (by simp [Piece.word, Piece.opening])
  have hclear' : Clear (tokens ++ rest) :=
    (clear_cons.1 (clear_cons.1 (clear_cons.1 hclear).2).2).2
  obtain ⟨d', ws', hitems, hdrafted⟩ :=
    exists_drafted_items "structure" (.struct name) (exists_fieldItem checks hd hpackage) hd hstart
      hleaf hinner hclear'
  refine ⟨d', ws', ?_, hdrafted⟩
  obtain ⟨new, hws, -, hnew⟩ := hdrafted.gains.waiting
  have hsettle : (s.facing rest d' ws').settle (fun session pending =>
      session.settleScope checks d.structures.next pending) = s.facing rest d' ws' := by
    refine settleScope_of_plain hdrafted.gains.plain hws (fun b hb hscope => ?_)
      fun b hb => ⟨(hnew b hb).1.path, (hnew b hb).2⟩
    exact Nat.lt_irrefl _ (hscopes b hb _ hscope)
  have hbody : body "structure" (structureItem checks d.structures.next)
      (s.facing (v :: (tokens ++ rest)) (d.insertStructure x) ws) =
        .ok () (s.facing rest d' ws') :=
    (run_bind_of_ok (run_openBody hv _) _).trans hitems
  rw [structureDeclaration, run_bind_of_ok hheader, run_bind_of_ok hbody, run_bind_modify, hsettle]
  rfl

end Idl.Grammar
