import Idl.Proofs.Draft.Course

/-!
Sources with a single enumeration. It is read as it was described and passes the standard checks,
which only warn of composed values where there are no flags; so it is registered, and nothing
else is in the document.
-/

namespace Idl

open Grammar Document

theorem Enumeration.hasError_warnings (e : Enumeration) : Message.hasError e.warnings = false := by
  rw [Message.hasError, List.any_eq_false, warnings]
  intro m hm
  split at hm
  · cases hm
  · obtain ⟨v, -, rfl⟩ := List.mem_map.1 hm
    exact Bool.false_ne_true

namespace Draft.Enumeration

variable {x : Enumeration} {e : Idl.Enumeration} {d : Document} {id : EnumerationId}

theorem Resembles.distinct (h : x.Resembles e) (hx : x.IsWellFormed) :
    (e.values.map (·.name.value)).Nodup := by
  rw [map_name_of_view h.values]
  exact hx.distinct

/-- What is warned of is known from the description, but for the places. -/
theorem Resembles.map_warnings (h : x.Resembles e) :
    e.warnings.map (fun m => (m.kind, m.params)) =
      if x.flags then [] else (x.values.filter (·.parts.isSome)).map fun v =>
        (.composedValueInNonFlags, [(.name, v.name)]) := by
  let said (u : String × Option (List Nat)) :
      Message.Kind × List (Message.Param × String) :=
    (.composedValueInNonFlags, [(.name, u.1)])
  have hsaid := congrArg (fun l => (l.filter (·.2.isSome)).map said) h.values
  simp only [List.filter_map, List.map_map] at hsaid
  have hcomposed : (fun v : EnumerationValue => !v.isAbsolute) =
      (·.2.isSome) ∘ fun v => (v.name.value, v.parts) :=
    funext fun v => Option.not_isNone v.parts
  have hparts : (fun v : Value => v.parts.isSome) = (·.2.isSome) ∘ Value.view x.position :=
    funext fun v => Option.isSome_map.symm
  rw [Idl.Enumeration.warnings, h.flags]
  split
  · rfl
  · rw [List.map_map, hcomposed, hparts]
    exact hsaid

theorem Resembles.run_enumerationParameter (h : x.Resembles e) (hx : x.IsWellFormed)
    (he : d.enumerations.get? id = some e) :
    Check.enumerationParameter.run d (.declaration (.enum id)) = {} := by
  have hallowed : [Builtin.small, .short, .integer].contains
      (x.parameter.getD .integer) = true := by
    cases hb : x.parameter with
    | none => rfl
    | some b => exact List.contains_iff_mem.2 (hx.parameter b hb)
  have htype : (DataType.builtin (x.parameter.getD .integer)).asBuiltin?.any
      [Builtin.small, .short, .integer].contains = true := hallowed
  have htarget : Check.Target.enumeration.parameter? d (.declaration (.enum id)) =
      some (e.location, some (.builtin (x.parameter.getD .integer))) := by
    simp only [Check.Target.parameter?, he, Option.map_some, h.parameter]
  simp only [Check.enumerationParameter, Check.parameterType, htarget, htype, if_true]

/-- The checks warn of composed values without flags, and find nothing else. -/
theorem Resembles.runAll_eq (h : x.Resembles e) (hx : x.IsWellFormed)
    (he : d.enumerations.get? id = some e) :
    Check.runAll Check.standard d (.declaration (.enum id)) = ⟨true, e.warnings⟩ := by
  have hvalues : Check.enumerationValues.run d (.declaration (.enum id)) = ⟨true, e.warnings⟩ := by
    simp only [Check.enumerationValues, he, Check.valueFaults_eq (h.distinct hx),
      Verdict.ofMessages, e.hasError_warnings]
    rfl
  simp only [Check.runAll, Check.standard, List.map_cons, List.map_nil, List.foldl_cons,
    List.foldl_nil, h.run_enumerationParameter hx he, hvalues]
  change Verdict.and (Verdict.and {} ⟨true, e.warnings⟩) {} = _
  simp only [Verdict.and, List.nil_append, List.append_nil, Bool.and_self]

end Draft.Enumeration

namespace Grammar

variable {x : Draft.Enumeration} {settings : Settings} {root : Option SourceId}
  {tokens rest : List Token}

/-- An enumeration that was described is read, passes its checks and is registered. -/
theorem State.exists_declare {s : State} (hx : x.IsWellFormed) (hpackage : s.package = none)
    (hpending : s.pending = []) (hrest : s.cursor.rest = tokens ++ rest)
    (htokens : Spell tokens x.pieces) (hclear : Clear (tokens ++ rest)) :
    ∃ e, x.Describes e ∧
      let s' := s.declare Check.standard none
      s'.document =
        (s.document.insertEnumeration e).register (.enum s.document.enumerations.next) ∧
      s'.messages = s.messages ++ e.warnings ∧ s'.pending = [] ∧ s'.cursor.rest = rest := by
  obtain ⟨taken, more, rfl, htaken, hmore⟩ := spell_append.1 htokens
  rw [List.append_assoc] at hrest hclear
  obtain ⟨e, he, hrun⟩ := exists_enumeration s.document [] hx hpackage htaken hmore
    (clear_append.1 hclear).2
  obtain ⟨t, more, rfl, ht, -⟩ := spell_cons.1 hmore
  have hfacing : s = s.facing (taken ++ t :: (more ++ rest)) s.document [] := by
    rw [← hpending]
    change _ = s.facing (taken ++ (t :: more ++ rest)) s.document s.pending
    rw [← hrest, s.facing_self]
  let id := s.document.enumerations.next
  let s₁ := s.facing rest (s.document.insertEnumeration e) []
  have hread : declaration Check.standard none s = .ok (.enum id) s₁ := by
    rw [hfacing]
    exact run_enumDeclaration Check.standard htaken ht hclear hrun
  have hget : s₁.document.enumerations.get? id = some e :=
    (Arena.get?_insert ..).trans (if_pos rfl)
  have hverdict : Check.runAll Check.standard s₁.document (.declaration (.enum id)) =
      ⟨true, e.warnings⟩ := he.runAll_eq hx hget
  let s₂ : State :=
    { s₁ with toSession := (s₁.toSession.visit Check.standard (.declaration (.enum id)) false).2 }
  have haccept : acceptDeclaration Check.standard (.enum id) s₁ =
      (true, s₂.register Check.standard (.enum id)) := if_pos (congrArg Verdict.passed hverdict)
  have hdeclare : s.declare Check.standard none = s₂.register Check.standard (.enum id) := by
    rw [State.declare, construct_of_accepted hread (congrArg Prod.fst haccept), haccept]
  rw [hdeclare]
  refine ⟨e, he, rfl, ?_, rfl, rfl⟩
  exact congrArg (s.messages ++ Verdict.messages ·) hverdict

theorem exists_head_enumeration (h : Spell tokens x.pieces) :
    ∃ t tail, tokens = t :: tail ∧ t.kind = .identifier ∧ t.isKeyword "import" = false ∧
      t.isKeyword "package" = false := by
  rcases x with ⟨⟨_ | ⟨_ | _⟩, _ | _, _ | _⟩, _, _, _, _⟩ <;>
    exact exists_head_of_word h (by decide) (by decide)

/-- A source that holds nothing but an enumeration leaves nothing else in the document. -/
theorem exists_readTokens (hchecks : settings.checks = Check.standard) (root : Option SourceId)
    (hx : x.IsWellFormed) (htokens : Spell tokens x.pieces) :
    ∃ e, x.Describes e ∧
      let d := (Session.start root).document
      let o := settings.readTokens root tokens
      o.document = (d.insertEnumeration e).register (.enum d.enumerations.next) ∧
      o.messages = e.warnings ∧ o.ok = true := by
  have hclear : Clear tokens := clear_of_spell htokens fun _ => Draft.Enumeration.kind_ne_comment
  let m := Moment.start settings root tokens
  have hrest : m.state.cursor.rest = tokens := Cursor.rest_ofTokens tokens
  have hmessages : m.state.messages = [] := by cases root <;> rfl
  have hdeclarations : m.state.document.declarations = [] := by cases root <;> rfl
  have hwhole : tokens = tokens ++ [] := (List.append_nil tokens).symm
  obtain ⟨e, he, hdeclared⟩ :=
    State.exists_declare hx rfl rfl (hrest.trans hwhole) htokens (hwhole ▸ hclear)
  rw [← hchecks] at hdeclared
  obtain ⟨hdocument, hsaid, hpending, hnil⟩ := hdeclared
  have hdeclares : m.Declares none m.state := by
    obtain ⟨t, tail, rfl, hkind, himport, hpackage⟩ := exists_head_enumeration htokens
    exact Moment.declares_of_clear hrest (hrest ▸ hclear) hkind himport hpackage
  have hstart : Moment.Reached settings root tokens m := .refl
  have hend : Moment.Reached settings root tokens
      ⟨settings.maxImportDepth + 1, [], false, m.state.declare settings.checks none⟩ :=
    hstart.tail (Moment.Move.declare hdeclares).step
  have hoverall : Check.runAll settings.checks (m.state.declare settings.checks none).document
      .document = {} := by
    rw [hchecks, Check.runAll_document]
    rw [← hchecks, hdocument]
    simp only [Document.register, Document.insertEnumeration, hdeclarations]
    exact List.nodup_singleton _
  obtain ⟨hkept, hreported, hok⟩ := Session.finish_nil
    (by rw [hsaid, hmessages, List.nil_append, e.hasError_warnings]) hoverall
  refine ⟨e, he, ?_⟩
  rw [hend.readTokens_of_rest_nil rfl hnil, hpending]
  refine ⟨hkept.trans hdocument, ?_, hok⟩
  rw [hreported, hsaid, hmessages, List.nil_append]

end Grammar

/-- What comes out for a description: its enumeration is all that is registered, with the values
and the numbers that are meant, and unless there are flags each composed value is warned of. -/
structure Outcome.IsEnumeration (o : Outcome) (x : Draft.Enumeration) (e : Enumeration) :
    Prop where
  describes : x.Describes e
  declarations : o.document.declarations = [.enum ⟨0⟩]
  node : o.document.enumerations.get? ⟨0⟩ = some e
  typeNames : o.document.typeNames = [(x.name, .enum ⟨0⟩)]
  messages : o.messages = e.warnings
  warned : o.messages.map (fun m => (m.kind, m.params)) =
    if x.flags then [] else (x.values.filter (·.parts.isSome)).map fun v =>
      (.composedValueInNonFlags, [(.name, v.name)])
  error : Message.hasError o.messages = false
  ok : o.ok = true

/-- Enumerations are what they say. Wherever the pieces of a description stand in a text, and they
can be written with blanks between them, the enumeration is read as it was described. -/
theorem enumerations_are_read_as_described {settings : Settings}
    (hchecks : settings.checks = Check.standard) (root : Option SourceId)
    {x : Draft.Enumeration} (hx : x.IsWellFormed) (hnames : ∀ name ∈ x.names, IsName name) :
    Spell (Token.tokenize x.render) x.pieces ∧
      ∀ text, Spell (Token.tokenize text) x.pieces →
        ∃ e, (settings.readText root text).IsEnumeration x e := by
  refine ⟨Draft.Enumeration.spell_render hnames, fun text htext => ?_⟩
  simp only [Settings.readText]
  obtain ⟨e, he, hdocument, hmessages, hok⟩ := exists_readTokens hchecks root hx htext
  refine ⟨e, he, ?_, ?_, ?_, hmessages, ?_, ?_, hok⟩
  · rw [hdocument]
    cases root <;> rfl
  · rw [hdocument]
    cases root <;> rfl
  · rw [hdocument, ← he.name]
    cases root <;> rfl
  · rw [hmessages]
    exact he.map_warnings
  · rw [hmessages]
    exact e.hasError_warnings

/-- Keywords as names, and absolute and composed values in turn. -/
theorem enumerations_are_read_as_described_keywords :
    let x : Draft.Enumeration :=
      { front := { cast := some .strong }, parameter := some .short, name := "flags"
        values := [{ name := "enum" }, { name := "flags", parts := some ["enum"] },
          { name := "weak" }, { name := "all", parts := some ["flags", "weak", "flags"] }] }
    x.IsWellFormed ∧ (∀ name ∈ x.names, IsName name) ∧
      ∃ e, (({} : Settings).readText none x.render).IsEnumeration x e ∧
        e.values.map (·.value) = [1, 1, 2, 3] := by
  intro x
  have hx : x.IsWellFormed := by decide
  have hnames : ∀ name ∈ x.names, IsName name := by decide +kernel
  obtain ⟨hspell, hread⟩ := @enumerations_are_read_as_described {} rfl none x hx hnames
  obtain ⟨e, he⟩ := hread x.render hspell
  have hvalues : ((({} : Settings).readText none x.render).document.enumerations.get? ⟨0⟩).map
      (fun e => e.values.map (·.value)) = some [1, 1, 2, 3] := by decide +kernel
  rw [he.node] at hvalues
  exact ⟨hx, hnames, e, he, Option.some.inj hvalues⟩

end Idl
