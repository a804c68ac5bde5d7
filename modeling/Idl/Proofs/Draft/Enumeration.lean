import Idl.Proofs.Draft.Numbering
import Idl.Proofs.Grammar.Enumeration

/-!
Enumerations that are read as they were described. Of the modifiers in front only the words
count, so what they say is known from the description, and nothing of them is left over. The
names of composed values are found among the values that were read before. A draft is a
description in which all values are absolute.
-/

namespace Idl.Grammar

open Document

section Front

variable {tokens : List Token} {group : List String}

theorem taken?_text (tokens : List Token) (group : List String) :
    (taken? tokens group).map Token.text =
      (tokens.map Token.text).find? fun word => group.contains word := by
  rw [taken?, List.find?_map]
  rfl

theorem leftOver_text (tokens : List Token) (groups : List (List String)) :
    (leftOver tokens groups).map Token.text =
      groups.foldl (fun left group => left.eraseP fun word => group.contains word)
        (tokens.map Token.text) := by
  induction groups generalizing tokens with
  | nil => rfl
  | cons group groups ih =>
    rw [leftOver, List.foldl_cons, List.foldl_cons, List.eraseP_map, ← Function.comp_def]
    exact ih _

theorem isTaken_eq (tokens : List Token) (word : String) :
    isTaken tokens word = ((tokens.map Token.text).find? fun w => [word].contains w).isSome := by
  rw [← taken?_text, Option.isSome_map]
  rfl

theorem castOf_eq (tokens : List Token) :
    castOf tokens =
      if ((tokens.map Token.text).find? fun word => castWords.contains word).any
        (· == Cast.strong.name) then .strong else .weak := by
  rw [← taken?_text, castOf, Option.any_map]

theorem texts_of_spell {words : List String} (h : Spell tokens (words.map .word)) :
    tokens.map Token.text = words ∧ ∀ t ∈ tokens, t.kind = .identifier := by
  rw [Spell, List.map_map] at h
  constructor
  · have htexts := congrArg (List.map Prod.snd) h
    simpa [Function.comp_def, Piece.word] using htexts
  · intro t ht
    have hkinds : t.kind ∈ (tokens.map fun t => (t.kind, t.text)).map Prod.fst := by
      rw [List.map_map]
      exact List.mem_map_of_mem ht
    rw [h, List.map_map] at hkinds
    obtain ⟨w, _, hw⟩ := List.mem_map.1 hkinds
    exact hw.symm

/-- The words in front of an enumeration say what was drafted, and all of them are taken. -/
theorem front_of_spell {front : Draft.Front} (h : Spell tokens (front.words.map .word)) :
    isTaken tokens "flags" = front.flags ∧ castOf tokens = front.cast.getD .weak ∧
      leftOver tokens enumerationModifiers = [] := by
  obtain ⟨htexts, -⟩ := texts_of_spell h
  have hleft : (leftOver tokens enumerationModifiers).map Token.text = [] := by
    rw [leftOver_text, htexts]
    rcases front with ⟨_ | ⟨_ | _⟩, _ | _, _ | _⟩ <;> rfl
  refine ⟨?_, ?_, List.map_eq_nil_iff.1 hleft⟩
  · rw [isTaken_eq, htexts]
    rcases front with ⟨_ | ⟨_ | _⟩, _ | _, _ | _⟩ <;> rfl
  · rw [castOf_eq, htexts]
    rcases front with ⟨_ | ⟨_ | _⟩, _ | _, _ | _⟩ <;> rfl

end Front

section Value

variable {s : State} {tokens rest : List Token} {d : Document} {ws : List Binding} {t : Token}
  {id : EnumerationId} {e : Enumeration} {position : String → Nat}

/-- A name of a part is read, and the bar behind it if more parts follow. -/
theorem run_valuePartRound {name : String} {p : Nat} (he : d.enumerations.get? id = some e)
    (hname : e.position? name = some p) (ht : t.is .identifier name = true) (hclear : Clear rest)
    (parts : List Nat) :
    valuePartRound id parts (s.facing (t :: rest) d ws) =
      (do
        if ← isAt .bitwise "|" then
          advance
          return .again (parts ++ [p])
        else return .done (parts ++ [p]) : Parser (Round (List Nat) (List Nat)))
        (s.facing rest d ws) := by
  have hread : expectName "enumeration value" (s.facing (t :: rest) d ws) =
      .ok ⟨name, s.locationOf t⟩ (s.facing rest d ws) := run_expectName ht hclear _
  have hfound : (d.enumerations.get? id).bind (·.position? name) = some p := by
    rw [he]
    exact hname
  rw [valuePartRound, run_bind_of_ok hread, run_bind_get]
  simp only [State.facing, hfound]

/-- The parts of a value are read as the positions of their names. -/
theorem run_valueParts {names : List String} (he : d.enumerations.get? id = some e)
    (hnames : ∀ name ∈ names, e.position? name = some (position name)) (hne : names ≠ [])
    (htokens : Spell tokens ((names.map .word).intersperse .bar))
    (hclear : Clear (tokens ++ rest)) (hstop : ∀ t ∈ rest.head?, t.is .bitwise "|" = false) :
    valueParts id (s.facing (tokens ++ rest) d ws) =
      .ok (names.map position) (s.facing rest d ws) := by
  -- The positions that were read before stand in front of those that are still to be read.
  suffices hall : ∀ parts : List Nat,
      iterate (valuePartRound id) parts (s.facing (tokens ++ rest) d ws) =
        .ok (parts ++ names.map position) (s.facing rest d ws) from hall []
  induction names generalizing tokens with
  | nil => exact absurd rfl hne
  | cons name names ih =>
    intro parts
    rw [List.forall_mem_cons] at hnames
    cases names with
    | nil =>
      obtain ⟨t, rfl, ht⟩ := spell_singleton.1 htokens
      refine iterate_of_done ?_
      refine (run_valuePartRound he hnames.1 ht (clear_cons.1 hclear).2 parts).trans ?_
      exact run_bind_of_ok (run_isAt_false hstop) _
    | cons other names =>
      rw [List.map_cons, List.map_cons, List.intersperse_cons_cons] at htokens
      obtain ⟨t, _, rfl, ht, htokens⟩ := spell_cons.1 htokens
      obtain ⟨u, tokens, rfl, hu, htokens⟩ := spell_cons.1 htokens
      simp only [List.cons_append] at hclear ⊢
      obtain ⟨-, hclear⟩ := clear_cons.1 hclear
      have hclear' : Clear (tokens ++ rest) := (clear_cons.1 hclear).2
      have hbar : isAt .bitwise "|" (s.facing (u :: (tokens ++ rest)) d ws) =
          .ok true (s.facing (u :: (tokens ++ rest)) d ws) := congrArg (EStateM.Result.ok · _) hu
      rw [List.map_cons, List.append_cons, ← ih hnames.2 (List.cons_ne_nil _ _) htokens hclear']
      refine iterate_of_again ?_ ?_
      · refine (run_valuePartRound he hnames.1 ht hclear parts).trans ?_
        exact (run_bind_of_ok hbar _).trans (run_bind_of_ok (run_advance hclear') _)
      · simp only [State.remaining_facing, List.length_append, List.length_cons]
        omega

/-- A value of a description is read as a value with the positions of its parts. -/
theorem exists_enumerationValue {v : Draft.Value} {u : Token} {read : List Token}
    (ws : List Binding) (he : d.enumerations.get? id = some e)
    (hnames : ∀ names, v.parts = some names →
      names ≠ [] ∧ ∀ name ∈ names, e.position? name = some (position name))
    (ht : t.is .identifier v.name = true) (hread : Spell read (Draft.partPieces v.parts))
    (hu : u.is .delimiter ";" = true) (hclear : Clear (read ++ u :: rest)) :
    ∃ w : EnumerationValue, (w.name.value, w.parts) = v.view position ∧
      enumerationValue id none t (s.facing (t :: (read ++ u :: rest)) d ws) =
        .ok ⟨⟩ (s.facing rest (d.modifyEnumeration id (·.addValue w)) ws) := by
  have hname : expectName "enumeration value" (s.facing (t :: (read ++ u :: rest)) d ws) =
      .ok ⟨v.name, s.locationOf t⟩ (s.facing (read ++ u :: rest) d ws) :=
    run_expectName ht hclear _
  have hfirst : (t.kind != Token.Kind.identifier) = false := by
    simp only [Token.is, Bool.and_eq_true, beq_iff_eq] at ht
    simp [ht.1]
  have hend (kind : Token.Kind) (text : String) (h : kind ≠ .delimiter) :
      u.is kind text = false := by
    simp only [Token.is, Bool.and_eq_true, beq_iff_eq] at hu
    simp [Token.is, hu.1, Ne.symm h]
  let w (parts : Option (List Nat)) : EnumerationValue :=
    { name := ⟨v.name, s.locationOf t⟩, location := s.locationOf t, enumeration := id, parts }
  simp only [enumerationValue, hfirst, Bool.false_eq_true, if_false, run_bind_of_ok hname]
  cases hparts : v.parts with
  | none =>
    rw [hparts, Draft.partPieces, spell_nil] at hread
    subst hread
    have hequal : isAt .operator "=" (s.facing (u :: rest) d ws) =
        .ok false (s.facing (u :: rest) d ws) :=
      run_isAt_false (by rintro _ ⟨⟩; exact hend _ _ (by decide))
    refine ⟨w none, by simp [w, Draft.Value.view, hparts], ?_⟩
    simp only [List.nil_append, run_bind_of_ok hequal, Bool.false_eq_true, if_false, pure_bind,
      run_bind_of_ok (run_expectSemicolon hu)]
    exact run_modifyDocument _
  | some names =>
    obtain ⟨hne, hpositions⟩ := hnames names hparts
    rw [hparts, Draft.partPieces] at hread
    obtain ⟨y, read, rfl, hy, hread⟩ := spell_cons.1 hread
    have hclear : Clear (read ++ u :: rest) := (clear_cons.1 hclear).2
    have hequal : isAt .operator "=" (s.facing (y :: (read ++ u :: rest)) d ws) =
        .ok true (s.facing (y :: (read ++ u :: rest)) d ws) :=
      congrArg (EStateM.Result.ok · _) hy
    have hvalues : valueParts id (s.facing (read ++ u :: rest) d ws) =
        .ok (names.map position) (s.facing (u :: rest) d ws) :=
      run_valueParts he hpositions hne hread hclear (by rintro _ ⟨⟩; exact hend _ _ (by decide))
    have hsome : (some <$> valueParts id) (s.facing (read ++ u :: rest) d ws) =
        .ok (some (names.map position)) (s.facing (u :: rest) d ws) := run_bind_of_ok hvalues _
    refine ⟨w (some (names.map position)), by simp [w, Draft.Value.view, hparts], ?_⟩
    simp only [List.cons_append, run_bind_of_ok hequal, if_true,
      run_bind_of_ok (run_advance hclear), run_bind_of_ok hsome,
      run_bind_of_ok (run_expectSemicolon hu)]
    exact run_modifyDocument _

theorem exists_valueItem {v : Draft.Value} (ws : List Binding)
    (he : d.enumerations.get? id = some e)
    (hnames : ∀ names, v.parts = some names →
      names ≠ [] ∧ ∀ name ∈ names, e.position? name = some (position name))
    (htokens : Spell tokens v.pieces) (hclear : Clear (tokens ++ rest)) :
    ∃ w : EnumerationValue, (w.name.value, w.parts) = v.view position ∧
      TakesItem (enumerationItem id) s tokens rest d (d.modifyEnumeration id (·.addValue w))
        ws ws := by
  obtain ⟨t, _, rfl, ht, htokens⟩ := spell_cons.1 htokens
  obtain ⟨read, last, rfl, hread, hlast⟩ := spell_append.1 htokens
  obtain ⟨u, rfl, hu⟩ := spell_singleton.1 hlast
  rw [List.cons_append, List.append_assoc, List.singleton_append] at hclear
  obtain ⟨w, hw, hvalue⟩ :=
    exists_enumerationValue ws he hnames ht hread hu (clear_cons.1 hclear).2
  simp only [Token.is, Bool.and_eq_true, beq_iff_eq, Piece.word] at ht
  refine ⟨w, hw, t, _, rfl, ?_, ?_, ?_⟩
  · simp [isClosing, Token.is, ht.1]
  · simp [isSemicolon, Token.is, ht.1]
  · rw [List.cons_append, List.append_assoc, List.singleton_append, enumerationItem,
      State.salvage]
    exact construct_of_accepted hvalue rfl

end Value

section Enumeration

variable {s : State} {tokens rest taken : List Token} {d : Document} {ws : List Binding}
  {x : Draft.Enumeration}

/-- A builtin between angle brackets is the type underneath. -/
theorem run_typeParameter {b? : Option Builtin} (classifier : String)
    (scope : Option StructureId) (ws : List Binding)
    (htokens : Spell tokens (Draft.parameterPieces b?))
    (hclear : Clear (tokens ++ rest)) (hstop : ∀ t ∈ rest.head?, t.kind = .identifier) :
    typeParameter classifier scope (s.facing (tokens ++ rest) d ws) =
      .ok (b?.map fun b => .known (.builtin b)) (s.facing rest d ws) := by
  cases b? with
  | none =>
    rw [Draft.parameterPieces, spell_nil] at htokens
    subst htokens
    have hless : isAt .relation "<" (s.facing rest d ws) = .ok false (s.facing rest d ws) :=
      run_isAt_false fun t ht => by simp [Token.is, hstop t ht]
    exact run_bind_of_ok hless _
  | some b =>
    obtain ⟨t, _, rfl, ht, htokens⟩ := spell_cons.1 htokens
    obtain ⟨u, _, rfl, hu, htokens⟩ := spell_cons.1 htokens
    obtain ⟨v, rfl, hv⟩ := spell_singleton.1 htokens
    simp only [List.cons_append, List.nil_append, clear_cons] at hclear ⊢
    have hclear₁ : Clear (v :: rest) := clear_cons.2 ⟨hclear.2.2.1, hclear.2.2.2⟩
    have hless : isAt .relation "<" (s.facing (t :: u :: v :: rest) d ws) =
        .ok true (s.facing (t :: u :: v :: rest) d ws) := congrArg (EStateM.Result.ok · _) ht
    have hadvance : advance (s.facing (t :: u :: v :: rest) d ws) =
        .ok () (s.facing (u :: v :: rest) d ws) := run_advance (clear_cons.2 ⟨hclear.2.1, hclear₁⟩)
    have hgreater : expectToken .relation ">" (s.facing (v :: rest) d ws) =
        .ok v (s.facing rest d ws) := run_expectToken hv hclear.2.2.2
    simp only [Token.is, Bool.and_eq_true, beq_iff_eq, Piece.word, Piece.greater] at hu hv
    have htemplate : Template.ofKeyword? u.text = none := by
      rw [hu.2]
      cases b <;> rfl
    have hdot : ∀ w ∈ (v :: rest).head?, w.is .dot "." = false := by
      rintro _ ⟨⟩
      simp [Token.is, hv.1]
    have hshells : Spell [] (TypeExpr.openings []) := spell_nil.2 rfl
    have htemplates : templates classifier (s.facing (u :: v :: rest) d ws) =
        .ok ([], ⟨[], u, u⟩) (s.facing (v :: rest) d ws) :=
      run_templates hshells hu.1 htemplate (clear_cons.2 ⟨hclear.2.1, hclear₁⟩) hdot
    have hmeans : d.findUnqualified? s.package scope u.text = some (.builtin b) := by
      simp only [hu.2, findUnqualified?, Builtin.ofKeyword?_keyword]
    have hfind : (s.facing (v :: rest) d ws).find? scope ⟨[], u, u⟩ = some (.builtin b) := hmeans
    have htype : typeUse classifier scope false (s.facing (u :: v :: rest) d ws) =
        .ok (.known (.builtin b)) (s.facing (v :: rest) d ws) := by
      rw [typeUse, run_bind_of_ok htemplates]
      simp only [run_bind_get, hfind]
      rfl
    rw [typeParameter, run_bind_of_ok hless, if_pos rfl, run_bind_of_ok hadvance,
      run_bind_of_ok htype, run_bind_of_ok hgreater]
    rfl

/-- An enumeration without values is there when its name has been read. -/
theorem exists_enumerationHeader {back parameter : List Token} {t u v : Token}
    (d : Document) (ws : List Binding) (hpackage : s.package = none)
    (htaken : Spell taken (x.front.words.map .word)) (ht : t.is .identifier "enum" = true)
    (hparameter : Spell parameter (Draft.parameterPieces x.parameter))
    (hu : u.is .identifier x.name = true)
    (hback : Spell back (Draft.behindPieces x.flagsBehind)) (hv : isOpening v = true)
    (hclear : Clear (t :: (parameter ++ u :: (back ++ v :: rest)))) :
    ∃ e : Enumeration, ({ x with values := [] } : Draft.Enumeration).Resembles e ∧
      enumerationHeader none taken none
          (s.facing (t :: (parameter ++ u :: (back ++ v :: rest))) d ws) =
        .ok d.enumerations.next (s.facing (v :: rest) (d.insertEnumeration e) ws) := by
  obtain ⟨front, b?, name, behind, values⟩ := x
  obtain ⟨hflags, hcast, -⟩ := front_of_spell htaken
  have hclear₁ : Clear (parameter ++ u :: (back ++ v :: rest)) := (clear_cons.1 hclear).2
  have hclear₂ : Clear (back ++ v :: rest) := (clear_cons.1 (clear_append.1 hclear₁).2).2
  have hclear₃ : Clear rest := (clear_cons.1 (clear_append.1 hclear₂).2).2
  have hkind : u.kind = .identifier := by
    simp only [Token.is, Bool.and_eq_true, beq_iff_eq] at hu
    exact hu.1
  have htype := run_typeParameter (s := s) (d := d) "enumeration parameter" none ws hparameter
    hclear₁ (by rintro _ ⟨⟩; exact hkind)
  let e : Enumeration :=
    { name := ⟨name, s.locationOf u⟩
      location := s.locationOf t
      package := s.package
      parameter := some (.builtin (b?.getD .integer))
      flags := isTaken taken "flags" || behind
      cast := castOf taken }
  refine ⟨e, ⟨rfl, hpackage, rfl, rfl, congrArg (· || behind) hflags, hcast, rfl⟩, ?_⟩
  have huse : (b?.map fun b => TypeUse.known (.builtin b)).getD plainParameter =
      .known (.builtin (b?.getD .integer)) := by
    cases b? <;> rfl
  simp only [enumerationHeader, run_bind_of_ok (run_expectKeyword ht hclear₁),
    run_bind_of_ok htype, run_bind_of_ok (run_expectName hu hclear₂ _), huse]
  cases behind with
  | true =>
    obtain ⟨w, rfl, hw⟩ := spell_singleton.1 hback
    have hat : isAtKeyword "flags" (s.facing (w :: v :: rest) d ws) =
        .ok true (s.facing (w :: v :: rest) d ws) := congrArg (EStateM.Result.ok · _) hw
    have hadvance : advance (s.facing (w :: v :: rest) d ws) =
        .ok () (s.facing (v :: rest) d ws) := run_advance (clear_cons.1 hclear₂).2
    exact (run_bind_of_ok hat _).trans ((run_bind_of_ok hadvance _).trans rfl)
  | false =>
    simp only [Draft.behindPieces, Bool.false_eq_true, if_false, spell_nil] at hback
    subst hback
    have hat : isAtKeyword "flags" (s.facing (v :: rest) d ws) =
        .ok false (s.facing (v :: rest) d ws) := by
      simp only [isOpening, Token.is, Bool.and_eq_true, beq_iff_eq] at hv
      exact run_isAt_false (by rintro _ ⟨⟩; simp [Token.is, hv.1])
    exact (run_bind_of_ok hat _).trans rfl

theorem modifyEnumeration_insertEnumeration (d : Document) (e : Enumeration)
    (f : Enumeration → Enumeration) :
    (d.insertEnumeration e).modifyEnumeration d.enumerations.next f =
      d.insertEnumeration (f e) := by
  have harena : (d.enumerations.insert e).modify d.enumerations.next f =
      d.enumerations.insert (f e) := by
    refine Arena.ext' fun i => ?_
    simp only [Arena.get?_modify, Arena.get?_insert]
    split <;> rfl
  exact congrArg (fun enumerations => { d with enumerations }) harena

/-- With each item that is taken the enumeration gets the value that was described. -/
def HasRead (x : Draft.Enumeration) (e : Enumeration) (d : Document) (ws : List Binding)
    (before : List Draft.Value) (_ : List Token) (d' : Document) (ws' : List Binding) : Prop :=
  ∃ values, values.map (fun v : EnumerationValue => (v.name.value, v.parts)) =
    before.map (Draft.Value.view x.position) ∧ d' = d.insertEnumeration { e with values } ∧ ws' = ws

/-- All values are read, one after the other. -/
theorem exists_values {inner : List Token} {t : Token} {e : Enumeration} (d : Document)
    (ws : List Binding) (hx : x.IsWellFormed) (he : e.values = [])
    (hinner : Spell inner (x.values.flatMap Draft.Value.pieces)) (ht : isClosing t = true)
    (hclear : Clear (inner ++ t :: rest)) :
    ∃ values, values.map (fun v : EnumerationValue => (v.name.value, v.parts)) =
        x.values.map (Draft.Value.view x.position) ∧
      items "enumeration" (enumerationItem d.enumerations.next)
          (s.facing (inner ++ t :: rest) (d.insertEnumeration e) ws) =
        .ok () (s.facing rest (d.insertEnumeration { e with values }) ws) := by
  let P (before : List Draft.Value) (v : Draft.Value) : Prop :=
    ∃ i, x.values[i]? = some v ∧ before = x.values.take i
  have hstep {before : List Draft.Value} {read : List Token} {v : Draft.Value}
      {tokens rest : List Token} {d' : Document} {ws' : List Binding}
      (h : HasRead x e d ws before read d' ws') (hv : P before v) (htokens : Spell tokens v.pieces)
      (hclear : Clear (tokens ++ rest)) :
      ∃ d'' ws'', TakesItem (enumerationItem d.enumerations.next) s tokens rest d' d'' ws' ws'' ∧
        HasRead x e d ws (before ++ [v]) (read ++ tokens) d'' ws'' := by
    obtain ⟨values, hvalues, rfl, rfl⟩ := h
    obtain ⟨i, hread, rfl⟩ := hv
    have hrefers := hx.refers (v, i) (List.mk_mem_zipIdx_iff_getElem?.2 hread)
    have hget : (d.insertEnumeration { e with values }).enumerations.get? d.enumerations.next =
        some { e with values } := (Arena.get?_insert ..).trans (if_pos rfl)
    obtain ⟨w, hw, hitem⟩ := exists_valueItem ws' hget
      (fun names hnames => ⟨(hrefers names hnames).1, hx.position?_eq hread hvalues hnames⟩)
      htokens hclear
    rw [modifyEnumeration_insertEnumeration] at hitem
    refine ⟨_, _, hitem, values ++ [w], ?_, rfl, rfl⟩
    rw [List.map_append, List.map_append, hvalues, List.map_singleton, List.map_singleton, hw]
  have hstart : HasRead x e d ws [] [] (d.insertEnumeration e) ws := ⟨[], rfl, by rw [← he], rfl⟩
  have hall : ∀ i v, x.values[i]? = some v → P ([] ++ x.values.take i) v :=
    fun i v hv => ⟨i, hv, rfl⟩
  obtain ⟨d', ws', hitems, values, hvalues, rfl, rfl⟩ :=
    run_items (R := HasRead x e d ws) (P := P) hstep hstart hall hinner ht hclear
  exact ⟨values, hvalues, hitems⟩

/-- An enumeration is read as it was described, when the modifiers in front of it were read. -/
theorem exists_enumeration (d : Document) (ws : List Binding) (hx : x.IsWellFormed)
    (hpackage : s.package = none) (htaken : Spell taken (x.front.words.map .word))
    (htokens : Spell tokens x.barePieces) (hclear : Clear (tokens ++ rest)) :
    ∃ e, x.Describes e ∧ enumeration none taken none (s.facing (tokens ++ rest) d ws) =
      .ok d.enumerations.next (s.facing rest (d.insertEnumeration e) ws) := by
  obtain ⟨t, _, rfl, ht, hmore⟩ := spell_cons.1 htokens
  obtain ⟨parameter, _, rfl, hparameter, hmore⟩ := spell_append.1 hmore
  obtain ⟨u, _, rfl, hu, hmore⟩ := spell_cons.1 hmore
  obtain ⟨back, _, rfl, hback, hmore⟩ := spell_append.1 hmore
  obtain ⟨v, _, rfl, hv, hmore⟩ := spell_cons.1 hmore
  obtain ⟨inner, last, rfl, hinner, hlast⟩ := spell_append.1 hmore
  obtain ⟨w, rfl, hw⟩ := spell_singleton.1 hlast
  simp only [List.cons_append, List.append_assoc, List.nil_append] at hclear ⊢
  obtain ⟨e, he, hheader⟩ :=
    exists_enumerationHeader d ws hpackage htaken ht hparameter hu hback hv hclear
  have hclear' : Clear (inner ++ w :: rest) := by
    simp only [clear_cons, clear_append] at hclear ⊢
    exact hclear.2.2.2.2.2
  obtain ⟨values, hvalues, hitems⟩ :=
    exists_values d ws hx (List.map_eq_nil_iff.1 he.values) hinner hw hclear'
  refine ⟨_, (he.ofValues hvalues).assignValues hx, ?_⟩
  have hbody : body "enumeration" (enumerationItem d.enumerations.next)
      (s.facing (v :: (inner ++ w :: rest)) (d.insertEnumeration e) ws) =
        .ok () (s.facing rest (d.insertEnumeration { e with values }) ws) :=
    (run_bind_of_ok (run_openBody hv _) _).trans hitems
  rw [enumeration, run_bind_of_ok hheader, run_bind_of_ok hbody,
    ← modifyEnumeration_insertEnumeration]
  rfl

end Enumeration

section Draft

variable {s : State} {front : Draft.Front} {name : String} {behind : Bool} {values : List String}
  {taken tokens rest : List Token} {d : Document}

/-- Values without parts are what a description with these values has. -/
theorem view_of_describes {e : Enumeration} {id : EnumerationId}
    (h : ({ front, name, flagsBehind := behind, values := values.map fun v => { name := v } } :
      Draft.Enumeration).Describes e) (he : d.enumerations.get? id = some e) :
    d.viewAs (fun _ => none) (.enum id) =
      some ((Draft.enum front name behind values).view fun _ => none) := by
  have hvalues : e.values.map (fun v => (v.name.value, v.parts)) = values.map (·, none) := by
    refine h.values.trans ?_
    rw [List.map_map]
    rfl
  simp only [viewAs, he, Option.map_some, Draft.view, h.name, h.flags, h.cast, hvalues]
  rfl

/-- A draft is read as a description in which all values are absolute. -/
theorem exists_draftedEnumeration (ws : List Binding) (hd : d.IsPlain)
    (hpackage : s.package = none) (hvalues : values.Nodup)
    (htaken : Spell taken (front.words.map .word))
    (htokens : Spell tokens (.word "enum" :: .word name ::
      (Draft.behindPieces behind ++ .opening ::
        (values.flatMap Draft.valuePieces ++ [.closing]))))
    (hclear : Clear (tokens ++ rest)) :
    ∃ d' ws', enumeration none taken none (s.facing (tokens ++ rest) d ws) =
        .ok d.enumerations.next (s.facing rest d' ws') ∧
      s.Drafted none (Draft.enum front name behind values).pieces (taken ++ tokens) d ws
        (.enum front name behind values) (.enum d.enumerations.next) d' ws' := by
  let x : Draft.Enumeration :=
    { front, name, flagsBehind := behind, values := values.map fun v => { name := v } }
  have hx : x.IsWellFormed := by
    refine ⟨?_, fun p hp names hnames => ?_, nofun⟩
    · simpa [x, Function.comp_def] using hvalues
    · obtain ⟨v, -, hv⟩ := List.mem_map.1 (List.fst_mem_of_mem_zipIdx hp)
      simp [← hv] at hnames
  have hpieces : x.pieces = (Draft.enum front name behind values).pieces := by
    simp only [Draft.Enumeration.pieces, Draft.Enumeration.barePieces, Draft.pieces, x,
      List.flatMap_map]
    rfl
  have htokens' : Spell tokens x.barePieces := by
    rwa [← List.append_cancel_left hpieces] at htokens
  obtain ⟨e, he, hrun⟩ := exists_enumeration d ws hx hpackage htaken htokens' hclear
  have hget : (d.insertEnumeration e).enumerations.get? d.enumerations.next = some e :=
    (Arena.get?_insert ..).trans (if_pos rfl)
  have hkeeps : d.Keeps (d.insertEnumeration e) :=
    keeps_of_made rfl rfl (slot?_insertEnumeration d e) (by simp [slot?, get?_next])
  refine ⟨_, ws, hrun, State.drafted_of_keeps hkeeps
    (hd.insertEnumeration ⟨he.package, he.parameter⟩) (view_of_describes he hget) rfl
    (htaken.append htokens) fun p hp => ?_⟩
  rw [← hpieces] at hp
  exact Draft.Enumeration.classifier_eq_none hp

end Draft

end Idl.Grammar
