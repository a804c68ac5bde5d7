import Idl.Proofs.Draft.View
import Idl.Proofs.Grammar.Interface

/-!
Interfaces that are read as they were drafted. A method is there when its name has been read, so
the draft grows by a method without parameters, and then by one parameter after the other.
-/

namespace Idl.Grammar

open Document

variable {s : State} {id : InterfaceId} {name method : String} {before : List Draft.Method}
  {parameters : List Draft.Parameter} {pieces : List Piece} {read tokens rest : List Token}
  {d₀ d d' : Document} {ws₀ ws : List Binding} {p : Draft.Parameter} {t : Token}

/-- The interface that was drafted so far has a method for each that was drafted. -/
theorem exists_interface
    (h : d.viewAs (fun _ => none) (.interface id) = some ((Draft.interface name before).view
      fun _ => none)) :
    ∃ x, d.interfaces.get? id = some x ∧ x.methods.length = before.length := by
  simp only [viewAs, Draft.view, Option.map_eq_some_iff, View.interface.injEq] at h
  obtain ⟨x, hx, -, hmethods⟩ := h
  exact ⟨x, hx, by simpa using congrArg List.length hmethods⟩

theorem view_addMethod {m : Method} (hname : m.name.value = method) (hm : m.parameters = [])
    (h : d.viewAs (fun _ => none) (.interface id) = some ((Draft.interface name before).view
      fun _ => none)) :
    (d.modifyInterface id (·.addMethod m)).viewAs (fun _ => none) (.interface id) =
      some ((Draft.interface name (before ++ [⟨method, []⟩])).view fun _ => none) := by
  simp only [viewAs, Draft.view, Option.map_eq_some_iff, View.interface.injEq] at h ⊢
  obtain ⟨x, hx, hname', hmethods⟩ := h
  refine ⟨x.addMethod m, ?_, hname', ?_⟩
  · simp [modifyInterface, Arena.get?_modify, hx]
  · simp [Interface.addMethod, hmethods, Method.view, hname, hm]

/-- The last method is the one that is being read. -/
theorem exists_method
    (h : d.viewAs (fun _ => none) (.interface id) = some ((Draft.interface name
      (before ++ [⟨method, parameters⟩])).view fun _ => none)) :
    ∃ x methods m, d.interfaces.get? id = some x ∧ x.name.value = name ∧
      x.methods = methods ++ [m] ∧
      methods.map (Method.view fun _ => none) =
        before.map (fun m => (m.name, m.parameters.map fun p => (p.direction, p.name, none))) ∧
      m.view (fun _ => none) =
        (method, parameters.map fun p => (p.direction, p.name, none)) := by
  simp only [viewAs, Draft.view, Option.map_eq_some_iff, View.interface.injEq] at h
  obtain ⟨x, hx, hname, hmethods⟩ := h
  rw [List.map_append, List.map_eq_append_iff] at hmethods
  obtain ⟨methods, last, hsplit, hbefore, hlast⟩ := hmethods
  obtain ⟨m, rfl, hm⟩ := List.map_eq_singleton_iff.1 hlast
  exact ⟨x, methods, m, hx, hname, hsplit, hbefore, hm⟩

theorem modify_length_append {α : Type} (l : List α) (a : α) (f : α → α) :
    (l ++ [a]).modify l.length f = l ++ [f a] := by
  induction l with
  | nil => rfl
  | cons b l ih => exact congrArg (b :: ·) ih

theorem view_addParameter {q : Parameter} (hdirection : q.direction = p.direction)
    (hname : q.name.value = p.name)
    (h : d.viewAs (fun _ => none) (.interface id) = some ((Draft.interface name
      (before ++ [⟨method, parameters⟩])).view fun _ => none)) :
    (d.modifyInterface id (·.addParameter before.length q)).viewAs (fun _ => none)
        (.interface id) =
      some ((Draft.interface name (before ++ [⟨method, parameters ++ [p]⟩])).view
        fun _ => none) := by
  obtain ⟨x, methods, m, hx, hname', hsplit, hbefore, hm⟩ := exists_method h
  have hlength : methods.length = before.length := by simpa using congrArg List.length hbefore
  obtain ⟨hmethod, hparameters⟩ := Prod.mk.inj hm
  simp only [viewAs, Draft.view, Option.map_eq_some_iff, View.interface.injEq]
  refine ⟨x.addParameter before.length q, ?_, hname', ?_⟩
  · simp [modifyInterface, Arena.get?_modify, hx]
  · rw [Interface.addParameter, hsplit, ← hlength, modify_length_append, List.map_append, hbefore,
      List.map_append]
    simp [Method.view, hmethod, hparameters, hdirection, hname]

/-- When its type has been read, a parameter is made with a slot for the type. -/
theorem run_parameter {use : TypeUse} {a t u : Token} {x : Interface} {m : Method} {position : Nat}
    {type : List Token} {ws' : List Binding}
    (hrun : typeUse "parameter" none false (s.facing type d ws) =
      .ok use (s.facing (t :: u :: rest) d' ws'))
    (ha : a.is .arrow p.direction.arrow = true) (htype : Clear type)
    (ht : t.is .identifier p.name = true) (hu : u.is .delimiter ";" = true)
    (hclear : Clear (t :: u :: rest)) (hx : d'.interfaces.get? id = some x)
    (hm : x.methods[position]? = some m) :
    ∃ q : Parameter, q.direction = p.direction ∧ q.name.value = p.name ∧ q.type = use.type? ∧
      parameter id position none a (s.facing (a :: type) d ws) =
        .ok ⟨⟩ (s.facing rest (d'.modifyInterface id (·.addParameter position q))
          (ws' ++ use.bindings "parameter" none
            (.methodParameter id position m.parameters.length) s)) := by
  rw [clear_cons] at hclear
  have hdirection : (Direction.ofArrow? a.text).getD .input = p.direction := by
    simp only [Token.is, Bool.and_eq_true, beq_iff_eq] at ha
    rw [ha.2]
    cases p.direction <;> rfl
  let q : Parameter :=
    { name := ⟨p.name, s.locationOf t⟩
      location := s.locationOf a
      direction := p.direction
      type := use.type? }
  refine ⟨q, rfl, rfl, rfl, ?_⟩
  have hdocument : (s.facing rest d' ws').document = d' := rfl
  simp only [parameter, run_bind_of_ok (run_advance htype), run_bind_of_ok hrun,
    run_bind_of_ok (run_expectName ht hclear.2 _), run_bind_of_ok (run_expectSemicolon hu),
    run_bind_get, hdocument, hx, hm, hdirection, Option.bind_eq_bind, Option.bind_some,
    Option.pure_def, Option.getD_some]
  exact run_await use _

/-- A parameter is read as it was drafted. -/
theorem exists_parameterItem (h₀ : d₀.IsPlain) (hpackage : s.package = none)
    (h : s.Drafted none pieces read d₀ ws₀ (.interface name (before ++ [⟨method, parameters⟩]))
      (.interface id) d ws)
    (hleaf : p.type.leaf ∉ Draft.reserved) (htokens : Spell tokens p.pieces)
    (hclear : Clear (tokens ++ rest)) :
    ∃ d' ws', TakesItem (methodItem id before.length) s tokens rest d d' ws ws' ∧
      s.Drafted none (pieces ++ p.pieces) (read ++ tokens) d₀ ws₀
        (.interface name (before ++ [⟨method, parameters ++ [p]⟩])) (.interface id) d' ws' := by
  have hspell := htokens
  obtain ⟨a, tokens, rfl, ha, htokens⟩ := spell_cons.1 htokens
  have hrest : Clear (tokens ++ rest) := (clear_cons.1 hclear).2
  obtain ⟨t, u, use, d', ws', ht, hu, hclear', hrun, hfits⟩ :=
    exists_named_type ws h.gains.plain hpackage (ofKeyword?_of_not_reserved hleaf) htokens hrest
  have hview := (hfits.1.viewAs_eq _ _).trans h.readAs.view
  obtain ⟨x, methods, m, hx, -, hsplit, hbefore, hmethod⟩ := exists_method hview
  have hlength : methods.length = before.length := by simpa using congrArg List.length hbefore
  have hm : x.methods[before.length]? = some m := by simp [hsplit, ← hlength]
  have hposition : m.parameters.length = parameters.length := by
    simpa using congrArg List.length (Prod.mk.inj hmethod).2
  obtain ⟨q, hdirection, hname, hq, hparameter⟩ := run_parameter hrun ha hrest ht hu hclear' hx hm
  have hnone : d'.slot? (.methodParameter id before.length m.parameters.length) = none := by
    simp [slot?, hx, Interface.parameter?, hm]
  have hplain : d'.IsPlain :=
    (hfits.2 (.methodParameter id before.length m.parameters.length)).1.plain
  have hkind : a.kind = .arrow := by
    simp only [Token.is, Bool.and_eq_true, beq_iff_eq] at ha
    exact ha.1
  have hwritten : s.Drafted none (pieces ++ p.pieces) (read ++ a :: tokens) d₀ ws₀
      (.interface name (before ++ [⟨method, parameters ++ [p]⟩])) (.interface id)
      (d'.modifyInterface id (·.addParameter before.length q)) _ :=
    h.write h₀ hfits rfl rfl (fun o => by rw [slot?_addParameter d' hx hm, hq]) hnone
      (hplain.modifyInterface id _) (view_addParameter hdirection hname hview)
      (by rw [Draft.slots_addParameter, hposition]) hspell
  refine ⟨_, _, ⟨a, tokens, rfl, ?_, ?_, ?_⟩, hwritten⟩
  · simp [isClosing, Token.is, hkind]
  · simp [isSemicolon, Token.is, hkind]
  · have hread : (if a.kind == .arrow then parameter id before.length none a
        else unknownStatement a "method" "-->, <-- or <->") = parameter id before.length none a :=
      if_pos (beq_iff_eq.2 hkind)
    rw [methodItem, State.salvage, hread]
    exact construct_of_accepted hparameter rfl

/-- A method is there before its parameters are read. -/
theorem run_methodHeader {t u v : Token} {x : Interface} (ws : List Binding)
    (ht : t.is .identifier "method" = true) (hu : u.is .identifier method = true)
    (hv : isOpening v = true) (hclear : Clear (t :: u :: v :: rest))
    (hx : d.interfaces.get? id = some x) :
    ∃ m : Method, m.name.value = method ∧ m.parameters = [] ∧
      methodHeader id none (s.facing (t :: u :: v :: rest) d ws) =
        .ok x.methods.length (s.facing rest (d.modifyInterface id (·.addMethod m)) ws) := by
  simp only [clear_cons] at hclear
  have hclear₁ : Clear (u :: v :: rest) := clear_cons.2 ⟨hclear.2.1, clear_cons.2 hclear.2.2⟩
  have hclear₂ : Clear (v :: rest) := clear_cons.2 hclear.2.2
  refine ⟨{ name := ⟨method, s.locationOf u⟩, location := s.locationOf t }, rfl, rfl, ?_⟩
  have hdocument : (s.facing rest d ws).document = d := rfl
  simp only [methodHeader, run_bind_of_ok (run_expectKeyword ht hclear₁),
    run_bind_of_ok (run_expectName hu hclear₂ _), run_bind_of_ok (run_openBody hv _), run_bind_get,
    hdocument, hx, Option.map_some, Option.getD_some, run_bind_of_ok (run_modifyDocument _)]
  rfl

/-- A method is read as it was drafted. -/
theorem exists_methodItem {m : Draft.Method} (h₀ : d₀.IsPlain) (hpackage : s.package = none)
    (h : s.Drafted none pieces read d₀ ws₀ (.interface name before) (.interface id) d ws)
    (hleaf : ∀ p ∈ m.parameters, p.type.leaf ∉ Draft.reserved) (htokens : Spell tokens m.pieces)
    (hclear : Clear (tokens ++ rest)) :
    ∃ d' ws', TakesItem (interfaceItem id) s tokens rest d d' ws ws' ∧
      s.Drafted none (pieces ++ m.pieces) (read ++ tokens) d₀ ws₀
        (.interface name (before ++ [m])) (.interface id) d' ws' := by
  obtain ⟨t, u, v, tokens, rfl, ht, hu, hv, hfront, hinner⟩ := exists_spell_block htokens
  simp only [List.cons_append, List.nil_append] at hclear
  obtain ⟨x, hx, hlength⟩ := exists_interface h.readAs.view
  obtain ⟨n, hname, hn, hheader⟩ := run_methodHeader (s := s) ws ht hu hv hclear hx
  have hstart : s.Drafted none (pieces ++ [.word "method", .word m.name, .opening])
      (read ++ [t, u, v]) d₀ ws₀ (.interface name (before ++ [⟨m.name, []⟩])) (.interface id)
      (d.modifyInterface id (·.addMethod n)) ws :=
    h.extend h₀ (keeps_of_slot? rfl rfl (slot?_addMethod d id n hn))
      (h.gains.plain.modifyInterface id _) (view_addMethod hname hn h.readAs.view)
      (Draft.slots_addMethod name before m.name id) hfront (by simp [Piece.word, Piece.opening])
  have hinside : Clear (tokens ++ rest) :=
    (clear_cons.1 (clear_cons.1 (clear_cons.1 hclear).2).2).2
  obtain ⟨d', ws', hitems, hdrafted⟩ := exists_drafted_items "method"
    (fun parameters => .interface name (before ++ [⟨m.name, parameters⟩]))
    (exists_parameterItem h₀ hpackage) h₀ hstart hleaf hinner hinside
  have hmethod : Grammar.method id none (s.facing (t :: u :: v :: (tokens ++ rest)) d ws) =
      .ok ⟨⟩ (s.facing rest d' ws') := by
    rw [Grammar.method, run_bind_of_ok hheader, hlength]
    exact hitems
  simp only [Token.is, Bool.and_eq_true, beq_iff_eq] at ht
  refine ⟨d', ws', ⟨t, u :: v :: tokens, rfl, ?_, ?_, ?_⟩, ?_⟩
  · simp [isClosing, Token.is, ht.1]
  · simp [isSemicolon, Token.is, ht.1]
  · have hread : (if t.isKeyword "method" then Grammar.method id none
        else unknownStatement t "interface" "method") = Grammar.method id none :=
      if_pos (by simp [Token.isKeyword, Token.is, ht])
    rw [interfaceItem, State.salvage, hread]
    exact construct_of_accepted hmethod rfl
  · simpa [Draft.Method.pieces] using hdrafted

/-- An interface is there when its name has been read. -/
theorem run_interfaceHeader {t u : Token} (d : Document) (ws : List Binding)
    (ht : t.is .identifier "interface" = true) (hu : u.is .identifier name = true)
    (hclear : Clear (t :: u :: rest)) :
    ∃ x : Interface, x.methods = [] ∧ x.name.value = name ∧
      interfaceHeader none (s.facing (t :: u :: rest) d ws) =
        .ok d.interfaces.next (s.facing rest (d.insertInterface x) ws) := by
  rw [clear_cons] at hclear
  refine ⟨{ name := ⟨name, s.locationOf u⟩, location := s.locationOf t, package := s.package },
    rfl, rfl, ?_⟩
  simp only [interfaceHeader, run_bind_of_ok (run_expectKeyword ht hclear.2),
    run_bind_of_ok (run_expectName hu (clear_cons.1 hclear.2).2 _), run_bind_get,
    run_bind_of_ok (run_modifyDocument _)]
  rfl

/-- An interface is read as it was drafted. -/
theorem exists_interfaceDeclaration {methods : List Draft.Method} (hd : d.IsPlain)
    (hpackage : s.package = none)
    (hleaf : ∀ m ∈ methods, ∀ p ∈ m.parameters, p.type.leaf ∉ Draft.reserved)
    (htokens : Spell tokens (Draft.interface name methods).pieces)
    (hclear : Clear (tokens ++ rest)) :
    ∃ d' ws', interface none (s.facing (tokens ++ rest) d ws) =
        .ok d.interfaces.next (s.facing rest d' ws') ∧
      s.Drafted none (Draft.interface name methods).pieces tokens d ws
        (.interface name methods) (.interface d.interfaces.next) d' ws' := by
  obtain ⟨t, u, v, tokens, rfl, ht, hu, hv, hfront, hinner⟩ := exists_spell_block htokens
  simp only [List.cons_append, List.nil_append] at hclear ⊢
  obtain ⟨x, hmethods, hname, hheader⟩ := run_interfaceHeader (s := s) d ws ht hu hclear
  have hview : (d.insertInterface x).viewAs (fun _ => none) (.interface d.interfaces.next) =
      some ((Draft.interface name []).view fun _ => none) := by
    simp [viewAs, insertInterface, Arena.get?_insert, Draft.view, hname, hmethods]
  have hstart : s.Drafted none [.word "interface", .word name, .opening] [t, u, v] d ws
      (.interface name []) (.interface d.interfaces.next) (d.insertInterface x) ws :=
    State.drafted_of_keeps (keeps_of_slot? rfl rfl (slot?_insertInterface d x hmethods))
      (hd.insertInterface x) hview rfl hfront (by simp [Piece.word, Piece.opening])
  have hinside : Clear (tokens ++ rest) :=
    (clear_cons.1 (clear_cons.1 (clear_cons.1 hclear).2).2).2
  obtain ⟨d', ws', hitems, hdrafted⟩ :=
    exists_drafted_items "interface" (.interface name) (exists_methodItem hd hpackage) hd hstart
      hleaf hinner hinside
  refine ⟨d', ws', ?_, hdrafted⟩
  have hbody : body "interface" (interfaceItem d.interfaces.next)
      (s.facing (v :: (tokens ++ rest)) (d.insertInterface x) ws) =
        .ok () (s.facing rest d' ws') := (run_bind_of_ok (run_openBody hv _) _).trans hitems
  rw [interface, run_bind_of_ok hheader, run_bind_of_ok hbody]
  rfl

end Idl.Grammar
