import Idl.Proofs.Draft.Text
import Idl.Proofs.Grammar.Round
import Idl.Proofs.Reading.Run

/-!
Exact runs: what a parser does where the tokens in front of it are known. A state is taken
together from what the reading does not touch, the tokens in front, the document and the names
that wait; so the run of a parser is known from what it makes of these three.
-/

namespace Idl.Grammar

/-- There are no comments among the tokens. -/
def Clear (tokens : List Token) : Prop :=
  ∀ t ∈ tokens, t.isComment = false

theorem clear_cons {t : Token} {rest : List Token} :
    Clear (t :: rest) ↔ t.isComment = false ∧ Clear rest :=
  List.forall_mem_cons

theorem clear_append {a b : List Token} : Clear (a ++ b) ↔ Clear a ∧ Clear b :=
  List.forall_mem_append

theorem Clear.dropWhile_eq {tokens : List Token} (h : Clear tokens) :
    tokens.dropWhile Token.isComment = tokens := by
  cases tokens with
  | nil => rfl
  | cons t rest => simp [(clear_cons.1 h).1]

theorem Clear.takeWhile_eq {tokens : List Token} (h : Clear tokens) :
    tokens.takeWhile Token.isComment = [] := by
  cases tokens with
  | nil => rfl
  | cons t rest => simp [(clear_cons.1 h).1]

theorem clear_of_spell {tokens : List Token} {pieces : List Piece} (h : Spell tokens pieces)
    (hp : ∀ p ∈ pieces, p.kind ≠ .comment) : Clear tokens := by
  induction pieces generalizing tokens with
  | nil =>
    rw [spell_nil.1 h]
    exact fun _ ht => absurd ht List.not_mem_nil
  | cons p pieces ih =>
    obtain ⟨t, rest, rfl, ht, hrest⟩ := spell_cons.1 h
    rw [List.forall_mem_cons] at hp
    simp only [Token.is, Bool.and_eq_true, beq_iff_eq] at ht
    exact clear_cons.2 ⟨by simp [Token.isComment, ht.1, hp.1], ih hrest hp.2⟩

namespace State

/-- The state with other tokens in front of it, another document and other names that wait. -/
def facing (s : State) (tokens : List Token) (d : Document) (ws : List Binding) : State :=
  { s with cursor := { s.cursor with rest := tokens }, document := d, pending := ws }

theorem facing_self (s : State) : s.facing s.cursor.rest s.document s.pending = s :=
  rfl

variable {s : State} {t : Token} {tokens rest : List Token} {d : Document} {ws : List Binding}

theorem remaining_facing : (s.facing tokens d ws).remaining = tokens.length :=
  rfl

theorem skipComments_facing (h : Clear tokens) :
    (s.facing tokens d ws).skipComments = s.facing tokens d ws := by
  change s.facing (tokens.dropWhile Token.isComment) d ws = _
  rw [h.dropWhile_eq]

theorem advance_facing (h : Clear rest) :
    (s.facing (t :: rest) d ws).advance = s.facing rest d ws :=
  skipComments_facing h

theorem leadingComment_facing (h : Clear tokens) :
    (s.facing tokens d ws).leadingComment = (none, s.facing tokens d ws) := by
  have hnone : (s.facing tokens d ws).commentOf? tokens = none := by
    rw [commentOf?, h.takeWhile_eq]
    rfl
  exact Prod.ext hnone (skipComments_facing h)

theorem leadingComment_of_clear {s : State} (h : Clear s.cursor.rest) :
    s.leadingComment = (none, s) :=
  s.facing_self ▸ leadingComment_facing h

end State

section Run

variable {s : State} {t : Token} {rest : List Token} {d : Document} {ws : List Binding}

theorem run_isAt (kind : Token.Kind) (text : String) :
    isAt kind text (s.facing (t :: rest) d ws) =
      .ok (t.is kind text) (s.facing (t :: rest) d ws) :=
  rfl

theorem run_advance (h : Clear rest) :
    advance (s.facing (t :: rest) d ws) = .ok () (s.facing rest d ws) :=
  congrArg (EStateM.Result.ok ()) (State.advance_facing h)

theorem run_demand {accept : Token → Bool} (ht : accept t = true) (kind : Message.Kind)
    (params : List (Message.Param × String)) :
    demand accept kind params (s.facing (t :: rest) d ws) =
      .ok t (s.facing (t :: rest) d ws) := by
  have hcurrent : (s.facing (t :: rest) d ws).current.filter accept = some t :=
    (Option.filter_some ..).trans (if_pos ht)
  simp only [demand, run_bind_get, hcurrent]
  rfl

theorem run_expect {accept : Token → Bool} (ht : accept t = true) (h : Clear rest)
    (kind : Message.Kind) (params : List (Message.Param × String)) :
    expect accept kind params (s.facing (t :: rest) d ws) = .ok t (s.facing rest d ws) := by
  rw [expect, run_bind_of_ok (run_demand ht kind params), run_bind_of_ok (run_advance h)]
  rfl

theorem run_expectKeyword {keyword : String} (ht : t.is .identifier keyword = true)
    (h : Clear rest) :
    expectKeyword keyword (s.facing (t :: rest) d ws) = .ok t (s.facing rest d ws) :=
  run_expect ht h _ _

theorem run_expectToken {kind : Token.Kind} {text : String} (ht : t.is kind text = true)
    (h : Clear rest) :
    expectToken kind text (s.facing (t :: rest) d ws) = .ok t (s.facing rest d ws) :=
  run_expect ht h _ _

theorem run_expectName {name : String} (ht : t.is .identifier name = true) (h : Clear rest)
    (statement : String) :
    expectName statement (s.facing (t :: rest) d ws) =
      .ok ⟨name, s.locationOf t⟩ (s.facing rest d ws) := by
  simp only [Token.is, Bool.and_eq_true, beq_iff_eq] at ht
  have hkind : (t.kind == .identifier) = true := beq_iff_eq.2 ht.1
  have hread : expect (fun t => t.kind == .identifier) .expectStatementName
      [(.statement, statement)] (s.facing (t :: rest) d ws) = .ok t (s.facing rest d ws) :=
    run_expect hkind h _ _
  rw [expectName, run_bind_of_ok hread, run_bind_get, ← ht.2]
  rfl

theorem run_expectSemicolon (ht : t.is .delimiter ";" = true) :
    expectSemicolon (s.facing (t :: rest) d ws) = .ok () (s.facing rest d ws) := by
  rw [expectSemicolon, run_bind_of_ok (run_demand ht _ _)]
  rfl

theorem run_openBody (ht : t.is .bracket "\x7b" = true) (statement : String) :
    openBody statement (s.facing (t :: rest) d ws) = .ok () (s.facing rest d ws) := by
  rw [openBody, run_bind_of_ok (run_demand ht _ _)]
  rfl

theorem run_modifyDocument {tokens : List Token} (f : Document → Document) :
    modifyDocument f (s.facing tokens d ws) = .ok ⟨⟩ (s.facing tokens (f d) ws) :=
  rfl

theorem run_isAt_false {kind : Token.Kind} {text : String}
    (h : ∀ t ∈ rest.head?, t.is kind text = false) :
    isAt kind text (s.facing rest d ws) = .ok false (s.facing rest d ws) := by
  cases rest with
  | nil => rfl
  | cons t rest => exact (run_isAt kind text).trans (by rw [h t rfl])

end Run

section Modifiers

variable {s : State} {t : Token} {front rest : List Token} {d : Document} {ws : List Binding}

/-- Modifiers are read up to a token that is none. -/
theorem run_modifiers {words : List String}
    (hfront : ∀ t ∈ front, t.kind = .identifier ∧ t.text ∈ words)
    (ht : (t.kind == .identifier && words.contains t.text) = false)
    (hclear : Clear (front ++ t :: rest)) :
    modifiers words (s.facing (front ++ t :: rest) d ws) =
      .ok front (s.facing (t :: rest) d ws) := by
  -- The modifiers that were read before stand in front of those that are still to be read.
  suffices hall : ∀ taken : List Token,
      iterate (modifierRound words) taken (s.facing (front ++ t :: rest) d ws) =
        .ok (taken ++ front) (s.facing (t :: rest) d ws) from hall []
  induction front with
  | nil =>
    intro taken
    refine iterate_of_done ?_
    have hcurrent : (s.facing (t :: rest) d ws).current = some t := rfl
    simp only [modifierRound, List.nil_append, run_bind_get, hcurrent, ht, Bool.false_eq_true,
      if_false, List.append_nil]
    rfl
  | cons u front ih =>
    intro taken
    rw [List.forall_mem_cons] at hfront
    rw [List.cons_append, clear_cons] at hclear
    have hu : (u.kind == .identifier && words.contains u.text) = true := by
      simp [hfront.1]
    have hcurrent : (s.facing (u :: (front ++ t :: rest)) d ws).current = some u := rfl
    have hrest := ih hfront.2 hclear.2 (taken ++ [u])
    rw [List.append_assoc, List.singleton_append] at hrest
    rw [← hrest]
    refine iterate_of_again ?_ (Nat.lt_succ_self _)
    simp only [modifierRound, List.cons_append, run_bind_get, hcurrent, hu, if_true,
      run_bind_of_ok (run_advance hclear.2)]
    rfl

theorem leftOver_nil (groups : List (List String)) : leftOver [] groups = [] := by
  induction groups with
  | nil => rfl
  | cons group groups ih => exact ih

end Modifiers

section Items

variable {s : State} {statement : String} {item : Item} {t : Token} {rest : List Token}
  {d : Document} {ws : List Binding}

theorem run_bodyRound_closing (ht : isClosing t = true) (h : Clear (t :: rest)) :
    bodyRound statement item (s.facing (t :: rest) d ws) =
      .ok (.done ()) (s.facing rest d ws) := by
  simp only [bodyRound, run_bind_modifyGet, State.leadingComment_facing h, run_bind_get]
  have hcurrent : (s.facing (t :: rest) d ws).current = some t := rfl
  simp only [hcurrent, ht, if_true]
  rfl

theorem run_bodyRound_item (hc : isClosing t = false) (hs : isSemicolon t = false)
    (h : Clear (t :: rest)) :
    bodyRound statement item (s.facing (t :: rest) d ws) =
      .ok (.again ()) (item none t (s.facing (t :: rest) d ws)) := by
  simp only [bodyRound, run_bind_modifyGet, State.leadingComment_facing h, run_bind_get]
  have hcurrent : (s.facing (t :: rest) d ws).current = some t := rfl
  simp only [hcurrent, hc, hs, Bool.false_eq_true, if_false]
  rfl

/-- The item of a body takes just these tokens, and leaves this document and these names. -/
def TakesItem (item : Item) (s : State) (tokens rest : List Token) (d d' : Document)
    (ws ws' : List Binding) : Prop :=
  ∃ t tail, tokens = t :: tail ∧ isClosing t = false ∧ isSemicolon t = false ∧
    item none t (s.facing (tokens ++ rest) d ws) = s.facing rest d' ws'

/-- A body of items that are taken one after the other. `R` says what has become of the items
that were read, from their tokens, in the document and the names that wait; `P` is what is known
of an item behind those in front of it. -/
theorem run_items {α : Type} {spell : α → List Piece} {P : List α → α → Prop}
    {R : List α → List Token → Document → List Binding → Prop}
    (hstep : ∀ {before read a tokens rest d ws}, R before read d ws → P before a →
      Spell tokens (spell a) → Clear (tokens ++ rest) →
      ∃ d' ws', TakesItem item s tokens rest d d' ws ws' ∧
        R (before ++ [a]) (read ++ tokens) d' ws')
    {todo before : List α} {read tokens : List Token} (hR : R before read d ws)
    (hP : ∀ i a, todo[i]? = some a → P (before ++ todo.take i) a)
    (ht : Spell tokens (todo.flatMap spell)) (hclosing : isClosing t = true)
    (hclear : Clear (tokens ++ t :: rest)) :
    ∃ d' ws', items statement item (s.facing (tokens ++ t :: rest) d ws) =
        .ok () (s.facing rest d' ws') ∧
      R (before ++ todo) (read ++ tokens) d' ws' := by
  induction todo generalizing before read tokens d ws with
  | nil =>
    rw [List.flatMap_nil, spell_nil] at ht
    subst ht
    refine ⟨d, ws, iterate_of_done (run_bodyRound_closing hclosing hclear), ?_⟩
    rwa [List.append_nil, List.append_nil]
  | cons a todo ih =>
    rw [List.flatMap_cons, spell_append] at ht
    obtain ⟨first, more, rfl, hfirst, hmore⟩ := ht
    rw [List.append_assoc] at hclear
    have ha : P before a := by simpa using hP 0 a rfl
    have hrest : ∀ i b, todo[i]? = some b → P (before ++ [a] ++ todo.take i) b :=
      fun i b hb => by simpa using hP (i + 1) b hb
    obtain ⟨d₁, ws₁, ⟨u, tail, hu, hc, hs, hitem⟩, hR₁⟩ := hstep hR ha hfirst hclear
    obtain ⟨d', ws', hrun, hR'⟩ := ih hR₁ hrest hmore (clear_append.1 hclear).2
    refine ⟨d', ws', ?_, by simpa using hR'⟩
    rw [← hrun, List.append_assoc, ← hitem]
    subst hu
    refine iterate_of_again (run_bodyRound_item hc hs hclear) ?_
    rw [hitem]
    simp only [State.remaining_facing, List.length_append, List.length_cons]
    omega

end Items

end Idl.Grammar
