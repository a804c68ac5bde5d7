import Idl.Proofs.Reading.Bracket
import Idl.Proofs.Reading.Repetition
import Idl.Proofs.Reading.Stray

/-!
Parsers that ignore a stray semicolon. They do the same with it and without it, wherever they start
but right in front of it. There only the items of a body start, and the semicolon is a round more
among them that leaves nothing behind.
-/

namespace Idl.Grammar

/-- How the readings stand behind a round. -/
def Round.edge {α β : Type} (again done : Edge) : Round α β → Edge
  | .again _ => again
  | .done _ => done

section Ignores

variable {α β : Type} {x : Option Stray} {edge edge' edge'' : Edge} {p p' : Parser α}
  {f f' : α → Parser β} {s s' : State}

/-- With the semicolon `p'` does from `s'` what `p` does without it from `s`. Behind a result the
readings stand as `behind` says; where they fail they are not right in front of the semicolon. -/
def IgnoresAt (x : Option Stray) (behind : α → Edge) (p p' : Parser α) (s s' : State) : Prop :=
  After p s (fun a t => ∃ t', p' s' = .ok a t' ∧ t.Beside x (behind a) t')
    fun t => ∃ e t', p' s' = .error e t' ∧ t.Beside x .clear t'

/-- With the semicolon and without it `p` does the same from any `edge` to `edge'`. -/
def Ignores (x : Option Stray) (edge edge' : Edge) (p : Parser α) : Prop :=
  ∀ s s', s.Beside x edge s' → IgnoresAt x (fun _ => edge') p p s s'

/-- What two readings do is what those do that go on in their place. -/
theorem IgnoresAt.of_eq {q q' : Parser α} {behind : α → Edge} {t t' : State}
    (h : IgnoresAt x behind q q' t t') (hp : p s = q t) (hp' : p' s' = q' t') :
    IgnoresAt x behind p p' s s' := by
  unfold IgnoresAt After
  rw [hp, hp']
  exact h

theorem IgnoresAt.bind {behind : α → Edge} {behind' : β → Edge}
    (hp : IgnoresAt x behind p p' s s')
    (hf : ∀ a t t', t.Beside x (behind a) t' → IgnoresAt x behind' (f a) (f' a) t t') :
    IgnoresAt x behind' (p >>= f) (p' >>= f') s s' := by
  apply After.bind
  refine After.mono hp (fun a t ⟨t', hrun, ht⟩ => ?_) fun _ ⟨e, t', hrun, ht⟩ =>
    ⟨e, t', run_bind_of_error hrun f', ht⟩
  rw [run_bind_of_ok hrun f']
  exact hf a t t' ht

theorem Ignores.bind (hp : Ignores x edge edge' p) (hf : ∀ a, Ignores x edge' edge'' (f a)) :
    Ignores x edge edge'' (p >>= f) :=
  fun s s' hs => (hp s s' hs).bind hf

theorem Ignores.any (h : Ignores x edge edge' p) : Ignores x edge .any p :=
  fun s s' hs => After.mono (h s s' hs) (fun _ _ ⟨t', hrun, ht⟩ => ⟨t', hrun, ht.any⟩)
    fun _ h => h

theorem ignores_pure (a : α) : Ignores x edge edge (pure a : Parser α) :=
  fun _ s' hs => ⟨s', rfl, hs⟩

theorem ignores_get {f : State → Parser β}
    (h : ∀ s s' : State, s.Beside x edge s' → IgnoresAt x (fun _ => edge') (f s) (f s') s s') :
    Ignores x edge edge' (get >>= f) :=
  h

/-- What looks at neither the tokens nor the messages sees the same in both readings. -/
theorem ignoresAt_consult {f : State → Parser β} {behind : β → Edge}
    (hf : ∀ (s : State) messages cursor, f { s with messages, cursor } = f s)
    (hs : s.Beside x edge s') (h : IgnoresAt x behind (f s) (f s) s s') :
    IgnoresAt x behind (get >>= f) (get >>= f) s s' := by
  have hsame : f s' = f s := by
    obtain ⟨_, _⟩ := hs
    exact hf s _ _
  change IgnoresAt x behind (f s) (f s') s s'
  rw [hsame]
  exact h

theorem ignores_consult {f : State → Parser β}
    (hf : ∀ (s : State) messages cursor, f { s with messages, cursor } = f s)
    (h : ∀ s, Ignores x edge edge' (f s)) : Ignores x edge edge' (get >>= f) :=
  fun s s' hs => ignoresAt_consult hf hs (h s s s' hs)

theorem ignores_modify {g : State → State}
    (h : ∀ s s' : State, s.Beside x edge s' → (g s).Beside x edge' (g s')) :
    Ignores x edge edge' (modify g) :=
  fun s s' hs => ⟨g s', rfl, h s s' hs⟩

theorem Ignores.map {g : α → β} (hp : Ignores x edge edge' p) : Ignores x edge edge' (g <$> p) :=
  hp.bind fun a => ignores_pure (g a)

theorem ignoresAt_fail {m m' : Message} (hm : m'.placeless = m.placeless) {behind : α → Edge}
    (hs : s.Beside x .clear s') : IgnoresAt x behind (fail m) (fail m') s s' :=
  ⟨.reported, s'.report m', rfl, hs.report hm⟩

theorem ignores_fail (m : Message) : Ignores x .clear edge (fail m : Parser α) :=
  fun _ _ hs => ignoresAt_fail rfl hs

theorem ignores_failHere (kind : Message.Kind) (params : List (Message.Param × String)) :
    Ignores x .clear edge (failHere kind params : Parser α) :=
  ignores_get fun _ _ hs => ignoresAt_fail (by rfl) hs

theorem ignores_failAt (t : Token) (kind : Message.Kind)
    (params : List (Message.Param × String)) :
    Ignores x .clear edge (failAt t kind params : Parser α) :=
  ignores_get fun _ _ hs => ignoresAt_fail (by rfl) hs

theorem ignores_advance : Ignores x .inner .clear advance :=
  ignores_modify fun _ _ hs => hs.advance

theorem ignores_modifyDocument (g : Document → Document) :
    Ignores x edge edge (modifyDocument g) :=
  ignores_modify fun _ _ hs => hs.modifyDocument g

theorem ignores_await (name : Option TypeName) (classifier : String)
    (scope : Option StructureId) (slot : Slot) :
    Ignores x edge edge (await name classifier scope slot) := by
  cases name with
  | none => exact ignores_pure _
  | some name => exact ignores_modify fun _ _ hs => hs.await name classifier scope slot

/-- How a header ends: the node is put into the document, and a name may wait for its slot. -/
theorem ignores_insert (g : Document → Document) (name : Option TypeName) (classifier : String)
    (scope : Option StructureId) (slot : Slot) (a : α) :
    Ignores x edge edge (do modifyDocument g; await name classifier scope slot; pure a) :=
  (ignores_modifyDocument g).bind fun _ => (ignores_await _ _ _ _).bind fun _ => ignores_pure a

/-- What stands behind a demand starts at a token that was accepted. -/
theorem ignores_demand {accept : Token → Bool} {f : Token → Parser β}
    (h : ∀ t, accept t = true → ∀ s s' : State, s.Beside x .clear s' → s.current = some t →
      IgnoresAt x (fun _ => edge) (f t) (f t) s s')
    (kind : Message.Kind) (params : List (Message.Param × String)) :
    Ignores x .clear edge (demand accept kind params >>= f) := by
  intro s s' hs
  unfold demand
  rw [bind_assoc]
  refine ignores_get (fun s s' hs => ?_) s s' hs
  rw [hs.current]
  split
  · rename_i t ht
    obtain ⟨hc, ha⟩ := Option.filter_eq_some_iff.1 ht
    exact h t ha s s' hs hc
  · exact ⟨.reported, _, rfl, hs.report rfl⟩

theorem ignores_expect {accept : Token → Bool}
    (ha : ∀ t, accept t = true → isBoundary t = false) (kind : Message.Kind)
    (params : List (Message.Param × String)) :
    Ignores x .clear .clear (expect accept kind params) := by
  refine ignores_demand (fun t ht s s' hs hc => ?_) kind params
  exact (ignores_advance.bind fun _ => ignores_pure t) s s' (hs.inner_of_current hc (ha t ht))

theorem isBoundary_of_is {kind : Token.Kind} {text : String} {t : Token}
    (hd : kind ≠ .delimiter) (hb : kind ≠ .bracket) (h : t.is kind text = true) :
    isBoundary t = false := by
  have hkind : t.kind = kind := beq_iff_eq.1 (Bool.and_eq_true_iff.1 h).1
  exact isBoundary_of_kind (hkind ▸ hd) (hkind ▸ hb)

theorem ignores_expectKeyword (keyword : String) :
    Ignores x .clear .clear (expectKeyword keyword) :=
  ignores_expect (fun _ h => isBoundary_of_identifier (beq_iff_eq.1 (Bool.and_eq_true_iff.1 h).1))
    _ _

theorem ignores_expectToken {kind : Token.Kind} (h : kind ≠ .delimiter ∧ kind ≠ .bracket)
    (text : String) : Ignores x .clear .clear (expectToken kind text) :=
  ignores_expect (fun _ => isBoundary_of_is h.1 h.2) _ _

theorem ignores_expectName (statement : String) :
    Ignores x .clear .clear (expectName statement) := by
  refine (ignores_expect (fun t ht => ?_) _ _).bind fun t => ?_
  · exact isBoundary_of_identifier (beq_iff_eq.1 ht)
  · exact ignores_consult (fun _ _ _ => rfl) fun s => ignores_pure (s.nameOf t)

/-- Where a token was found that is no boundary, there is one in front. -/
def Edge.ofFound : Bool → Edge
  | true => .inner
  | false => .clear

theorem ignoresAt_isAt {kind : Token.Kind} {text : String}
    (hk : ∀ t : Token, t.is kind text = true → isBoundary t = false) (hs : s.Beside x .clear s') :
    IgnoresAt x Edge.ofFound (isAt kind text) (isAt kind text) s s' := by
  have hat : s'.cursor.isAtText kind text = s.cursor.isAtText kind text :=
    congrArg (Option.any fun t : Token => t.is kind text) hs.current
  refine ⟨s', congrArg (EStateM.Result.ok · s') hat, ?_⟩
  cases hfound : s.cursor.isAtText kind text with
  | false => exact hs
  | true =>
    obtain ⟨t, hc, hkind⟩ := (Option.any_eq_true _ _).1 hfound
    exact hs.inner_of_current hc (hk t hkind)

theorem ignores_isAt {kind : Token.Kind} {text : String} {f : Bool → Parser β}
    (hk : ∀ t : Token, t.is kind text = true → isBoundary t = false)
    (ht : Ignores x .inner edge (f true)) (hf : Ignores x .clear edge (f false)) :
    Ignores x .clear edge (isAt kind text >>= f) :=
  fun _ _ hs => (ignoresAt_isAt hk hs).bind fun
    | true => ht
    | false => hf

theorem ignores_expectSemicolon : Ignores x .clear .any expectSemicolon :=
  ignores_demand (fun _ _ s s' hs _ => ignores_modify (fun _ _ h => h.shift) s s' hs) _ _

theorem ignores_openBody (statement : String) : Ignores x .clear .any (openBody statement) :=
  ignores_demand (fun _ _ s s' hs _ => ignores_modify (fun _ _ h => h.shift) s s' hs) _ _

/-- The comment in front of a construct is the same in both readings. -/
theorem ignores_leadingComment {f : Option Comment → Parser β}
    (h : ∀ comment, Ignores x .clear edge (f comment)) :
    Ignores x .clear edge (modifyGet State.leadingComment >>= f) := by
  intro s s' hs
  have hnext := h (s.leadingComment).1 s.skipComments s'.skipComments hs.skipComments
  unfold IgnoresAt at hnext ⊢
  rw [run_bind_modifyGet State.leadingComment f (s := s'),
    show (s'.leadingComment).1 = (s.leadingComment).1 from hs.commentOf?]
  exact hnext

theorem ignores_misplaced (comment : Option Comment) :
    Ignores x .clear .any (modify fun s => (s.misplaced comment).shift) :=
  ignores_modify fun _ _ hs => (hs.misplaced comment).shift

theorem ignores_unexpected (statement : String) :
    Ignores x .clear edge (unexpected statement : Parser α) := by
  refine ignores_get fun s s' hs => ?_
  rw [hs.current]
  split
  · exact ignores_failAt _ _ _ s s' hs
  · exact ignores_failHere _ _ s s' hs

theorem IgnoresAt.round {p p' : Parser (Round α β)} (h : IgnoresAt x (fun _ => edge) p p' s s') :
    IgnoresAt x (Round.edge edge edge) p p' s s' := by
  refine After.mono h (fun r t ⟨t', hrun, ht⟩ => ⟨t', hrun, ?_⟩) fun _ h => h
  cases r with
  | again _ => exact ht
  | done _ => exact ht

/-- A repetition does what its first round does, and what the rounds behind it do. -/
theorem IgnoresAt.iterate {round : α → Parser (Round α β)} {a : α}
    (h : IgnoresAt x (Round.edge edge edge') (round a) (round a) s s') (hr : Progresses round)
    (hnext : ∀ a' (t t' : State), t.remaining < s.remaining → t.Beside x edge t' →
      IgnoresAt x (fun _ => edge') (iterate round a') (iterate round a') t t') :
    IgnoresAt x (fun _ => edge') (iterate round a) (iterate round a) s s' := by
  cases hrun : round a s with
  | error e t =>
    obtain ⟨e', t', hrun', ht⟩ := After.of_error h hrun
    unfold IgnoresAt After
    rw [iterate_of_error hrun]
    exact ⟨e', t', iterate_of_error hrun', ht⟩
  | ok r t =>
    obtain ⟨t', hrun', ht⟩ := After.of_ok h hrun
    cases r with
    | done b =>
      unfold IgnoresAt After
      rw [iterate_of_done hrun]
      exact ⟨t', iterate_of_done hrun', ht⟩
    | again a' =>
      have hlt : t.remaining < s.remaining := (After.of_ok (hr a s) hrun).2 a' rfl
      have hlt' : t'.remaining < s'.remaining := (After.of_ok (hr a s') hrun').2 a' rfl
      exact (hnext a' t t' hlt ht).of_eq (iterate_of_again hrun hlt) (iterate_of_again hrun' hlt')

theorem ignores_iterate {round : α → Parser (Round α β)}
    (h : ∀ a s s', s.Beside x edge s' →
      IgnoresAt x (Round.edge edge edge') (round a) (round a) s s')
    (hr : Progresses round) (a : α) : Ignores x edge edge' (iterate round a) := by
  intro s s' hs
  induction hn : s.remaining using Nat.strongRecOn generalizing a s s' with
  | ind n ih =>
    exact (h a s s' hs).iterate hr fun a' t t' hlt ht => ih t.remaining (hn ▸ hlt) a' t t' ht rfl

/-- A repetition whose rounds all start and end away from the stray semicolon. -/
theorem ignores_iterate_clear {round : α → Parser (Round α β)}
    (h : ∀ a, Ignores x .clear .clear (round a)) (hr : Progresses round) (a : α) :
    Ignores x .clear .clear (iterate round a) :=
  ignores_iterate (fun a s s' hs => (h a s s' hs).round) hr a

end Ignores

section Bodies

variable {α : Type} {x : Option Stray} {s s' : State}

/-- A construct is taken in, taken back or skipped in both readings. -/
theorem State.Beside.construct {read : Parser α} {accept : α → State → Bool × State}
    {resume : State → State} (hs : s.Beside x .clear s')
    (hread : IgnoresAt x (fun _ => .any) read read s s')
    (haccept : ∀ a (t t' : State), t.Beside x .any t' →
      (accept a t').1 = (accept a t).1 ∧ (accept a t).2.Beside x .any (accept a t').2)
    (hresume : ∀ e t t', read s = .error e t → t.Beside x .clear t' →
      (resume (t.rollback s.mark)).Beside x .any (resume (t'.rollback s.mark))) :
    (s.construct read accept resume).Beside x .any (s'.construct read accept resume) := by
  unfold State.construct
  rw [hs.mark]
  cases hrun : read s with
  | error e t =>
    obtain ⟨e', t', hrun', ht⟩ := After.of_error hread hrun
    rw [hrun']
    exact hresume e t t' hrun ht
  | ok a t =>
    obtain ⟨t', hrun', ht⟩ := After.of_ok hread hrun
    obtain ⟨haccepted, hstates⟩ := haccept a t t' ht
    simp only [hrun', haccepted]
    split
    · exact hstates
    · exact hstates.rollback s.mark

/-- An item that is read alike in both readings. -/
def ItemIgnores (x : Option Stray) (item : Item) : Prop :=
  ∀ comment first (s s' : State), s.Beside x .clear s' → s.current = some first →
    (item comment first s).Beside x .any (item comment first s')

theorem itemIgnores_salvage {read : Option Comment → Token → Parser Unit}
    (h : ∀ comment first (s s' : State), s.Beside x .clear s' → s.current = some first →
      IgnoresAt x (fun _ => .any) (read comment first) (read comment first) s s') :
    ItemIgnores x fun comment first s => s.salvage (read comment first) :=
  fun comment first s s' hs hc => hs.construct (h comment first s s' hs hc)
    (fun _ _ _ ht => ⟨rfl, ht⟩) fun _ _ _ _ ht => (ht.rollback s.mark).recover

theorem ignores_bodyRound {item : Item} (hi : ItemIgnores x item) (statement : String) :
    Ignores x .clear .any (bodyRound statement item) := by
  refine ignores_leadingComment fun comment => ignores_get fun s s' hs => ?_
  have hstray (r : Round Unit Unit) :
      Ignores x .clear .any
        (do modify fun s => (s.misplaced comment).shift; return r : Parser (Round Unit Unit)) :=
    (ignores_misplaced comment).bind fun _ => ignores_pure r
  rw [hs.current]
  split
  · exact ignores_failHere _ _ s s' hs
  · rename_i t ht
    split
    · exact hstray (.done ()) s s' hs
    · split
      · exact hstray (.again ()) s s' hs
      · exact ⟨_, rfl, hi comment t s s' hs ht⟩

/-- In a body the stray semicolon is a round of its own. -/
theorem bodyRound_stray {t : Token} (hc : s.current = some t) (ht : isSemicolon t = true)
    (statement : String) (item : Item) :
    bodyRound statement item s = .ok (.again ()) s.shift := by
  have hcomment :=
    s.leadingComment_of_current hc (isComment_of_boundary (isBoundary_of_semicolon ht))
  simp only [bodyRound, run_bind_modifyGet, run_bind_get, hcomment, hc,
    isClosing_of_semicolon ht, ht, Bool.false_eq_true, if_false, if_true, run_bind_modify]
  rfl

/-- The items of a body are read alike from any point, also from right in front of the stray
semicolon: the reading with it then comes to where the other one is after a round. -/
theorem ignores_items {item : Item} (hi : ItemIgnores x item) (hr : ItemReadsOn item)
    (statement : String) : Ignores x .any .any (items statement item) := by
  intro s s' hs
  have hrounds := progresses_bodyRound hr statement
  induction hn : s.remaining using Nat.strongRecOn generalizing s s' with
  | ind n ih =>
    have hclear (s' : State) (hs : s.Beside x .clear s') :
        IgnoresAt x (fun _ => .any) (items statement item) (items statement item) s s' := by
      have hround := (ignores_bodyRound hi statement s s' hs).round
      exact hround.iterate hrounds fun _ t t' hlt ht => ih t.remaining (hn ▸ hlt) t t' ht rfl
    rcases hs.clear_or_here with hs | ⟨y, _, _, hc, hs⟩
    · exact hclear s' hs
    · have hlt : s'.shift.remaining < s'.remaining := State.remaining_shift_lt hc
      have hrun : items statement item s' = items statement item s'.shift :=
        iterate_of_again (bodyRound_stray hc y.stray statement item) hlt
      unfold IgnoresAt
      rw [hrun]
      exact hclear s'.shift (hs.of_none x)

theorem ignores_body {item : Item} (hi : ItemIgnores x item) (hr : ItemReadsOn item)
    (statement : String) : Ignores x .clear .any (body statement item) :=
  (ignores_openBody statement).bind fun _ => ignores_items hi hr statement

end Bodies

section Nearly

variable {α β : Type} {x : Option Stray} {edge edge' : Edge} {p : Parser α} {f : α → Parser β}
  {s s' : State}

/-- The two readings do the same from here, or the one without the semicolon outruns the other. -/
def NearlyAt (x : Option Stray) (p : Parser α) (s s' : State) : Prop :=
  IgnoresAt x (fun _ => .any) p p s s' ∨
    After p s (fun _ t => t.Outruns x) fun t => t.Outruns x

def Nearly (x : Option Stray) (edge : Edge) (p : Parser α) : Prop :=
  ∀ s s', s.Beside x edge s' → NearlyAt x p s s'

theorem NearlyAt.of_eq {q : Parser α} {t t' : State} (h : NearlyAt x q t t') (hp : p s = q t)
    (hp' : p s' = q t') : NearlyAt x p s s' := by
  refine h.imp (fun h => h.of_eq hp hp') fun h => ?_
  unfold After
  rw [hp]
  exact h

theorem Ignores.nearly (h : Ignores x edge edge' p) : Nearly x edge p :=
  fun s s' hs => .inl (h.any s s' hs)

theorem IgnoresAt.bind_nearly {behind : α → Edge} (hp : IgnoresAt x behind p p s s')
    (hf : ∀ a t t', t.Beside x (behind a) t' → NearlyAt x (f a) t t') :
    NearlyAt x (p >>= f) s s' := by
  unfold NearlyAt IgnoresAt After
  cases hrun : p s with
  | error e t =>
    obtain ⟨e', t', hrun', ht⟩ := After.of_error hp hrun
    rw [run_bind_of_error hrun]
    exact .inl ⟨e', t', run_bind_of_error hrun' f, ht⟩
  | ok a t =>
    obtain ⟨t', hrun', ht⟩ := After.of_ok hp hrun
    rw [run_bind_of_ok hrun, run_bind_of_ok hrun']
    exact hf a t t' ht

theorem Ignores.bind_nearly (hp : Ignores x edge edge' p) (hf : ∀ a, Nearly x edge' (f a)) :
    Nearly x edge (p >>= f) :=
  fun s s' hs => (hp s s' hs).bind_nearly hf

theorem nearly_isAt {kind : Token.Kind} {text : String} {f : Bool → Parser β}
    (hk : ∀ t : Token, t.is kind text = true → isBoundary t = false)
    (ht : Nearly x .inner (f true)) (hf : Nearly x .clear (f false)) :
    Nearly x .clear (isAt kind text >>= f) :=
  fun _ _ hs => (ignoresAt_isAt hk hs).bind_nearly fun
    | true => ht
    | false => hf

/-- A reading that has outrun the other stays ahead. -/
theorem Nearly.bind (hp : Nearly x edge p) (hf : ∀ a, Ignores x .any .any (f a))
    (hstill : ∀ a, Still (f a)) : Nearly x edge (p >>= f) := by
  intro s s' hs
  rcases hp s s' hs with hrun | hrun
  · exact .inl (hrun.bind fun a t t' ht => hf a t t' ht)
  · refine .inr (After.bind (After.mono hrun (fun a t ht => ?_) fun _ h => h))
    refine After.mono (hstill a t) (fun _ u h => ht.mono ?_) fun _ h => h.elim
    rw [State.remaining, h]
    exact Nat.le_refl _

theorem Nearly.map {g : α → β} (hp : Nearly x edge p) : Nearly x edge (g <$> p) :=
  hp.bind (fun a => ignores_pure (g a)) fun a => still_pure (g a)

theorem openBody_of_ok {statement : String} {t : State} (h : openBody statement s = .ok () t) :
    (∃ opening, s.current = some opening ∧ isOpening opening = true) ∧ t = s.shift := by
  have hdemand := after_demand isOpening .expectStatementBody [(.statement, statement)] s
  have hopen : After (openBody statement) s
      (fun _ t => (∃ opening, s.current = some opening ∧ isOpening opening = true) ∧ t = s.shift)
      fun _ => True := by
    apply After.bind
    refine After.mono hdemand (fun opening t ⟨ht, hc, ho⟩ => ?_) fun _ _ => trivial
    exact ⟨⟨opening, hc, ho⟩, ht ▸ rfl⟩
  exact hopen.of_ok h

/-- A body that has to be empty is not so any more with a semicolon in it. -/
theorem nearly_emptyBody (statement : String) : Nearly x .clear (emptyBody statement) := by
  intro s s' hs
  let close : Parser Unit := do
    let comment ← modifyGet State.leadingComment
    let _ ← demand isClosing .expectToken [(.token, "\x7d")]
    modify fun s => (s.misplaced comment).shift
  have hclose : Ignores x .clear .any close :=
    ignores_leadingComment fun comment => ignores_demand
      (fun _ _ s s' hs _ => ignores_misplaced comment s s' hs) _ _
  have hforward : Forward close :=
    ((quiet_modifyGet State.reads_skipComments).bind fun comment =>
      (quiet_demand _ _ _).bind fun _ =>
        quiet_modify fun s => (State.reads_misplaced s comment).trans (State.reads_shift _)).forward
  have hopen := ignores_openBody statement s s' hs
  change NearlyAt x (openBody statement >>= fun _ => close) s s'
  unfold NearlyAt IgnoresAt After
  cases hrun : openBody statement s with
  | error e t =>
    obtain ⟨e', t', hrun', ht⟩ := After.of_error hopen hrun
    rw [run_bind_of_error hrun]
    exact .inl ⟨e', t', run_bind_of_error hrun' _, ht⟩
  | ok _ t =>
    obtain ⟨t', hrun', _⟩ := After.of_ok hopen hrun
    rw [run_bind_of_ok hrun, run_bind_of_ok hrun']
    obtain ⟨⟨opening, hc, ho⟩, rfl⟩ := openBody_of_ok hrun
    obtain ⟨_, rfl⟩ := openBody_of_ok hrun'
    rcases hs.shift_or_front with ht | ⟨y, hy, hfront, hrest⟩
    · exact .inl (hclose _ _ ht)
    · right
      have houtrun {t : State} (h : t.cursor.rest <:+ s.shift.cursor.rest) : t.Outruns x := by
        cases hc.symm.trans hfront
        exact ⟨y, hy, .inr ⟨ho, hrest ▸ h.length_le⟩⟩
      exact After.mono (hforward s.shift) (fun _ _ h => houtrun h) fun _ h => houtrun h

end Nearly

end Idl.Grammar
