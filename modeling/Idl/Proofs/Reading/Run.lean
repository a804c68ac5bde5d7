import Idl.Grammar.Body
import Idl.Proofs.Session.Bind

/-!
Runs of parsers. What holds after a run is stated for both ends, the result with the state
behind it and the state of a failure; it is put together along the parser. Whatever a parser
does, the tokens are only read forward and messages are only added. A quiet parser does nothing
else.
-/

namespace Idl.Grammar

section Equations

variable {ε α β : Type} {s s' : State}

theorem run_bind_of_ok {p : EStateM ε State α} {a : α} (h : p s = .ok a s')
    (f : α → EStateM ε State β) : (p >>= f) s = f a s' := by
  simp only [Bind.bind, EStateM.bind, h]

theorem run_bind_of_error {p : EStateM ε State α} {e : ε} (h : p s = .error e s')
    (f : α → EStateM ε State β) : (p >>= f) s = .error e s' := by
  simp only [Bind.bind, EStateM.bind, h]

theorem run_bind_get (f : State → EStateM ε State β) : (get >>= f) s = f s s :=
  rfl

theorem run_bind_modify (g : State → State) (f : PUnit → EStateM ε State β) :
    (modify g >>= f) s = f ⟨⟩ (g s) :=
  rfl

theorem run_bind_modifyGet (g : State → α × State) (f : α → EStateM ε State β) :
    (modifyGet g >>= f) s = f (g s).1 (g s).2 :=
  rfl

variable [Inhabited ε] {round : α → EStateM ε State (Round α β)} {a a' : α}

theorem iterate_of_again (h : round a s = .ok (.again a') s') (hlt : s'.remaining < s.remaining) :
    iterate round a s = iterate round a' s' := by
  rw [iterate, h]
  simp only [hlt, if_true]

theorem iterate_of_done {b : β} (h : round a s = .ok (.done b) s') :
    iterate round a s = .ok b s' := by
  rw [iterate, h]

theorem iterate_of_error {e : ε} (h : round a s = .error e s') :
    iterate round a s = .error e s' := by
  rw [iterate, h]

end Equations

section After

variable {ε α β : Type}

/-- What holds after a run: `done` of the result and the state behind it, or `failed` of the
state in which it failed. -/
def After (p : EStateM ε State α) (s : State) (done : α → State → Prop)
    (failed : State → Prop) : Prop :=
  match p s with
  | .ok a s' => done a s'
  | .error _ s' => failed s'

variable {p : EStateM ε State α} {f : α → EStateM ε State β} {s : State}
  {done : α → State → Prop} {failed : State → Prop}

theorem After.of_ok {a : α} {s' : State} (h : After p s done failed) (hp : p s = .ok a s') :
    done a s' := by
  simpa only [After, hp] using h

theorem After.of_error {e : ε} {s' : State} (h : After p s done failed)
    (hp : p s = .error e s') : failed s' := by
  simpa only [After, hp] using h

theorem After.mono {done' : α → State → Prop} {failed' : State → Prop}
    (h : After p s done failed) (hd : ∀ a s', done a s' → done' a s')
    (hf : ∀ s', failed s' → failed' s') : After p s done' failed' := by
  unfold After at *
  cases hp : p s with
  | ok a s' => exact hd a s' (by simpa only [hp] using h)
  | error e s' => exact hf s' (by simpa only [hp] using h)

theorem After.and {done' : α → State → Prop} {failed' : State → Prop}
    (h : After p s done failed) (h' : After p s done' failed') :
    After p s (fun a s' => done a s' ∧ done' a s') fun s' => failed s' ∧ failed' s' := by
  unfold After at *
  cases hp : p s with
  | ok a s' =>
    simp only [hp] at h h'
    exact ⟨h, h'⟩
  | error e s' =>
    simp only [hp] at h h'
    exact ⟨h, h'⟩

theorem After.bind {done : β → State → Prop}
    (h : After p s (fun a s' => After (f a) s' done failed) failed) :
    After (p >>= f) s done failed := by
  unfold After at *
  cases hp : p s with
  | ok a s' =>
    rw [run_bind_of_ok hp]
    simpa only [hp] using h
  | error e s' =>
    rw [run_bind_of_error hp]
    simpa only [hp] using h

/-- The run of the first part is known in what is shown of the second. -/
theorem After.bind_of_run {done : β → State → Prop}
    (hok : ∀ a s', p s = .ok a s' → After (f a) s' done failed)
    (herror : ∀ e s', p s = .error e s' → failed s') : After (p >>= f) s done failed := by
  apply After.bind
  unfold After
  cases hp : p s with
  | ok a s' => exact hok a s' hp
  | error e s' => exact herror e s' hp

theorem after_pure {a : α} (h : done a s) :
    After (pure a : EStateM ε State α) s done failed :=
  h

theorem after_get {done : State → State → Prop} (h : done s s) :
    After (get : EStateM ε State State) s done failed :=
  h

theorem after_modify {g : State → State} {done : PUnit → State → Prop} (h : done ⟨⟩ (g s)) :
    After (modify g : EStateM ε State PUnit) s done failed :=
  h

theorem after_modifyGet {g : State → α × State} (h : done (g s).1 (g s).2) :
    After (modifyGet g : EStateM ε State α) s done failed :=
  h

/-- What each round keeps, a repetition keeps. It may also fail because a round has read no
token though another one should follow. -/
theorem after_iterate [Inhabited ε] {round : α → EStateM ε State (Round α β)}
    {I : α → State → Prop} {done : β → State → Prop}
    (step : ∀ a s, I a s → After (round a) s
      (fun r s' => match r with
        | .again a' => I a' s' ∧ (s'.remaining < s.remaining ∨ failed s')
        | .done b => done b s') failed)
    {a : α} (h : I a s) : After (iterate round a) s done failed := by
  induction hn : s.remaining using Nat.strongRecOn generalizing a s with
  | ind n ih =>
    have hstep := step a s h
    unfold After
    rw [iterate]
    cases hr : round a s with
    | error e s' => exact hstep.of_error hr
    | ok r s' =>
      have hr' := hstep.of_ok hr
      cases r with
      | done b => exact hr'
      | again a' =>
        obtain ⟨hinv, hless⟩ := hr'
        by_cases hlt : s'.remaining < s.remaining
        · simp only [hlt, if_true]
          exact ih s'.remaining (hn ▸ hlt) hinv rfl
        · simp only [hlt, if_false]
          exact hless.resolve_left hlt

end After

namespace State

/-- The reading has gone on: tokens were read and messages added, in the same source. -/
structure Onward (s s' : State) : Prop where
  sources : s'.sources = s.sources
  source : s'.source = s.source
  package : s'.package = s.package
  isMain : s'.isMain = s.isMain
  cursor : s'.cursor = { s.cursor with rest := s'.cursor.rest }
  rest : s'.cursor.rest <:+ s.cursor.rest
  messages : s.messages <+: s'.messages
  calls : s.calls <+: s'.calls

theorem Onward.refl (s : State) : s.Onward s :=
  ⟨rfl, rfl, rfl, rfl, rfl, List.suffix_rfl, List.prefix_rfl, List.prefix_rfl⟩

theorem Onward.trans {s s' s'' : State} (h : s.Onward s') (h' : s'.Onward s'') :
    s.Onward s'' where
  sources := h'.sources.trans h.sources
  source := h'.source.trans h.source
  package := h'.package.trans h.package
  isMain := h'.isMain.trans h.isMain
  cursor := by rw [h'.cursor, h.cursor]
  rest := h'.rest.trans h.rest
  messages := h.messages.trans h'.messages
  calls := h.calls.trans h'.calls

/-- Nothing but reading: the document and the names that wait are as before. A check of a default
may not come back, but only if the class of some type is not found. -/
structure Reads (s s' : State) : Prop extends s.Onward s' where
  document : s'.document = s.document
  pending : s'.pending = s.pending
  endless : s.document.Decided → s'.endless = s.endless

theorem Reads.refl (s : State) : s.Reads s :=
  ⟨Onward.refl s, rfl, rfl, fun _ => rfl⟩

theorem Reads.trans {s s' s'' : State} (h : s.Reads s') (h' : s'.Reads s'') : s.Reads s'' where
  toOnward := h.toOnward.trans h'.toOnward
  document := h'.document.trans h.document
  pending := h'.pending.trans h.pending
  endless hd := (h'.endless (h.document ▸ hd)).trans (h.endless hd)

theorem reads_of_rest {s : State} {rest : List Token} (h : rest <:+ s.cursor.rest) :
    s.Reads { s with cursor := { s.cursor with rest } } :=
  ⟨⟨rfl, rfl, rfl, rfl, rfl, h, List.prefix_rfl, List.prefix_rfl⟩, rfl, rfl, fun _ => rfl⟩

theorem reads_shift (s : State) : s.Reads s.shift :=
  reads_of_rest (List.tail_suffix _)

theorem reads_skipComments (s : State) : s.Reads s.skipComments :=
  reads_of_rest (List.dropWhile_suffix _)

theorem reads_advance (s : State) : s.Reads s.advance :=
  (reads_shift s).trans (reads_skipComments _)

theorem reads_recover (s : State) : s.Reads s.recover :=
  reads_of_rest (resumption_suffix 0 _)

theorem reads_report (s : State) (m : Message) : s.Reads (s.report m) :=
  ⟨⟨rfl, rfl, rfl, rfl, rfl, List.suffix_rfl, List.prefix_append _ _, List.prefix_rfl⟩,
    rfl, rfl, fun _ => rfl⟩

theorem reads_misplaced (s : State) (comment : Option Comment) : s.Reads (s.misplaced comment) := by
  cases comment with
  | none => exact Reads.refl s
  | some comment => exact reads_report s _

theorem reads_visit (s : State) (checks : List Check) (subject : Subject) (late : Bool) :
    s.Reads { s with toSession := (s.toSession.visit checks subject late).2 } :=
  ⟨⟨rfl, rfl, rfl, rfl, rfl, List.suffix_rfl, List.prefix_append _ _, List.prefix_append _ _⟩,
    rfl, rfl, fun _ => rfl⟩

end State

/-- A parser that only reads, whether it succeeds or fails. -/
def Quiet {α : Type} (p : Parser α) : Prop :=
  ∀ s, After p s (fun _ s' => s.Reads s') s.Reads

section Quiet

variable {α β : Type} {p : Parser α}

theorem Quiet.bind {f : α → Parser β} (hp : Quiet p) (hf : ∀ a, Quiet (f a)) :
    Quiet (p >>= f) := by
  intro s
  apply After.bind
  refine (hp s).mono (fun a s' h => ?_) fun _ h => h
  exact (hf a s').mono (fun _ _ h' => h.trans h') fun _ h' => h.trans h'

theorem quiet_pure (a : α) : Quiet (pure a) :=
  State.Reads.refl

theorem quiet_get : Quiet get :=
  State.Reads.refl

theorem quiet_throw : Quiet (throw .reported : Parser α) :=
  State.Reads.refl

theorem quiet_modify {g : State → State} (h : ∀ s : State, s.Reads (g s)) : Quiet (modify g) :=
  h

theorem quiet_modifyGet {g : State → α × State} (h : ∀ s : State, s.Reads (g s).2) :
    Quiet (modifyGet g) :=
  h

theorem Quiet.map {f : α → β} (hp : Quiet p) : Quiet (f <$> p) :=
  hp.bind fun a => quiet_pure (f a)

theorem quiet_iterate {round : α → Parser (Round α β)} (h : ∀ a, Quiet (round a)) (a : α) :
    Quiet (iterate round a) := by
  intro s
  apply after_iterate (I := fun _ s' => s.Reads s') _ (State.Reads.refl s)
  intro a s' hs
  refine (h a s').mono (fun r s'' h' => ?_) fun _ h' => hs.trans h'
  cases r with
  | again a' => exact ⟨hs.trans h', .inr (hs.trans h')⟩
  | done b => exact hs.trans h'

theorem quiet_fail (m : Message) : Quiet (fail m : Parser α) :=
  (quiet_modify fun s => State.reads_report s m).bind fun _ => quiet_throw

theorem quiet_failHere (kind : Message.Kind) (params : List (Message.Param × String)) :
    Quiet (failHere kind params : Parser α) :=
  quiet_get.bind fun _ => quiet_fail _

theorem quiet_failAt (t : Token) (kind : Message.Kind)
    (params : List (Message.Param × String)) : Quiet (failAt t kind params : Parser α) :=
  quiet_get.bind fun _ => quiet_fail _

theorem quiet_isAt (kind : Token.Kind) (text : String) : Quiet (isAt kind text) :=
  quiet_get.bind fun _ => quiet_pure _

theorem quiet_isAtKeyword (keyword : String) : Quiet (isAtKeyword keyword) :=
  quiet_isAt _ _

theorem quiet_advance : Quiet advance :=
  quiet_modify State.reads_advance

theorem quiet_demand (accept : Token → Bool) (kind : Message.Kind)
    (params : List (Message.Param × String)) : Quiet (demand accept kind params) := by
  refine quiet_get.bind fun s => ?_
  cases s.current.filter accept with
  | some t => exact quiet_pure t
  | none => exact quiet_failHere kind params

theorem quiet_expect (accept : Token → Bool) (kind : Message.Kind)
    (params : List (Message.Param × String)) : Quiet (expect accept kind params) :=
  (quiet_demand accept kind params).bind fun t => quiet_advance.bind fun _ => quiet_pure t

theorem quiet_expectKeyword (keyword : String) : Quiet (expectKeyword keyword) :=
  quiet_expect _ _ _

theorem quiet_expectToken (kind : Token.Kind) (text : String) :
    Quiet (expectToken kind text) :=
  quiet_expect _ _ _

theorem quiet_expectName (statement : String) : Quiet (expectName statement) :=
  (quiet_expect _ _ _).bind fun _ => quiet_get.bind fun _ => quiet_pure _

theorem quiet_expectSemicolon : Quiet expectSemicolon :=
  (quiet_demand _ _ _).bind fun _ => quiet_modify State.reads_shift

theorem quiet_openBody (statement : String) : Quiet (openBody statement) :=
  (quiet_demand _ _ _).bind fun _ => quiet_modify State.reads_shift

theorem quiet_unexpected (statement : String) : Quiet (unexpected statement : Parser α) := by
  refine quiet_get.bind fun s => ?_
  cases s.current with
  | some t => exact quiet_failAt t _ _
  | none => exact quiet_failHere _ _

theorem quiet_inappropriate (t : Token) (classifier options : String) :
    Quiet (inappropriate t classifier options : Parser α) :=
  quiet_failAt t _ _

theorem quiet_emptyBody (statement : String) : Quiet (emptyBody statement) :=
  (quiet_openBody statement).bind fun _ =>
    (quiet_modifyGet State.reads_skipComments).bind fun comment =>
      (quiet_demand _ _ _).bind fun _ =>
        quiet_modify fun s => (State.reads_misplaced s comment).trans (State.reads_shift _)

end Quiet

end Idl.Grammar
