import Idl.Proofs.Reading.Bracket
import Idl.Proofs.Reading.Defer

/-!
The order in which names are deferred. A name waits when its slot has been written, and that is
after more tokens were read; but no other name is deferred in between. So the names that wait stand
in the tokens that were read in the order in which they wait, and a name that was read and does not
wait yet stands behind them.
-/

namespace Idl.Grammar

namespace State

/-- The reading has gone on in the same source, and no name was deferred. -/
structure Idles (s s' : State) : Prop where
  source : s'.source = s.source
  rest : s'.cursor.rest <:+ s.cursor.rest
  pending : s'.pending = s.pending

theorem Reads.idles {s s' : State} (h : s.Reads s') : s.Idles s' :=
  ⟨h.source, h.rest, h.pending⟩

/-- The names that were deferred since `o` stand in the tokens that were read since, in their
order; the tokens in `held` were read behind them. -/
structure Queues (o : State) (held : List Token) (s : State) : Prop where
  source : s.source = o.source
  ordered : ∃ taken new, o.cursor.rest = taken ++ s.cursor.rest ∧ s.pending = o.pending ++ new ∧
    (∀ b ∈ new, b.source = o.source) ∧ (new.map (·.name.first) ++ held).Sublist taken

namespace Queues

variable {o s s' : State} {held held' : List Token}

theorem refl (s : State) : s.Queues [] s where
  source := rfl
  ordered := ⟨[], [], (List.nil_append _).symm, (List.append_nil _).symm,
    fun _ hb => absurd hb List.not_mem_nil, List.nil_sublist []⟩

theorem weaken (h : o.Queues held s) (hsub : held'.Sublist held) : o.Queues held' s := by
  obtain ⟨taken, new, hrest, hpending, hsource, hordered⟩ := h.ordered
  exact ⟨h.source, taken, new, hrest, hpending, hsource,
    (hsub.append_left (new.map (·.name.first))).trans hordered⟩

theorem drop (h : o.Queues held s) : o.Queues [] s :=
  h.weaken (List.nil_sublist held)

theorem idles (h : o.Queues held s) (hi : s.Idles s') : o.Queues held s' := by
  obtain ⟨taken, new, hrest, hpending, hsource, hordered⟩ := h.ordered
  obtain ⟨more, hmore⟩ := hi.rest
  refine ⟨hi.source.trans h.source, taken ++ more, new, ?_, hi.pending.trans hpending, hsource,
    hordered.trans (List.sublist_append_left taken more)⟩
  rw [hrest, ← hmore, List.append_assoc]

theorem trans (h : o.Queues [] s) (h' : s.Queues held s') : o.Queues held s' := by
  obtain ⟨taken, new, hrest, hpending, hsource, hordered⟩ := h.ordered
  obtain ⟨taken', new', hrest', hpending', hsource', hordered'⟩ := h'.ordered
  rw [List.append_nil] at hordered
  refine ⟨h'.source.trans h.source, taken ++ taken', new ++ new', ?_, ?_, fun b hb => ?_, ?_⟩
  · rw [hrest, hrest', List.append_assoc]
  · rw [hpending', hpending, List.append_assoc]
  · rcases List.mem_append.1 hb with hb | hb
    · exact hsource b hb
    · exact (hsource' b hb).trans h.source
  · rw [List.map_append, List.append_assoc]
    exact hordered.append hordered'

/-- The current token is read behind all names that wait. -/
theorem shift (h : o.Queues held s) {t : Token} (hc : s.current = some t) :
    o.Queues (held ++ [t]) s.shift := by
  obtain ⟨taken, new, hrest, hpending, hsource, hordered⟩ := h.ordered
  obtain ⟨rest, hs⟩ := List.head?_eq_some_iff.1 hc
  have htail : s.shift.cursor.rest = rest := congrArg List.tail hs
  refine ⟨h.source, taken ++ [t], new, ?_, hpending, hsource, ?_⟩
  · rw [htail, hrest, hs, List.append_assoc, List.singleton_append]
  · rw [← List.append_assoc]
    exact hordered.append (List.Sublist.refl [t])

theorem advance (h : o.Queues held s) {t : Token} (hc : s.current = some t) :
    o.Queues (held ++ [t]) s.advance :=
  (h.shift hc).idles (reads_skipComments _).idles

/-- The name that was read last waits behind the others. -/
theorem await {name : TypeName} (h : o.Queues [name.first] s) (classifier : String)
    (scope : Option StructureId) (slot : Slot) :
    o.Queues [] (s.await name classifier scope slot) := by
  obtain ⟨taken, new, hrest, hpending, hsource, hordered⟩ := h.ordered
  let b : Binding := { name, classifier, scope, slot, package := s.package, source := s.source }
  refine ⟨h.source, taken, new ++ [b], hrest, ?_, fun c hc => ?_, ?_⟩
  · rw [← List.append_assoc, ← hpending]
    rfl
  · rcases List.mem_append.1 hc with hc | hc
    · exact hsource c hc
    · rw [List.mem_singleton.1 hc]
      exact h.source
  · rw [List.append_nil, List.map_append]
    exact hordered

/-- Names that were deferred in a construct are forgotten when it is taken back. -/
theorem rollback (h : s.Queues held s') : s.Queues [] (s'.rollback s.mark) := by
  obtain ⟨taken, new, hrest, hpending, _⟩ := h.ordered
  refine ⟨h.source, taken, [], hrest, ?_, fun _ hb => absurd hb List.not_mem_nil,
    List.nil_sublist taken⟩
  simp [State.rollback, State.mark, hpending]

/-- A construct that is given up has deferred nothing. -/
theorem construct {α : Type} {read : Parser α} {accept : α → State → Bool × State}
    {resume : State → State} (hread : After read s (fun _ => s.Queues []) (s.Queues []))
    (haccept : ∀ a (s' : State), s'.Idles (accept a s').2)
    (hresume : ∀ s' : State, s'.Idles (resume s')) :
    s.Queues [] (s.construct read accept resume) := by
  unfold State.construct
  cases hp : read s with
  | error e s' => exact (hread.of_error hp).rollback.idles (hresume _)
  | ok a s' =>
    have h := (hread.of_ok hp).idles (haccept a s')
    simp only
    split
    · exact h
    · exact h.rollback

end Queues

end State

/-- A parser that defers names in the order in which it reads them. The tokens in `held` were read
in front of it, those that its result holds are read behind the names that wait. -/
def Queues {α : Type} (held : List Token) (p : Parser α) (out : α → List Token) : Prop :=
  ∀ o s : State, o.Queues held s → After p s (fun a s' => o.Queues (out a) s') (o.Queues [])

/-- A parser that defers no name. -/
def Idle {α : Type} (p : Parser α) : Prop :=
  ∀ s, After p s (fun _ s' => s.Idles s') s.Idles

section Rules

variable {α β : Type} {held held' : List Token} {p : Parser α} {f : α → Parser β}
  {mid : α → List Token} {out : β → List Token}

theorem Queues.bind (hp : Queues held p mid) (hf : ∀ a, Queues (mid a) (f a) out) :
    Queues held (p >>= f) out := by
  intro o s hs
  apply After.bind
  exact After.mono (hp o s hs) (fun a s' h => hf a o s' h) fun _ h => h

/-- What is held need not be used. -/
theorem Queues.weaken (hp : Queues held' p mid) (hsub : held'.Sublist held) : Queues held p mid :=
  fun o s hs => hp o s (hs.weaken hsub)

theorem Queues.map {g : α → β} (hp : Queues held p mid) (h : ∀ a, (out (g a)).Sublist (mid a)) :
    Queues held (g <$> p) out :=
  hp.bind fun a _ _ hs => hs.weaken (h a)

theorem Idle.queues (hp : Idle p) : Queues held p fun _ => held :=
  fun _ s hs => After.mono (hp s) (fun _ _ h => hs.idles h) fun _ h => hs.drop.idles h

theorem Idle.queues_bind (hp : Idle p) (hf : ∀ a, Queues held (f a) out) :
    Queues held (p >>= f) out :=
  hp.queues.bind hf

theorem Quiet.idle (hp : Quiet p) : Idle p :=
  fun s => After.mono (hp s) (fun _ _ h => h.idles) fun _ h => h.idles

theorem Quiet.queues_bind (hp : Quiet p) (hf : ∀ a, Queues held (f a) out) :
    Queues held (p >>= f) out :=
  hp.idle.queues_bind hf

theorem Fails.queues (hp : Fails p) : Queues held p mid :=
  fun _ s hs => After.mono (hp s) (fun _ _ h => h.elim) fun _ h => hs.drop.idles h.idles

theorem queues_pure {a : α} (h : (mid a).Sublist held) : Queues held (pure a) mid :=
  fun _ _ hs => hs.weaken h

theorem queues_get {f : State → Parser β} (h : ∀ s, Queues held (f s) out) :
    Queues held (get >>= f) out :=
  quiet_get.queues_bind h

theorem idle_modifyDocument (f : Document → Document) : Idle (modifyDocument f) :=
  fun _ => ⟨rfl, List.suffix_rfl, rfl⟩

/-- What defers names in whatever scope it is defers none. -/
theorem idle_of_defers {least : Nat} {Q : α → Prop}
    (h : ∀ names scope, Defers names scope least p Q) : Idle p := by
  have hidles {s s' : State} (h : s.Defers none s') (h' : s.Defers (some ⟨0⟩) s') :
      s.Idles s' := by
    obtain ⟨new, hpending, hnew⟩ := h.pending
    obtain ⟨new', hpending', hnew'⟩ := h'.pending
    have heq : new = new' := List.append_cancel_left (hpending.symm.trans hpending')
    have hnil : new = [] := by
      refine List.eq_nil_iff_forall_not_mem.2 fun b hb => ?_
      cases (hnew b hb).1.symm.trans (hnew' b (heq ▸ hb)).1
    exact ⟨h.source, h.rest, by rw [hpending, hnil, List.append_nil]⟩
  intro s
  exact ((h _ none s rfl).and (h _ (some ⟨0⟩) s rfl)).mono (fun _ _ h => hidles h.1.1 h.2.1)
    fun _ h => hidles h.1 h.2

theorem queues_await (name? : Option TypeName) (classifier : String)
    (scope : Option StructureId) (slot : Slot) :
    Queues (name?.map (·.first)).toList (await name? classifier scope slot) fun _ => [] := by
  cases name? with
  | none => exact fun _ _ hs => hs
  | some name => exact fun _ _ hs => hs.await classifier scope slot

/-- A token that is expected is read behind what is held. -/
theorem queues_expect (accept : Token → Bool) (kind : Message.Kind)
    (params : List (Message.Param × String)) :
    Queues held (expect accept kind params) fun t => held ++ [t] := by
  intro o s hs
  apply After.bind
  refine After.mono (After.and (quiet_demand accept kind params s)
    (after_demand accept kind params s)) ?_ fun _ h => hs.drop.idles h.1.idles
  rintro t _ ⟨-, rfl, hc, -⟩
  exact hs.advance hc

/-- In between, each round holds what `H` says of where it starts. -/
theorem queues_iterate {round : α → Parser (Round α β)} {H : α → List Token}
    (h : ∀ a, Queues (H a) (round a) fun
      | .again a' => H a'
      | .done b => out b) (a : α) :
    Queues (H a) (iterate round a) out := by
  intro o s hs
  refine after_iterate (I := fun a s' => o.Queues (H a) s') (fun a s' hs' => ?_) hs
  refine After.mono (h a o s' hs') (fun r s'' h => ?_) fun _ h => h
  cases r with
  | again a' => exact ⟨h, .inr h.drop⟩
  | done b => exact h

theorem queues_items {statement : String} {item : Item}
    (hitem : ∀ comment t (s : State), s.Queues [] (item comment t s)) :
    Queues [] (items statement item) fun _ => [] := by
  refine queues_iterate (H := fun _ => []) (fun _ o s hs => ?_) ()
  refine after_bodyRound (fun _ _ _ hr => hs.idles hr.idles) (fun _ _ _ hr _ => hs.idles hr.idles)
    (fun comment t _ _ _ => ?_) fun _ _ hr _ => hs.idles hr.idles
  exact (hs.idles (State.reads_skipComments s).idles).trans (hitem comment t s.skipComments)

theorem queues_body {statement : String} {item : Item}
    (hitem : ∀ comment t (s : State), s.Queues [] (item comment t s)) :
    Queues [] (body statement item) fun _ => [] :=
  (quiet_openBody statement).queues_bind fun _ => queues_items hitem

/-- An item that can be given up. -/
theorem Queues.salvage {read : Parser Unit} (h : Queues [] read fun _ => []) (s : State) :
    s.Queues [] (s.salvage read) :=
  State.Queues.construct (h s s (.refl s)) (fun _ s' => (State.Reads.refl s').idles)
    fun s' => (State.reads_recover s').idles

end Rules

end Idl.Grammar
