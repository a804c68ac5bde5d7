import Idl.Proofs.Reading.Edit

/-!
What a parser builds. It edits the state above one mark if it succeeds, and if it fails nothing
has changed below another one. A construct is put together above the second mark; when all that
can fail has been read, it may be added to a node between the marks.
-/

namespace Idl.Grammar

variable {checks : List Check} {others : List Binding} {done fail : Mark} {α β : Type}
  {s : State}

/-- After a success the state has been edited above `done` and `Q` holds; after a failure
nothing has changed below `fail`. -/
def Builds (checks : List Check) (done fail : Mark) (p : Parser α) (s : State)
    (Q : α → State → Prop) : Prop :=
  After p s (fun a s' => Edits checks done s s' ∧ Q a s') (s.Keeps fail)

section Rules

variable {p : Parser α} {f : α → Parser β} {Q : α → State → Prop} {R : β → State → Prop}

theorem Builds.mono {done' : Mark} {Q' : α → State → Prop}
    (h : Builds checks done fail p s Q) (hd : done' ≤ done) (hQ : ∀ a s', Q a s' → Q' a s') :
    Builds checks done' fail p s Q' :=
  After.mono h (fun a s' ⟨he, hq⟩ => ⟨he.mono hd, hQ a s' hq⟩) fun _ hk => hk

theorem Builds.edits (h : Builds checks fail fail p s Q) (hd : done ≤ fail) :
    Builds checks done fail p s fun a s' => Edits checks fail s s' ∧ Q a s' :=
  After.mono h (fun _ _ ⟨he, hq⟩ => ⟨he.mono hd, he, hq⟩) fun _ hk => hk

/-- What is built first, is built above both marks. -/
theorem Builds.bind (hs : s.Ready others fail) (hd : done ≤ fail)
    (hp : Builds checks fail fail p s Q)
    (hf : ∀ a s', s'.Ready others fail → s.document.Grows s'.document → Q a s' →
      Builds checks done fail (f a) s' R) :
    Builds checks done fail (p >>= f) s R := by
  apply After.bind
  refine After.mono hp (fun a s' ⟨he, hq⟩ => ?_) fun _ hk => hk
  have hk := he.keeps hs
  refine After.mono (hf a s' (he.ready hs) (he.grows hs) hq) (fun b s'' ⟨he', hr⟩ => ?_)
    fun _ hk' => hk.trans hk'
  exact ⟨(he.mono hd).trans he', hr⟩

/-- What only reads and cannot fail may follow the last edit. -/
theorem Builds.bind_sure (hp : Builds checks done fail p s Q)
    (hf : ∀ a s', Q a s' → After (f a) s' (fun b s'' => s'.Reads s'' ∧ R b s'') fun _ => False) :
    Builds checks done fail (p >>= f) s R := by
  apply After.bind
  refine After.mono hp (fun a s' ⟨he, hq⟩ => ?_) fun _ hk => hk
  refine After.mono (hf a s' hq) (fun b s'' ⟨hr, hR⟩ => ?_) fun _ h => h.elim
  exact ⟨he.tail (.read hr), hR⟩

theorem builds_pure {a : α} (h : Q a s) : Builds checks done fail (pure a) s Q :=
  ⟨.refl s, h⟩

theorem builds_get {f : State → Parser β} (h : Builds checks done fail (f s) s R) :
    Builds checks done fail (get >>= f) s R :=
  h

/-- Goes on behind a parser that only reads. -/
theorem Quiet.builds_bind (hp : Quiet p) (hs : s.Ready others fail)
    (hf : ∀ a s', s'.Ready others fail → s.Reads s' → Builds checks done fail (f a) s' R) :
    Builds checks done fail (p >>= f) s R := by
  apply After.bind
  refine After.mono (hp s) (fun a s' h => ?_) fun _ h => h.keeps hs.mark
  refine After.mono (hf a s' (hs.reads h) h) (fun b s'' ⟨he, hR⟩ => ?_) fun _ hk => ?_
  · exact ⟨(Edits.read h).trans he, hR⟩
  · exact (h.keeps hs.mark).trans hk

/-- What each round keeps of what has been read so far, a repetition keeps. -/
theorem builds_iterate_of {round : α → Parser (Round α β)} {I : α → State → Prop}
    (hs : s.Ready others fail) {a : α} (hI : I a s)
    (h : ∀ a s', s'.Ready others fail → I a s' →
      Builds checks fail fail (round a) s' fun r s'' =>
        match r with
        | .again a' => I a' s''
        | .done b => R b s'') :
    Builds checks fail fail (iterate round a) s R := by
  refine after_iterate (I := fun a s' => Edits checks fail s s' ∧ I a s') (fun a s' ⟨he, hi⟩ => ?_)
    ⟨.refl s, hI⟩
  have hs' := he.ready hs
  refine After.mono (h a s' hs' hi) (fun r s'' ⟨he', hi'⟩ => ?_) fun s'' hk => ?_
  · cases r with
    | again a' => exact ⟨⟨he.trans he', hi'⟩, .inr ((he.trans he').keeps hs)⟩
    | done b => exact ⟨he.trans he', hi'⟩
  · exact (he.keeps hs).trans hk

theorem builds_iterate {round : α → Parser (Round α β)} {I : State → Prop}
    (hs : s.Ready others fail) (hI : I s)
    (h : ∀ a s', s'.Ready others fail → I s' →
      Builds checks fail fail (round a) s' fun _ s'' => I s'') (a : α) :
    Builds checks fail fail (iterate round a) s fun _ s' => I s' :=
  builds_iterate_of (I := fun _ s' => I s') hs hI fun a s' hs' hi =>
    (h a s' hs' hi).mono (Mark.le_refl fail) fun r _ hi' => by cases r <;> exact hi'

/-- A parser that fails whatever it reads, and does nothing but read. -/
def Fails (p : Parser α) : Prop :=
  ∀ s, After p s (fun _ _ => False) s.Reads

theorem Fails.builds (hp : Fails p) (hs : s.Ready others fail) :
    Builds checks done fail p s Q :=
  After.mono (hp s) (fun _ _ h => h.elim) fun _ h => h.keeps hs.mark

theorem Fails.bind (hp : Fails p) : Fails (p >>= f) := by
  intro s
  apply After.bind
  exact After.mono (hp s) (fun _ _ h => h.elim) fun _ h => h

theorem fails_fail (m : Message) : Fails (Grammar.fail m : Parser α) :=
  fun s => State.reads_report s m

theorem fails_failHere (kind : Message.Kind) (params : List (Message.Param × String)) :
    Fails (failHere kind params : Parser α) :=
  fun s => State.reads_report s _

theorem fails_failAt (t : Token) (kind : Message.Kind)
    (params : List (Message.Param × String)) : Fails (failAt t kind params : Parser α) :=
  fun s => State.reads_report s _

theorem fails_inappropriate (t : Token) (classifier options : String) :
    Fails (inappropriate t classifier options : Parser α) :=
  fails_failAt t _ _

theorem fails_unknownStatement (t : Token) (context options : String) :
    Fails (unknownStatement t context options : Parser α) :=
  fails_failAt t _ _

end Rules

end Idl.Grammar
