import Idl.Proofs.Document.Heading
import Idl.Proofs.Reading.Bracket

/-!
What parsers report. A parser without a body either succeeds in silence or fails with one error;
any other one reports messages that satisfy what all messages of the grammar satisfy. In either
case what it adds to the document was declared in the source that is read.
-/

namespace Idl

namespace Message

/-- The kinds of the messages that an import fails with. -/
def Kind.isImportFailure : Kind → Bool
  | sourceNotFound | openSourceFailed | importDepthExceeded => true
  | _ => false

/-- A message that has a value for each hole and is not about an import that failed. -/
structure Ordinary (m : Message) : Prop where
  kind : m.kind.isImportFailure = false
  closed : m.hasOpenHole = false

end Message

namespace Grammar

namespace State

/-- The same source was read on, with these messages, and all new nodes were declared in it. -/
structure Says (more : List Message) (s s' : State) : Prop where
  source : s'.source = s.source
  rest : s'.cursor.rest <:+ s.cursor.rest
  messages : s'.messages = s.messages ++ more
  headings : s.document.HeadedIn s.source s'.document

/-- One error was reported. -/
def Complains (s s' : State) : Prop :=
  ∃ m : Message, m.Ordinary ∧ m.severity = .error ∧ s.Says [m] s'

/-- Only messages that satisfy `P` were reported. -/
def Tells (P : Message → Prop) (s s' : State) : Prop :=
  ∃ more, (∀ m ∈ more, P m) ∧ s.Says more s'

variable {P : Message → Prop} {more more' : List Message} {s s' s'' : State}

theorem Says.refl (s : State) : s.Says [] s :=
  ⟨rfl, List.suffix_rfl, (List.append_nil _).symm, .refl _ _⟩

theorem Says.trans (h : s.Says more s') (h' : s'.Says more' s'') :
    s.Says (more ++ more') s'' where
  source := h'.source.trans h.source
  rest := h'.rest.trans h.rest
  messages := by rw [h'.messages, h.messages, List.append_assoc]
  headings := h.headings.trans (h.source ▸ h'.headings)

theorem says_of_rest {rest : List Token} (h : rest <:+ s.cursor.rest) :
    s.Says [] { s with cursor := { s.cursor with rest } } :=
  ⟨rfl, h, (List.append_nil _).symm, .refl _ _⟩

theorem says_modifyDocument {f : Document → Document}
    (h : s.document.HeadedIn s.source (f s.document)) : s.Says [] (s.modifyDocument f) :=
  ⟨rfl, List.suffix_rfl, (List.append_nil _).symm, h⟩

theorem says_shift (s : State) : s.Says [] s.shift :=
  says_of_rest (List.tail_suffix _)

theorem says_skipComments (s : State) : s.Says [] s.skipComments :=
  says_of_rest (List.dropWhile_suffix _)

theorem says_advance (s : State) : s.Says [] s.advance :=
  (says_shift s).trans (says_skipComments _)

theorem says_report (s : State) (m : Message) : s.Says [m] (s.report m) :=
  ⟨rfl, List.suffix_rfl, rfl, .refl _ _⟩

theorem Says.complains (h : s.Says [] s') (h' : s'.Complains s'') : s.Complains s'' := by
  obtain ⟨m, hm, he, h'⟩ := h'
  exact ⟨m, hm, he, h.trans h'⟩

theorem Says.tells (h : s.Says [] s') : s.Tells P s' :=
  ⟨[], fun _ hm => absurd hm List.not_mem_nil, h⟩

theorem Tells.refl (s : State) : s.Tells P s :=
  (Says.refl s).tells

theorem Tells.trans (h : s.Tells P s') (h' : s'.Tells P s'') : s.Tells P s'' := by
  obtain ⟨more, hm, h⟩ := h
  obtain ⟨more', hm', h'⟩ := h'
  refine ⟨more ++ more', fun m hmem => ?_, h.trans h'⟩
  exact (List.mem_append.1 hmem).elim (hm m) (hm' m)

theorem Tells.forall (h : s.Tells P s') (hs : ∀ m ∈ s.messages, P m) : ∀ m ∈ s'.messages, P m := by
  obtain ⟨more, hmore, hsaid⟩ := h
  rw [hsaid.messages]
  exact fun m hm => (List.mem_append.1 hm).elim (hs m) (hmore m)

theorem tells_report {m : Message} (hm : P m) : s.Tells P (s.report m) :=
  ⟨[m], by simpa using hm, says_report s m⟩

theorem Complains.tells (hP : ∀ m : Message, m.Ordinary → P m) (h : s.Complains s') :
    s.Tells P s' := by
  obtain ⟨m, hm, _, h⟩ := h
  exact ⟨[m], by simpa using hP m hm, h⟩

end State

section Brief

variable {α β : Type} {p : Parser α} {f : α → Parser β}

/-- From a state a parser succeeds in silence or fails with one error. -/
def BriefAt (p : Parser α) (s : State) : Prop :=
  After p s (fun _ s' => s.Says [] s') s.Complains

/-- A parser that is brief wherever it is used. -/
def Brief (p : Parser α) : Prop :=
  ∀ s, BriefAt p s

/-- A parser that reads a token when it succeeds. -/
def ReadsOn (p : Parser α) : Prop :=
  ∀ s, After p s (fun _ s' => s'.remaining < s.remaining) fun _ => True

theorem BriefAt.bind {s : State} (hp : BriefAt p s) (hf : ∀ a, Brief (f a)) :
    BriefAt (p >>= f) s := by
  apply After.bind
  refine After.mono hp (fun a s' h => ?_) fun _ h => h
  exact After.mono (hf a s') (fun _ _ h' => h.trans h') fun _ h' => h.complains h'

theorem Brief.bind (hp : Brief p) (hf : ∀ a, Brief (f a)) : Brief (p >>= f) :=
  fun s => (hp s).bind hf

/-- What stands behind `get` starts in the state that was got. -/
theorem brief_get_at {f : State → Parser β} (h : ∀ s, BriefAt (f s) s) : Brief (get >>= f) :=
  h

theorem brief_get {f : State → Parser β} (h : ∀ s, Brief (f s)) : Brief (get >>= f) :=
  brief_get_at fun s => h s s

theorem brief_pure (a : α) : Brief (pure a : Parser α) :=
  State.Says.refl

theorem brief_modify {g : State → State} (h : ∀ s : State, s.Says [] (g s)) :
    Brief (modify g) :=
  h

theorem brief_modifyGet {g : State → α × State} (h : ∀ s : State, s.Says [] (g s).2) :
    Brief (modifyGet g) :=
  h

theorem Brief.forward (h : Brief p) : Forward p :=
  fun s => After.mono (h s) (fun _ _ h => h.rest) fun _ ⟨_, _, _, h⟩ => h.rest

theorem Takes.readsOn {ending : Bool} (h : Takes 1 ending p) : ReadsOn p :=
  fun s => After.mono (h s) (fun _ _ h => h.remaining_le) fun _ _ => trivial

theorem ReadsOn.bind (hp : ReadsOn p) (hf : ∀ a, Forward (f a)) : ReadsOn (p >>= f) :=
  fun s => after_bind_remaining (hp s) hf

theorem Forward.bind_readsOn (hp : Forward p) (hf : ∀ a, ReadsOn (f a)) :
    ReadsOn (p >>= f) := by
  intro s
  apply After.bind
  refine After.mono (hp s) (fun a s' h => ?_) fun _ _ => trivial
  exact After.mono (hf a s') (fun _ _ hlt => Nat.lt_of_lt_of_le hlt h.length_le) fun _ h => h

/-- A parser that can be repeated. -/
def IsRound (p : Parser α) : Prop :=
  Brief p ∧ ReadsOn p

theorem Brief.isRound (hp : Brief p) (ha : ReadsOn p) (hf : ∀ a, Brief (f a)) :
    IsRound (p >>= f) :=
  ⟨hp.bind hf, ha.bind fun a => (hf a).forward⟩

theorem Brief.bind_isRound (hp : Brief p) (hf : ∀ a, IsRound (f a)) : IsRound (p >>= f) :=
  ⟨hp.bind fun a => (hf a).1, hp.forward.bind_readsOn fun a => (hf a).2⟩

theorem brief_iterate {round : α → Parser (Round α β)} (h : ∀ a, IsRound (round a)) (a : α) :
    Brief (iterate round a) := by
  intro s
  refine after_iterate (I := fun _ s' => s.Says [] s') (fun a s' hs => ?_) (.refl s)
  refine (((h a).1 s').and ((h a).2 s')).mono (fun r s'' ⟨h', hlt⟩ => ?_) fun _ ⟨h', _⟩ =>
    hs.complains h'
  cases r with
  | again a' => exact ⟨hs.trans h', .inl hlt⟩
  | done b => exact hs.trans h'

section Fail

theorem brief_fail {m : Message} (hm : m.Ordinary) (he : m.severity = .error) :
    Brief (fail m : Parser α) :=
  fun s => ⟨m, hm, he, State.says_report s m⟩

variable {kind : Message.Kind} {params : List (Message.Param × String)}
  (h : ∀ location, (Message.of kind location params).Ordinary)
  (he : kind.severity = .error)

include h he

theorem brief_failHere : Brief (failHere kind params : Parser α) :=
  brief_get fun _ => brief_fail (h _) he

theorem brief_failAt (t : Token) : Brief (failAt t kind params : Parser α) :=
  brief_get fun _ => brief_fail (h _) he

theorem brief_demand (accept : Token → Bool) : Brief (demand accept kind params) := by
  refine brief_get fun s => ?_
  split
  · exact brief_pure _
  · exact brief_failHere h he

theorem brief_expect (accept : Token → Bool) : Brief (expect accept kind params) :=
  (brief_demand h he accept).bind fun _ =>
    (brief_modify State.says_advance).bind fun _ => brief_pure _

end Fail

theorem readsOn_expect (accept : Token → Bool) (kind : Message.Kind)
    (params : List (Message.Param × String)) : ReadsOn (expect accept kind params) :=
  after_expect_remaining accept kind params

theorem brief_advance : Brief advance :=
  brief_modify State.says_advance

theorem brief_isAt (kind : Token.Kind) (text : String) : Brief (isAt kind text) :=
  brief_get fun _ => brief_pure _

theorem brief_expectKeyword (keyword : String) : Brief (expectKeyword keyword) :=
  brief_expect (fun _ => ⟨rfl, rfl⟩) rfl _

theorem brief_expectToken (kind : Token.Kind) (text : String) : Brief (expectToken kind text) :=
  brief_expect (fun _ => ⟨rfl, rfl⟩) rfl _

theorem brief_expectName (statement : String) : Brief (expectName statement) :=
  (brief_expect (fun _ => ⟨rfl, rfl⟩) rfl _).bind fun _ => brief_get fun _ => brief_pure _

theorem brief_expectSemicolon : Brief expectSemicolon :=
  (brief_demand (fun _ => ⟨rfl, rfl⟩) rfl _).bind fun _ => brief_modify State.says_shift

theorem brief_openBody (statement : String) : Brief (openBody statement) :=
  (brief_demand (fun _ => ⟨rfl, rfl⟩) rfl _).bind fun _ => brief_modify State.says_shift

theorem brief_unexpected (statement : String) : Brief (unexpected statement : Parser α) := by
  refine brief_get fun s => ?_
  split
  · exact brief_failAt (fun _ => ⟨rfl, rfl⟩) rfl _
  · exact brief_failHere (fun _ => ⟨rfl, rfl⟩) rfl

theorem brief_unknownStatement (t : Token) (context options : String) :
    Brief (unknownStatement t context options : Parser α) :=
  brief_failAt (fun _ => ⟨rfl, rfl⟩) rfl t

theorem brief_inappropriate (t : Token) (classifier options : String) :
    Brief (inappropriate t classifier options : Parser α) :=
  brief_failAt (fun _ => ⟨rfl, rfl⟩) rfl t

theorem briefAt_modifyDocument {g : Document → Document} {s : State}
    (h : s.document.HeadedIn s.source (g s.document)) : BriefAt (modifyDocument g) s :=
  State.says_modifyDocument h

theorem brief_modifyDocument {g : Document → Document}
    (h : ∀ (d : Document) x, (g d).heading? x = d.heading? x) : Brief (modifyDocument g) :=
  fun s => briefAt_modifyDocument (.of_eq (h s.document))

theorem brief_await (name : Option TypeName) (classifier : String) (scope : Option StructureId)
    (slot : Slot) : Brief (await name classifier scope slot) := by
  cases name with
  | none => exact brief_pure _
  | some name =>
    exact brief_modify fun s => ⟨rfl, List.suffix_rfl, (List.append_nil _).symm, .refl _ _⟩

end Brief

section Speaks

variable {α β : Type} {P : Message → Prop} {p : Parser α} {f : α → Parser β} {s : State}

/-- A parser that reports only messages that satisfy `P`. -/
def Speaks (P : Message → Prop) (p : Parser α) : Prop :=
  ∀ s, After p s (fun _ s' => s.Tells P s') (s.Tells P)

theorem Speaks.bind (hp : Speaks P p) (hf : ∀ a, Speaks P (f a)) : Speaks P (p >>= f) := by
  intro s
  apply After.bind
  refine After.mono (hp s) (fun a s' h => ?_) fun _ h => h
  exact After.mono (hf a s') (fun _ _ h' => h.trans h') fun _ h' => h.trans h'

theorem speaks_get {f : State → Parser β} (h : ∀ s, Speaks P (f s)) : Speaks P (get >>= f) :=
  fun s => h s s

theorem speaks_modify {g : State → State} (h : ∀ s : State, s.Tells P (g s)) :
    Speaks P (modify g) :=
  h

theorem tells_construct {read : Parser α} {accept : α → State → Bool × State}
    {resume : State → State} (hread : Speaks P read)
    (ha : ∀ a (s' : State), s'.Tells P (accept a s').2)
    (hr : ∀ s' : State, s'.Tells P (resume s')) : s.Tells P (s.construct read accept resume) := by
  have hback (s' : State) : s'.Tells P (s'.rollback s.mark) :=
    State.Says.tells
      ⟨rfl, List.suffix_rfl, (List.append_nil _).symm, Document.headedIn_restore _⟩
  have hafter := hread s
  unfold State.construct
  cases hp : read s with
  | ok a s' =>
    have haccept := (hafter.of_ok hp).trans (ha a s')
    simp only
    split
    · exact haccept
    · exact haccept.trans (hback _)
  | error e s' => exact ((hafter.of_error hp).trans (hback s')).trans (hr _)

theorem tells_recover (s : State) : s.Tells P s.recover :=
  (State.says_of_rest (resumption_suffix 0 _)).tells

theorem tells_salvage {read : Parser Unit} (hread : Speaks P read) :
    s.Tells P (s.salvage read) :=
  tells_construct hread (fun _ s' => State.Tells.refl s') tells_recover

section Ordinary

variable (hP : ∀ m : Message, m.Ordinary → P m)

include hP

theorem Brief.speaks (h : Brief p) : Speaks P p :=
  fun s => After.mono (h s) (fun _ _ h => h.tells) fun _ h => h.tells hP

theorem Brief.speaks_bind (hp : Brief p) (hf : ∀ a, Speaks P (f a)) : Speaks P (p >>= f) :=
  (hp.speaks hP).bind hf

theorem tells_misplaced (s : State) (comment : Option Comment) :
    s.Tells P (s.misplaced comment) := by
  cases comment with
  | none => exact State.Tells.refl s
  | some comment => exact State.tells_report (hP _ ⟨rfl, rfl⟩)

theorem speaks_items {statement : String} {item : Item}
    (hi : ∀ comment first (s : State), s.Tells P (item comment first s)) :
    Speaks P (items statement item) := by
  intro s
  refine after_iterate (I := fun _ s' => s.Tells P s') (fun _ s' hs => ?_) (.refl s)
  have hskip : s.Tells P s'.skipComments := hs.trans (State.says_skipComments s').tells
  have hmisplaced (comment : Option Comment) :
      s.Tells P (s'.skipComments.misplaced comment).shift :=
    (hskip.trans (tells_misplaced hP _ comment)).trans (State.says_shift _).tells
  apply After.bind
  apply after_modifyGet
  apply After.bind
  apply after_get
  split
  · have hfail := (brief_failHere (fun _ => ⟨rfl, rfl⟩) rfl :
      Brief (failHere .unexpectedEndOfInput [(.statement, statement)] : Parser (Round Unit Unit)))
    exact After.mono (hfail.speaks hP s'.skipComments)
      (fun r _ h => by
        cases r with
        | again _ => exact ⟨hskip.trans h, .inr (hskip.trans h)⟩
        | done _ => exact hskip.trans h)
      fun _ h => hskip.trans h
  · rename_i t _
    split
    · exact hmisplaced _
    · split
      · exact ⟨hmisplaced _, .inr (hmisplaced _)⟩
      · exact ⟨hskip.trans (hi _ t _), .inr (hskip.trans (hi _ t _))⟩

theorem speaks_body {statement : String} {item : Item}
    (hi : ∀ comment first (s : State), s.Tells P (item comment first s)) :
    Speaks P (body statement item) :=
  (brief_openBody statement).speaks_bind hP fun _ => speaks_items hP hi

end Ordinary

end Speaks

end Grammar

end Idl
