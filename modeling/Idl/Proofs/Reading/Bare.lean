import Idl.Proofs.Reading.Repetition
import Idl.Proofs.Session.Bare

/-!
Reading without comments. A parser is shadowed if without comments among the tokens, in the
document and in the messages the same is done as with them. For that no parser may look at a
comment where it expects a token, so it matters what stands in front while it is read: behind most
tokens the comments are skipped, but behind the end of a statement and the start of a body they
are left to what follows.
-/

namespace Idl.Grammar

/-- What stands in front of the reading: a token that is no comment or the end of the source, or
anything. -/
inductive Front where
  | token
  | any

namespace State

/-- The state without comments. Where the source ends is left open; it only matters to say where
a broken source is broken. -/
def bare (s : State) : State :=
  { s with
    toSession := s.toSession.bare
    cursor := ⟨s.cursor.rest.filter (!·.isComment), 0, 0⟩ }

def Shows (s : State) : Front → Prop
  | .token => ∀ t ∈ s.current, t.isComment = false
  | .any => True

variable {s : State} {front : Front}

theorem shows_any (s : State) : s.Shows .any :=
  trivial

theorem Shows.of_rest {s' : State} (h : s.Shows front)
    (hrest : s'.cursor.rest = s.cursor.rest) : s'.Shows front := by
  cases front with
  | token => simpa only [Shows, current, Cursor.current, hrest] using h
  | any => trivial

@[simp] theorem document_bare (s : State) : s.bare.document = s.document.bare :=
  rfl

@[simp] theorem locationOf_bare (s : State) (t : Token) : s.bare.locationOf t = s.locationOf t :=
  rfl

@[simp] theorem find?_bare (s : State) (scope : Option StructureId) (name : TypeName) :
    s.bare.find? scope name = s.find? scope name :=
  s.document.findType?_bare s.package name.path scope name.last.text

theorem current_bare (h : s.Shows .token) : s.bare.current = s.current := by
  have hfront : ∀ t ∈ s.cursor.rest.head?, t.isComment = false := h
  change (s.cursor.rest.filter (!·.isComment)).head? = s.cursor.rest.head?
  cases hr : s.cursor.rest with
  | nil => rfl
  | cons t rest =>
    rw [hr] at hfront
    rw [List.filter_cons, hfront t rfl]
    rfl

theorem isAtText_bare (h : s.Shows .token) (kind : Token.Kind) (text : String) :
    s.bare.cursor.isAtText kind text = s.cursor.isAtText kind text :=
  congrArg (Option.any fun t : Token => t.is kind text) (current_bare h)

theorem shift_bare (h : s.Shows .token) : s.bare.shift = s.shift.bare := by
  have hfront : ∀ t ∈ s.cursor.rest.head?, t.isComment = false := h
  have htail : (s.cursor.rest.filter (!·.isComment)).tail =
      s.cursor.rest.tail.filter (!·.isComment) := by
    cases hr : s.cursor.rest with
    | nil => rfl
    | cons t rest =>
      rw [hr] at hfront
      rw [List.filter_cons, hfront t rfl]
      rfl
  exact congrArg (fun rest => { s.bare with cursor := ⟨rest, 0, 0⟩ }) htail

theorem skipComments_bare (s : State) : s.bare.skipComments = s.bare := by
  have hrest : (s.cursor.rest.filter (!·.isComment)).dropWhile Token.isComment =
      s.cursor.rest.filter (!·.isComment) := by
    refine List.dropWhile_eq_self_iff.2 fun hpos => ?_
    have hmem := List.getElem_mem hpos
    simpa using (List.mem_filter.1 hmem).2
  exact congrArg (fun rest => { s.bare with cursor := ⟨rest, 0, 0⟩ }) hrest

theorem bare_skipComments (s : State) : s.skipComments.bare = s.bare := by
  have hrest : (s.cursor.rest.dropWhile Token.isComment).filter (!·.isComment) =
      s.cursor.rest.filter (!·.isComment) := by
    induction s.cursor.rest with
    | nil => rfl
    | cons t rest ih =>
      cases ht : t.isComment with
      | true => simp only [List.dropWhile_cons, List.filter_cons, ht, if_true, ih]; rfl
      | false => simp only [List.dropWhile_cons, ht]; rfl
  exact congrArg (fun rest => { s.bare with cursor := ⟨rest, 0, 0⟩ }) hrest

theorem shows_skipComments (s : State) : s.skipComments.Shows .token := by
  intro t ht
  have hnot := List.head?_dropWhile_not Token.isComment s.cursor.rest
  change (s.cursor.rest.dropWhile Token.isComment).head? = some t at ht
  rw [ht] at hnot
  simpa using hnot

theorem shows_advance (s : State) : s.advance.Shows .token :=
  shows_skipComments s.shift

theorem advance_bare (h : s.Shows .token) : s.bare.advance = s.advance.bare := by
  rw [advance, advance, shift_bare h, skipComments_bare, bare_skipComments]

/-- Without comments there is none in front of a construct. -/
theorem leadingComment_bare (s : State) : s.bare.leadingComment = (none, s.bare) := by
  have hnone : (s.cursor.rest.filter (!·.isComment)).takeWhile Token.isComment = [] := by
    refine List.takeWhile_eq_nil_iff.2 fun hpos => ?_
    have hmem := List.getElem_mem hpos
    simpa using (List.mem_filter.1 hmem).2
  have hcomment : s.bare.commentOf? s.bare.cursor.rest = none := by
    change ((((s.cursor.rest.filter (!·.isComment)).takeWhile Token.isComment)).head?.map _) = _
    rw [hnone]
    rfl
  exact Prod.ext hcomment (skipComments_bare s)

theorem ask_bare (t : Option DataType) (defaults : List Default) :
    s.bare.ask t defaults = (s.ask t defaults).bare :=
  congrArg (fun session => { s.bare with toSession := session }) (s.toSession.ask_bare t defaults)

theorem report_bare {m : Message} (h : m.isMisplaced = false) :
    s.bare.report m = (s.report m).bare :=
  congrArg (fun session => { s.bare with toSession := session }) (s.toSession.report_bare h)

theorem misplaced_bare (s : State) (comment : Option Comment) :
    (s.misplaced comment).bare = s.bare := by
  cases comment with
  | none => rfl
  | some comment =>
    have hmessages : (s.messages ++ [Message.of .misplacedComment comment.location]).filter
        (!·.isMisplaced) = s.messages.filter (!·.isMisplaced) := by
      rw [List.filter_append]
      exact List.append_nil _
    exact congrArg (fun messages => { s.bare with messages }) hmessages

theorem modifyDocument_bare {f f' : Document → Document} (h : ∀ d, (f d).bare = f' d.bare) :
    s.bare.modifyDocument f' = (s.modifyDocument f).bare :=
  congrArg (fun session => { s.bare with toSession := session })
    (s.toSession.modifyDocument_bare h)

theorem mark_bare (s : State) : s.bare.mark = s.mark :=
  congrArg (Mark.mk · s.pending.length) s.document.extent_bare

theorem rollback_bare (s : State) (mark : Mark) : s.bare.rollback mark = (s.rollback mark).bare :=
  congrArg (fun s' : State => { s' with pending := s.pending.take mark.pending })
    (modifyDocument_bare fun d => d.bare_restore mark.extent)

theorem settle_bare {f : Session → List Binding → Session × List Binding}
    (h : ∀ session pending, f session.bare pending =
      ((f session pending).1.bare, (f session pending).2)) :
    s.bare.settle f = (s.settle f).bare := by
  have hs : f s.bare.toSession s.bare.pending =
      ((f s.toSession s.pending).1.bare, (f s.toSession s.pending).2) := h s.toSession s.pending
  simp only [settle, hs]
  rfl

end State

section Shadows

variable {α β : Type} {front front' front'' : Front} {p p' : Parser α} {f f' : α → Parser β}
  {s : State}

/-- Without comments `p'` does from here what `p` does with them, or both fail. -/
def ShadowsAt (front : Front) (p p' : Parser α) (s : State) : Prop :=
  After p s (fun a t => p' s.bare = .ok a t.bare ∧ t.Shows front)
    fun _ => ∃ e t, p' s.bare = .error e t

/-- Without comments `p'` does what `p` does with them, wherever `front` stands in front; behind
it stands `front'`. -/
def Shadows (front front' : Front) (p p' : Parser α) : Prop :=
  ∀ s : State, s.Shows front → ShadowsAt front' p p' s

theorem ShadowsAt.bind (hp : ShadowsAt front p p' s) (hf : ∀ a, Shadows front front' (f a) (f' a)) :
    ShadowsAt front' (p >>= f) (p' >>= f') s := by
  apply After.bind
  refine After.mono hp (fun a t ⟨hrun, ht⟩ => ?_) fun _ ⟨e, t, hrun⟩ =>
    ⟨e, t, run_bind_of_error hrun f'⟩
  rw [run_bind_of_ok hrun f']
  exact hf a t ht

theorem Shadows.bind (hp : Shadows front front' p p')
    (hf : ∀ a, Shadows front' front'' (f a) (f' a)) : Shadows front front'' (p >>= f) (p' >>= f') :=
  fun s hs => (hp s hs).bind hf

theorem Shadows.any (h : Shadows front front' p p') : Shadows front .any p p' :=
  fun s hs => After.mono (h s hs) (fun _ _ ⟨hrun, _⟩ => ⟨hrun, trivial⟩) fun _ h => h

theorem shadows_pure (a : α) : Shadows front front (pure a : Parser α) (pure a) :=
  fun _ hs => ⟨rfl, hs⟩

/-- What stands behind `get` starts in the state that was got. -/
theorem shadows_get {f f' : State → Parser β}
    (h : ∀ s : State, s.Shows front → ShadowsAt front' (f s) (f' s.bare) s) :
    Shadows front front' (get >>= f) (get >>= f') :=
  h

theorem shadows_modify {g g' : State → State}
    (h : ∀ s : State, s.Shows front → g' s.bare = (g s).bare ∧ (g s).Shows front') :
    Shadows front front' (modify g) (modify g') :=
  fun s hs => ⟨congrArg (EStateM.Result.ok PUnit.unit) (h s hs).1, (h s hs).2⟩

theorem shadows_modifyGet {g : State → α × State}
    (h : ∀ s : State, s.Shows front → g s.bare = ((g s).1, (g s).2.bare) ∧ (g s).2.Shows front') :
    Shadows front front' (modifyGet g) (modifyGet g) := by
  intro s hs
  refine ⟨?_, (h s hs).2⟩
  have hg := (h s hs).1
  change EStateM.Result.ok (g s.bare).1 (g s.bare).2 = _
  rw [hg]

/-- The comment in front of a construct is taken or not; behind it all is the same. -/
theorem shadows_leadingComment {f f' : Option Comment → Parser β}
    (h : ∀ comment, Shadows .token front' (f comment) (f' none)) :
    Shadows front front' (modifyGet State.leadingComment >>= f)
      (modifyGet State.leadingComment >>= f') := by
  intro s _
  have hrun : (modifyGet State.leadingComment >>= f') s.bare = f' none s.skipComments.bare := by
    rw [run_bind_modifyGet, State.leadingComment_bare, State.bare_skipComments]
  have hnext := h (s.leadingComment).1 s.skipComments (State.shows_skipComments s)
  unfold ShadowsAt at hnext ⊢
  rw [hrun]
  exact hnext

theorem shadows_iterate {round : α → Parser (Round α β)}
    (h : ∀ a, Shadows front front (round a) (round a)) (hr : Progresses round) (a : α) :
    Shadows front front (iterate round a) (iterate round a) := by
  intro s hs
  induction hn : s.remaining using Nat.strongRecOn generalizing a s with
  | ind n ih =>
    have hround := h a s hs
    unfold ShadowsAt After
    cases hrun : round a s with
    | error e t =>
      rw [iterate_of_error hrun]
      obtain ⟨e', t', hrun'⟩ := After.of_error hround hrun
      exact ⟨e', t', iterate_of_error hrun'⟩
    | ok r t =>
      obtain ⟨hrun', ht⟩ := After.of_ok hround hrun
      cases r with
      | done b =>
        rw [iterate_of_done hrun]
        exact ⟨iterate_of_done hrun', ht⟩
      | again a' =>
        have hlt : t.remaining < s.remaining := (After.of_ok (hr a s) hrun).2 a' rfl
        have hlt' : t.bare.remaining < s.bare.remaining :=
          (After.of_ok (hr a s.bare) hrun').2 a' rfl
        rw [iterate_of_again hrun hlt, iterate_of_again hrun' hlt']
        exact ih t.remaining (hn ▸ hlt) a' t ht rfl

theorem shadows_fail (m m' : Message) : Shadows front front' (fail m : Parser α) (fail m') :=
  fun _ _ => ⟨_, _, rfl⟩

theorem shadows_failHere (kind : Message.Kind) (params : List (Message.Param × String)) :
    Shadows front front' (failHere kind params : Parser α) (failHere kind params) :=
  shadows_get fun s hs => shadows_fail _ _ s hs

theorem shadows_failAt (t : Token) (kind : Message.Kind)
    (params params' : List (Message.Param × String)) :
    Shadows front front' (failAt t kind params : Parser α) (failAt t kind params') :=
  shadows_get fun s hs => shadows_fail _ _ s hs

theorem shadows_isAt (kind : Token.Kind) (text : String) :
    Shadows .token .token (isAt kind text) (isAt kind text) := by
  refine shadows_get fun s hs => ?_
  rw [State.isAtText_bare hs]
  exact shadows_pure _ s hs

theorem shadows_advance : Shadows .token .token advance advance :=
  shadows_modify fun s hs => ⟨State.advance_bare hs, s.shows_advance⟩

theorem shadows_demand (accept : Token → Bool) (kind : Message.Kind)
    (params : List (Message.Param × String)) :
    Shadows .token .token (demand accept kind params) (demand accept kind params) := by
  refine shadows_get fun s hs => ?_
  rw [State.current_bare hs]
  split
  · exact shadows_pure _ s hs
  · exact shadows_failHere kind params s hs

theorem shadows_expect (accept : Token → Bool) (kind : Message.Kind)
    (params : List (Message.Param × String)) :
    Shadows .token .token (expect accept kind params) (expect accept kind params) :=
  (shadows_demand accept kind params).bind fun t =>
    shadows_advance.bind fun _ => shadows_pure t

theorem shadows_expectKeyword (keyword : String) :
    Shadows .token .token (expectKeyword keyword) (expectKeyword keyword) :=
  shadows_expect _ _ _

theorem shadows_expectToken (kind : Token.Kind) (text : String) :
    Shadows .token .token (expectToken kind text) (expectToken kind text) :=
  shadows_expect _ _ _

theorem shadows_expectName (statement : String) :
    Shadows .token .token (expectName statement) (expectName statement) :=
  (shadows_expect _ _ _).bind fun t => shadows_get fun s hs => shadows_pure (s.nameOf t) s hs

theorem shadows_expectSemicolon : Shadows .token .any expectSemicolon expectSemicolon :=
  (shadows_demand _ _ _).bind fun _ =>
    shadows_modify fun s hs => ⟨State.shift_bare hs, s.shift.shows_any⟩

theorem shadows_openBody (statement : String) :
    Shadows .token .any (openBody statement) (openBody statement) :=
  (shadows_demand _ _ _).bind fun _ =>
    shadows_modify fun s hs => ⟨State.shift_bare hs, s.shift.shows_any⟩

theorem shadows_misplaced (comment : Option Comment) :
    Shadows .token .any (modify fun s => (s.misplaced comment).shift)
      (modify fun s => (s.misplaced none).shift) := by
  refine shadows_modify fun s hs => ⟨?_, State.shows_any _⟩
  have hs' : (s.misplaced comment).Shows .token := hs.of_rest (by cases comment <;> rfl)
  rw [← State.shift_bare hs', State.misplaced_bare]
  rfl

theorem shadows_emptyBody (statement : String) :
    Shadows .token .any (emptyBody statement) (emptyBody statement) :=
  (shadows_openBody statement).bind fun _ => shadows_leadingComment fun comment =>
    (shadows_demand _ _ _).bind fun _ => shadows_misplaced comment

theorem shadows_unexpected (statement : String) :
    Shadows .token front' (unexpected statement : Parser α) (unexpected statement) := by
  refine shadows_get fun s hs => ?_
  rw [State.current_bare hs]
  split
  · exact shadows_failAt _ _ _ _ s hs
  · exact shadows_failHere _ _ s hs

theorem shadows_modifyDocument {g g' : Document → Document} (h : ∀ d, (g d).bare = g' d.bare) :
    Shadows front front (modifyDocument g) (modifyDocument g') :=
  shadows_modify fun _ hs => ⟨State.modifyDocument_bare h, hs.of_rest rfl⟩

theorem shadows_await (name : Option TypeName) (classifier : String)
    (scope : Option StructureId) (slot : Slot) :
    Shadows front front (await name classifier scope slot) (await name classifier scope slot) := by
  cases name with
  | none => exact shadows_pure _
  | some name => exact shadows_modify fun _ hs => ⟨rfl, hs.of_rest rfl⟩

/-- How a header ends: the node is put into the document, and a name may wait for its slot. -/
theorem shadows_insert {α : Type} {g g' : Document → Document}
    (h : ∀ d : Document, (g d).bare = g' d.bare) (name : Option TypeName) (classifier : String)
    (scope : Option StructureId) (slot : Slot) (a : α) :
    Shadows front front (do modifyDocument g; await name classifier scope slot; pure a)
      (do modifyDocument g'; await name classifier scope slot; pure a) :=
  (shadows_modifyDocument h).bind fun _ => (shadows_await _ _ _ _).bind fun _ => shadows_pure a

end Shadows

end Idl.Grammar
