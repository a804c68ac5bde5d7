import Idl.Proofs.Course.Failure
import Idl.Proofs.Grammar.Bare

/-!
Bodies and declarations without comments. What is broken in a body is skipped, and how far may
depend on the comments in it; but then an error was reported both with comments and without them.
As long as there is none, every item, every declaration and every statement is read alike.
-/

namespace Idl.Grammar

namespace State

/-- An error was reported. -/
def Broken (s : State) : Prop :=
  Message.hasError s.messages = true

/-- Without comments there is just what there is with them, or there is an error both times. -/
def Echoes (s s' : State) : Prop :=
  s' = s.bare ∨ s.Broken ∧ s'.Broken

variable {s s' : State}

theorem Broken.mono (h : s.Broken) (hm : s.messages <+: s'.messages) : s'.Broken := by
  obtain ⟨more, hmore⟩ := hm
  rw [Broken, ← hmore, Message.hasError_append, h]
  rfl

theorem Alarms.broken (h : s.Alarms s') : s'.Broken := by
  obtain ⟨more, herror, hmore⟩ := h
  rw [Broken, hmore, Message.hasError_append, herror, Bool.or_true]

theorem broken_bare : s.bare.Broken ↔ s.Broken := by
  rw [Broken, Broken, ← s.toSession.hasError_bare]
  rfl

end State

section Lapses

variable {ε α β : Type} {p : EStateM ε State α} {f : α → EStateM ε State β} {s : State}

/-- However it ends from here, an error was reported. -/
def Lapses (p : EStateM ε State α) (s : State) : Prop :=
  After p s (fun _ t => t.Broken) State.Broken

theorem Lapses.of_eq {q : EStateM ε State α} {t : State} (h : Lapses q t) (hp : p s = q t) :
    Lapses p s := by
  unfold Lapses After
  rw [hp]
  exact h

theorem Lapses.bind (hp : Lapses p s) (hf : ∀ a, Remembers (f a)) : Lapses (p >>= f) s := by
  apply After.bind
  refine After.mono hp (fun a t ht => ?_) fun _ h => h
  exact After.mono (hf a t) (fun _ _ h => ht.mono h) fun _ h => ht.mono h

theorem Lapses.iterate [Inhabited ε] {round : α → EStateM ε State (Round α β)} {a : α}
    (h : Lapses (round a) s) (hr : ∀ a, Remembers (round a)) :
    Lapses (Grammar.iterate round a) s := by
  have hround : After (round a) s (fun _ t => t.Broken) State.Broken := h
  unfold Lapses After
  rw [Grammar.iterate]
  cases hrun : round a s with
  | error e t => exact hround.of_error hrun
  | ok r t =>
    have ht : t.Broken := hround.of_ok hrun
    cases r with
    | done b => exact ht
    | again a' =>
      by_cases hlt : t.remaining < s.remaining
      · simp only [hlt, if_true]
        exact After.mono (remembers_iterate hr a' t) (fun _ _ h => ht.mono h)
          fun _ h => ht.mono h
      · simp only [hlt, if_false]
        exact ht

theorem Alerts.remembers {p : Parser α} (h : Alerts p) : Remembers p :=
  fun s => After.mono (h s) (fun _ _ h => h) fun _ ⟨more, _, h⟩ => ⟨more, h.symm⟩

theorem Alerts.lapses {p : Parser α} (h : Alerts p) {e : Reported} {t : State}
    (hp : p s = .error e t) : Lapses p s := by
  have ht : t.Broken := (After.of_error (h s) hp).broken
  unfold Lapses After
  rw [hp]
  exact ht

theorem Lapses.construct {read : Parser α} {accept : α → State → Bool × State}
    {resume : State → State} (h : Lapses read s)
    (ha : ∀ a (t : State), t.messages <+: (accept a t).2.messages)
    (hr : ∀ t : State, t.messages <+: (resume t).messages) :
    (s.construct read accept resume).Broken := by
  unfold State.construct
  cases hp : read s with
  | error e t =>
    have ht : t.Broken := After.of_error h hp
    exact State.Broken.mono (s := t.rollback s.mark) ht (hr _)
  | ok a t =>
    have ht : (accept a t).2.Broken := (After.of_ok h hp).mono (ha a t)
    simp only
    split
    · exact ht
    · exact ht

end Lapses

section Echoes

variable {α β : Type} {front front' : Front} {p p' : Parser α} {f f' : α → Parser β} {s : State}

/-- Without comments `p'` does from here what `p` does with them, or both report an error. -/
def EchoesAt (p p' : Parser α) (s : State) : Prop :=
  ShadowsAt .any p p' s ∨ Lapses p s ∧ Lapses p' s.bare

/-- Without comments `p'` does what `p` does with them as long as no error is reported. -/
def Echoes (front : Front) (p p' : Parser α) : Prop :=
  ∀ s : State, s.Shows front → EchoesAt p p' s

theorem Shadows.echoes (h : Shadows front front' p p') : Echoes front p p' :=
  fun s hs => .inl (h.any s hs)

theorem ShadowsAt.bind_echoes (hp : ShadowsAt front p p' s)
    (hf : ∀ a, Echoes front (f a) (f' a)) : EchoesAt (p >>= f) (p' >>= f') s := by
  unfold EchoesAt ShadowsAt Lapses After
  cases h : p s with
  | error e t =>
    obtain ⟨e', t', h'⟩ := After.of_error hp h
    rw [run_bind_of_error h]
    exact .inl ⟨e', t', run_bind_of_error h' f'⟩
  | ok a t =>
    obtain ⟨h', ht⟩ := After.of_ok hp h
    rw [run_bind_of_ok h, run_bind_of_ok h']
    exact hf a t ht

theorem Shadows.bind_echoes (hp : Shadows front front' p p')
    (hf : ∀ a, Echoes front' (f a) (f' a)) : Echoes front (p >>= f) (p' >>= f') :=
  fun s hs => (hp s hs).bind_echoes hf

/-- What is done behind a body is done alike, and forgets no error. -/
theorem Echoes.bind (hp : Echoes front p p') (hf : ∀ a, Shadows .any .any (f a) (f a))
    (hr : ∀ a, Remembers (f a)) : Echoes front (p >>= f) (p' >>= f) := by
  intro s hs
  rcases hp s hs with hrun | ⟨hlapse, hlapse'⟩
  · exact hrun.bind_echoes fun a => (hf a).echoes
  · exact .inr ⟨hlapse.bind hr, hlapse'.bind hr⟩

theorem Echoes.map {g : α → β} (hp : Echoes front p p') : Echoes front (g <$> p) (g <$> p') :=
  hp.bind (fun a => shadows_pure (g a)) fun a => remembers_pure (g a)

theorem echoes_get {f f' : State → Parser β}
    (h : ∀ s : State, s.Shows front → EchoesAt (f s) (f' s.bare) s) :
    Echoes front (get >>= f) (get >>= f') :=
  h

theorem echoes_modify {g g' : State → State}
    (h : ∀ s : State, s.Shows front → (g s).Echoes (g' s.bare)) :
    Echoes front (modify g) (modify g') := by
  intro s hs
  rcases h s hs with heq | hbroken
  · exact .inl ⟨congrArg (EStateM.Result.ok PUnit.unit) heq, trivial⟩
  · exact .inr hbroken

theorem echoes_leadingComment {f f' : Option Comment → Parser β}
    (h : ∀ comment, Echoes .token (f comment) (f' none)) :
    Echoes front (modifyGet State.leadingComment >>= f)
      (modifyGet State.leadingComment >>= f') := by
  intro s _
  have hrun : (modifyGet State.leadingComment >>= f') s.bare = f' none s.skipComments.bare := by
    rw [run_bind_modifyGet, State.leadingComment_bare, State.bare_skipComments]
  have hnext := h (s.leadingComment).1 s.skipComments (State.shows_skipComments s)
  unfold EchoesAt ShadowsAt Lapses After at hnext ⊢
  rw [hrun]
  exact hnext

theorem echoes_iterate {round : α → Parser (Round α β)}
    (h : ∀ a, Echoes .any (round a) (round a)) (ha : Progresses round)
    (hr : ∀ a, Remembers (round a)) (a : α) :
    Echoes .any (iterate round a) (iterate round a) := by
  intro s _
  induction hn : s.remaining using Nat.strongRecOn generalizing a s with
  | ind n ih =>
    rcases h a s s.shows_any with hround | ⟨hlapse, hlapse'⟩
    · unfold EchoesAt ShadowsAt Lapses After
      cases hrun : round a s with
      | error e t =>
        rw [iterate_of_error hrun]
        obtain ⟨e', t', hrun'⟩ := After.of_error hround hrun
        exact .inl ⟨e', t', iterate_of_error hrun'⟩
      | ok r t =>
        obtain ⟨hrun', ht⟩ := After.of_ok hround hrun
        cases r with
        | done b =>
          rw [iterate_of_done hrun]
          exact .inl ⟨iterate_of_done hrun', ht⟩
        | again a' =>
          have hlt : t.remaining < s.remaining := (After.of_ok (ha a s) hrun).2 a' rfl
          have hlt' : t.bare.remaining < s.bare.remaining :=
            (After.of_ok (ha a s.bare) hrun').2 a' rfl
          rw [iterate_of_again hrun hlt, iterate_of_again hrun' hlt']
          exact ih t.remaining (hn ▸ hlt) a' t ht rfl
    · exact .inr ⟨hlapse.iterate hr, hlapse'.iterate hr⟩

/-- A construct is taken in, taken back or skipped alike, as long as no error is reported. -/
theorem echoes_construct {read read' : Parser α} {accept : α → State → Bool × State}
    {resume : State → State} (hread : EchoesAt read read' s) (ha : Alerts read)
    (ha' : Alerts read')
    (haccept : ∀ a (t : State), accept a t.bare = ((accept a t).1, (accept a t).2.bare))
    (hmessages : ∀ a (t : State), t.messages <+: (accept a t).2.messages)
    (hresume : ∀ t : State, t.messages <+: (resume t).messages) :
    (s.construct read accept resume).Echoes (s.bare.construct read' accept resume) := by
  rcases hread with hrun | ⟨hlapse, hlapse'⟩
  · cases h : read s with
    | error e t =>
      obtain ⟨e', t', h'⟩ := After.of_error hrun h
      exact .inr ⟨(ha.lapses h).construct hmessages hresume,
        (ha'.lapses h').construct hmessages hresume⟩
    | ok a t =>
      obtain ⟨h', _⟩ := After.of_ok hrun h
      refine .inl ?_
      simp only [State.construct, h, h', haccept, State.mark_bare, State.rollback_bare]
      split <;> rfl
  · exact .inr ⟨hlapse.construct hmessages hresume, hlapse'.construct hmessages hresume⟩

end Echoes

section Bodies

/-- An item that is read alike without comments. -/
def ItemEchoes (item : Item) : Prop :=
  ∀ comment first (s : State), s.Shows .token →
    (item comment first s).Echoes (item none first s.bare)

theorem itemEchoes_salvage {read : Option Comment → Token → Parser Unit}
    (h : ∀ comment first, Echoes .token (read comment first) (read none first))
    (ha : ∀ comment first, Alerts (read comment first)) :
    ItemEchoes fun comment first s => s.salvage (read comment first) :=
  fun comment first s hs => echoes_construct (h comment first s hs) (ha comment first)
    (ha none first) (fun _ _ => rfl) (fun _ _ => List.prefix_rfl)
    fun t => (State.reads_recover t).messages

theorem echoes_bodyRound {item : Item} (hi : ItemEchoes item) (statement : String) :
    Echoes .any (bodyRound statement item) (bodyRound statement item) := by
  refine echoes_leadingComment fun comment => echoes_get fun s hs => ?_
  rw [State.current_bare hs]
  have hstray (r : Round Unit Unit) :=
    (shadows_misplaced comment).bind fun _ => shadows_pure r
  split
  · exact (shadows_failHere _ _ : Shadows .token .any _ _).echoes s hs
  · rename_i t _
    split
    · exact (hstray (.done ())).echoes s hs
    · split
      · exact (hstray (.again ())).echoes s hs
      · exact (echoes_modify fun s hs => hi comment t s hs).bind
          (fun _ => shadows_pure _) (fun _ => remembers_pure _) s hs

variable (checks : List Check) (site : Site)

theorem echoes_items (hi : ItemEchoes (site.item checks)) :
    Echoes .any (items site.statement (site.item checks))
      (items site.statement (site.item checks)) :=
  echoes_iterate (fun _ => echoes_bodyRound hi _)
    (progresses_bodyRound (site.itemReadsOn checks) _)
    (fun _ => (alerts_bodyRound (site.tells_item checks)).remembers) ()

theorem echoes_body (hi : ItemEchoes (site.item checks)) :
    Echoes .token (body site.statement (site.item checks))
      (body site.statement (site.item checks)) :=
  (shadows_openBody _).bind_echoes fun _ => echoes_items checks site hi

end Bodies

section Items

theorem itemEchoes_enumeration (id : EnumerationId) : ItemEchoes (enumerationItem id) :=
  itemEchoes_salvage (fun comment first => (shadows_enumerationValue id comment first).echoes)
    fun comment first => (brief_enumerationValue id comment first).alerts

theorem echoes_enumeration (comment : Option Comment) (modifiers : List Token)
    (owner : Option StructureId) :
    Echoes .token (enumeration comment modifiers owner) (enumeration none modifiers owner) := by
  refine (shadows_enumerationHeader comment modifiers owner).bind_echoes fun id => ?_
  have hbody : Echoes .token (body "enumeration" (enumerationItem id))
      (body "enumeration" (enumerationItem id)) :=
    echoes_body [] (.enumeration id) (itemEchoes_enumeration id)
  refine hbody.bind (fun _ => ?_) fun _ => ?_
  · refine (shadows_modifyDocument fun d => ?_).bind fun _ => shadows_pure _
    exact d.bare_modifyEnumeration (fun e => e.bare_assignValues) id
  · exact fun _ => List.prefix_rfl

theorem itemEchoes_method (id : InterfaceId) (position : Nat) :
    ItemEchoes (methodItem id position) := by
  refine itemEchoes_salvage (fun comment first => ?_) fun comment first => ?_
  · split
    · exact (shadows_parameter id position comment first).echoes
    · exact (shadows_failAt _ _ _ _ : Shadows .token .any _ _).echoes
  · split
    · exact (brief_parameter id position comment first).alerts
    · exact (brief_unknownStatement _ _ _).alerts

theorem echoes_method (id : InterfaceId) (comment : Option Comment) :
    Echoes .token (method id comment) (method id none) :=
  (shadows_methodHeader id comment).bind_echoes fun position =>
    echoes_items [] (.method id position) (itemEchoes_method id position)

theorem itemEchoes_interface (id : InterfaceId) : ItemEchoes (interfaceItem id) := by
  refine itemEchoes_salvage (fun comment first => ?_) fun comment first => ?_
  · split
    · exact echoes_method id comment
    · exact (shadows_failAt _ _ _ _ : Shadows .token .any _ _).echoes
  · split
    · exact alerts_method id comment
    · exact (brief_unknownStatement _ _ _).alerts

theorem echoes_interface (comment : Option Comment) :
    Echoes .token (interface comment) (interface none) := by
  refine (shadows_interfaceHeader comment).bind_echoes fun id => ?_
  have hbody : Echoes .token (body "interface" (interfaceItem id))
      (body "interface" (interfaceItem id)) :=
    echoes_body [] (.interface id) (itemEchoes_interface id)
  exact hbody.bind (fun _ => shadows_pure id) fun _ => remembers_pure id

theorem itemEchoes_factory (id : FactoryId) : ItemEchoes (factoryItem id) := by
  refine itemEchoes_salvage (fun comment first => ?_) fun comment first => ?_
  · split
    · exact (shadows_filter id comment first).echoes
    · exact (shadows_failAt _ _ _ _ : Shadows .token .any _ _).echoes
  · split
    · exact (brief_filter id comment first).alerts
    · exact (brief_unknownStatement _ _ _).alerts

theorem echoes_factory (comment : Option Comment) (modifiers : List Token) :
    Echoes .token (factory comment modifiers) (factory none modifiers) := by
  refine (shadows_factoryHeader comment modifiers).bind_echoes fun id => ?_
  have hbody : Echoes .token (body "factory" (factoryItem id)) (body "factory" (factoryItem id)) :=
    echoes_body [] (.factory id) (itemEchoes_factory id)
  exact hbody.bind (fun _ => shadows_pure id) fun _ => remembers_pure id

theorem echoes_member (id : StructureId) (comment : Option Comment) (first : Token) :
    Echoes .token (member id comment first) (member id none first) := by
  unfold member
  extract_lets dispatch dispatch'
  have hdispatch : Echoes .token (dispatch ()) (dispatch' ()) := by
    refine (shadows_modifiers _).bind_echoes fun taken => echoes_get fun s hs => ?_
    rw [State.current_bare hs]
    extract_lets t form isReference complete
    have hcomplete (nested : Option EnumerationId) :
        Shadows .any .any (complete nested) (complete nested) :=
      (shadows_reportModifiers _).bind fun _ => shadows_pure _
    have hremembers (nested : Option EnumerationId) : Remembers (complete nested) :=
      (alerts_reportModifiers _).remembers.bind fun _ => remembers_pure _
    have plain {p p' : Parser Unit} (hp : Shadows .token .any p p') :
        EchoesAt (do p; let nested ← pure none; complete nested)
          (do p'; let nested ← pure none; complete nested) s :=
      hp.bind_echoes (fun _ => ((shadows_pure none).bind hcomplete).echoes) s hs
    clear_value form
    cases form with
    | identification => exact plain (shadows_identification comment taken)
    | upcopy => exact plain (shadows_upcopy comment)
    | operator => exact plain (shadows_operator comment taken)
    | field => exact plain (shadows_field comment taken _)
    | enumeration =>
      exact ((echoes_enumeration comment taken _).map.bind hcomplete hremembers) s hs
  split
  · exact (shadows_unexpected _ : Shadows .token .token _ _).bind_echoes fun _ => hdispatch
  · exact hdispatch

section Checks

variable {checks : List Check} (hc : ∀ check ∈ checks, check.Blind)

include hc

theorem State.visit_bare (s : State) (x : Subject) :
    s.bare.toSession.visit checks x false =
      ((s.toSession.visit checks x false).1, (s.toSession.visit checks x false).2.bare) :=
  s.toSession.visit_bare hc x false

theorem acceptNested_bare (id : StructureId) (nested : Option EnumerationId) (s : State) :
    acceptNested checks id nested s.bare =
      ((acceptNested checks id nested s).1, (acceptNested checks id nested s).2.bare) := by
  cases nested with
  | none => rfl
  | some e =>
    simp only [acceptNested, State.visit_bare hc s]
    split
    · refine Prod.ext rfl (State.modifyDocument_bare (s := { s with
        toSession := (s.toSession.visit checks (.declaration (.enum e)) false).2 }) fun d => ?_)
      exact d.bare_modifyStructure (fun x => x.bare_addMember _) id
    · rfl

theorem itemEchoes_structure (id : StructureId) : ItemEchoes (structureItem checks id) := by
  intro comment first s hs
  refine echoes_construct (echoes_member id comment first s hs) (alerts_member id comment first)
    (alerts_member id none first) (acceptNested_bare hc id) (fun nested t => ?_)
    fun t => (State.reads_recover t).messages
  cases nested with
  | none => exact List.prefix_rfl
  | some e =>
    have hvisit := (State.reads_visit t checks (.declaration (.enum e)) false).messages
    simp only [acceptNested]
    split
    · exact hvisit
    · exact hvisit

theorem echoes_structureDeclaration (comment : Option Comment) (modifiers : List Token) :
    Echoes .token (structureDeclaration checks comment modifiers)
      (structureDeclaration checks none modifiers) := by
  refine (shadows_structureHeader comment modifiers).bind_echoes fun id => ?_
  have hbody : Echoes .token (body "structure" (structureItem checks id))
      (body "structure" (structureItem checks id)) :=
    echoes_body checks (.struct id) (itemEchoes_structure hc id)
  refine hbody.bind (fun _ => ?_) fun _ s => ?_
  · refine (shadows_modify fun s _ => ⟨?_, State.shows_any _⟩).bind fun _ => shadows_pure id
    exact State.settle_bare fun session pending => session.settleScope_bare hc id pending
  · exact s.messages_settle checks _

theorem echoes_declaration (comment : Option Comment) :
    Echoes .token (declaration checks comment) (declaration checks none) := by
  refine (shadows_modifiers _).bind_echoes fun taken => echoes_get fun s hs => ?_
  rw [State.current_bare hs]
  split
  · exact (shadows_failHere _ _ : Shadows .token .any _ _).echoes s hs
  · rename_i form _
    have hfinish {α : Type} {p p' : Parser α} (node : α → Declaration)
        (hp : Echoes .token p p') :
        EchoesAt (do let x ← node <$> p; reportModifiers (leftOver taken form.groups); return x)
          (do let x ← node <$> p'; reportModifiers (leftOver taken form.groups); return x) s :=
      hp.map.bind (fun x => (shadows_reportModifiers _).bind fun _ => shadows_pure x)
        (fun x => (alerts_reportModifiers _).remembers.bind fun _ => remembers_pure x) s hs
    cases form with
    | struct => exact hfinish _ (echoes_structureDeclaration hc comment taken)
    | interface => exact hfinish _ (echoes_interface comment)
    | enum => exact hfinish _ (echoes_enumeration comment taken none)
    | specimen => exact hfinish _ (shadows_specimen comment taken).echoes
    | identifier => exact hfinish _ (shadows_identifier comment taken).echoes
    | factory => exact hfinish _ (echoes_factory comment taken)

theorem acceptDeclaration_bare (x : Declaration) (s : State) :
    s.bare.acceptDeclaration checks x =
      ((s.acceptDeclaration checks x).1, (s.acceptDeclaration checks x).2.bare) := by
  have hregister (s : State) : s.bare.register checks x = (s.register checks x).bare := by
    have hlist : s.bare.modifyDocument (·.register x) = (s.modifyDocument (·.register x)).bare :=
      State.modifyDocument_bare fun d => d.bare_register x
    unfold State.register
    simp only [hlist]
    split
    · exact State.settle_bare fun session pending => session.settleRegistered_bare hc _ pending
    · rfl
  simp only [State.acceptDeclaration, State.visit_bare hc s]
  split
  · exact Prod.ext rfl
      (hregister { s with toSession := (s.toSession.visit checks (.declaration x) false).2 })
  · rfl

/-- A declaration is taken in alike, as long as no error is reported. -/
theorem State.echoes_declare (comment : Option Comment) {s : State} (hs : s.Shows .token) :
    (s.declare checks comment).Echoes (s.bare.declare checks none) := by
  refine echoes_construct (echoes_declaration hc comment s hs) (alerts_declaration checks comment)
    (alerts_declaration checks none) (acceptDeclaration_bare hc) (fun x t => ?_)
    fun t => (State.reads_recoverOutside t).messages
  have hvisit := (State.reads_visit t checks (.declaration x) false).messages
  simp only [State.acceptDeclaration]
  split
  · exact hvisit.trans (State.messages_register checks _ x)
  · exact hvisit

end Checks

end Items

end Idl.Grammar
