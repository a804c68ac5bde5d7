import Idl.Proofs.Course.Echo
import Idl.Proofs.Course.Termination

/-!
Comments never change the meaning of a source. Two sources that differ in their comments are read
side by side; imported sources keep theirs. Either nothing but comments and the warnings of
comments differs at the end, or an error was reported both times.
-/

namespace Idl

/-- The outcome without comments and without the warnings of comments. -/
def Outcome.bare (o : Outcome) : Outcome :=
  { o with document := o.document.bare, messages := o.messages.filter (!·.isMisplaced) }

theorem Session.finish_bare {checks : List Check} (hc : ∀ check ∈ checks, check.Blind)
    (s : Session) (pending : List Binding) :
    s.bare.finish checks pending = (s.finish checks pending).bare := by
  simp only [finish, settleAll_bare _ hc, reportUnresolved_bare, hasError_bare, visit_bare _ hc]
  split <;> rfl

namespace Grammar

namespace State

/-- Two states that differ in comments only. -/
def Alike (s s' : State) : Prop :=
  s.bare = s'.bare

variable {s s' t t' u : State}

theorem Alike.session (h : s.Alike s') : s.toSession.bare = s'.toSession.bare :=
  congrArg State.toSession h

theorem Alike.sources (h : s.Alike s') : s.sources = s'.sources :=
  congrArg (·.sources) h

theorem Alike.source (h : s.Alike s') : s.source = s'.source :=
  congrArg (·.source) h

theorem Alike.pending (h : s.Alike s') : s.pending = s'.pending :=
  congrArg (·.pending) h

theorem Alike.current (h : s.Alike s') (hs : s.Shows .token) (hs' : s'.Shows .token) :
    s.current = s'.current := by
  rw [← current_bare hs, ← current_bare hs', h]

/-- Two states that come to be as the same one without comments. -/
theorem Echoes.agree (h : t.Echoes u) (h' : t'.Echoes u) :
    t.Alike t' ∨ t.Broken ∧ t'.Broken := by
  rcases h with rfl | ⟨ht, hu⟩
  · rcases h' with h' | ⟨ht', hu⟩
    · exact .inl h'
    · exact .inr ⟨broken_bare.1 hu, ht'⟩
  · rcases h' with rfl | ⟨ht', _⟩
    · exact .inr ⟨ht, broken_bare.1 hu⟩
    · exact .inr ⟨ht, ht'⟩

theorem addImport_bare (s : State) (i : Import) :
    s.bare.addImport i.bare = (s.addImport i).bare :=
  modifyDocument_bare fun d => d.bare_addImport i

theorem takeIn_bare (s : State) (i : Import) (id : SourceId) :
    s.bare.takeIn i.bare id = (s.takeIn i id).bare :=
  addImport_bare { s with sources := (s.sources.register id).2 }
    { i with resolved := some (s.sources.register id).1 }

theorem Alike.addImport (h : s.Alike s') {i i' : Import} (hi : i.bare = i'.bare) :
    (s.addImport i).Alike (s'.addImport i') := by
  rw [Alike, ← addImport_bare, h, hi, addImport_bare]

theorem Alike.takeIn (h : s.Alike s') {i i' : Import} (hi : i.bare = i'.bare) (id : SourceId) :
    (s.takeIn i id).Alike (s'.takeIn i' id) := by
  rw [Alike, ← takeIn_bare, h, hi, takeIn_bare]

theorem Alike.report (h : s.Alike s') {m : Message} (hm : m.isMisplaced = false) :
    (s.report m).Alike (s'.report m) := by
  rw [Alike, ← report_bare hm, h, report_bare hm]

theorem Alike.enter (h : s.Alike s') (id : SourceId) (text : String) :
    (s.enter id text).Alike (s'.enter id text) :=
  congrArg (fun session : Session =>
    ({ toSession := session, cursor := (s.enter id text).bare.cursor, source := some id } : State))
    h.session

theorem Alike.leave (h : s.Alike s') (ht : t.Alike t') : (s.leave t).Alike (s'.leave t') := by
  have hleave (s t : State) : (s.leave t).bare = s.bare.leave t.bare := rfl
  rw [Alike, hleave, hleave, h, ht]

theorem Alike.misplaced_shift (h : s.Alike s') (hs : s.Shows .token) (hs' : s'.Shows .token)
    (comment comment' : Option Comment) :
    (s.misplaced comment).shift.Alike (s'.misplaced comment').shift := by
  have hshift {s : State} (hs : s.Shows .token) (comment : Option Comment) :
      (s.misplaced comment).shift.bare = s.bare.shift := by
    have hfront : (s.misplaced comment).Shows .token := hs.of_rest (by cases comment <;> rfl)
    rw [← shift_bare hfront, misplaced_bare]
  rw [Alike, hshift hs, hshift hs', h]

theorem echoes_readPackage (hs : s.Shows .token) : s.readPackage.Echoes s.bare.readPackage := by
  have hlapse {s t : State} {e : Reported} (hp : package s = .error e t) :
      t.recoverOutside.Broken :=
    State.Broken.mono (After.of_error (brief_package.alerts s) hp).broken
      (reads_recoverOutside t).messages
  have hrun := shadows_package s hs
  unfold readPackage
  cases hp : package s with
  | ok a t =>
    obtain ⟨hp', _⟩ := After.of_ok hrun hp
    rw [hp']
    exact .inl rfl
  | error e t =>
    obtain ⟨e', t', hp'⟩ := After.of_error hrun hp
    rw [hp']
    exact .inr ⟨hlapse hp, hlapse hp'⟩

theorem broken_report (s : State) {m : Message} (h : m.severity = .error) :
    (s.report m).Broken := by
  have hm : (m.severity == .error) = true := beq_iff_eq.2 h
  change Message.hasError (s.messages ++ [m]) = true
  rw [Message.hasError_append, hasError_singleton h, Bool.or_true]

theorem broken_skipGarbage (s : State) (first : Token) : (s.skipGarbage first).Broken :=
  s.broken_report (m := .of .unexpectedToken (s.locationOf first) [(.token, first.text)]) rfl

/-- What is neither an import nor a package is read alike, as long as no error is reported. -/
theorem Alike.readStatement {checks : List Check} (hc : ∀ check ∈ checks, check.Blind)
    (h : s.Alike s') (hs : s.Shows .token) (hs' : s'.Shows .token)
    (comment comment' : Option Comment) (first : Token) :
    (s.readStatement checks comment first).Alike (s'.readStatement checks comment' first) ∨
      (s.readStatement checks comment first).Broken ∧
        (s'.readStatement checks comment' first).Broken := by
  unfold State.readStatement
  split
  · exact .inl (h.misplaced_shift hs hs' comment comment')
  · split
    · have hdeclare := echoes_declare hc comment' hs'
      rw [← h] at hdeclare
      exact (echoes_declare hc comment hs).agree hdeclare
    · exact .inr ⟨broken_skipGarbage _ first, broken_skipGarbage _ first⟩

end State

section Agreement

variable {α β : Type} {p p' : SourceReader α} {f f' : α → SourceReader β} {s s' t t' : State}

/-- From two states two readers come to states that differ in comments only, or report an error
both times. -/
inductive AgreesAt (p p' : SourceReader α) (s s' : State) : Prop where
  | ok {a : α} {t t' : State} (h : p s = .ok a t) (h' : p' s' = .ok a t') (ht : t.Alike t')
  | stopped {e : Stopped} {t t' : State} (h : p s = .error e t) (h' : p' s' = .error e t')
      (ht : t.Alike t')
  | broken (h : Lapses p s) (h' : Lapses p' s')

/-- A reader that agrees with itself wherever two states differ in comments only. -/
def Agrees (p : SourceReader α) : Prop :=
  ∀ s s', s.Alike s' → AgreesAt p p s s'

/-- What two readers come to is what those come to that go on in their place. -/
theorem AgreesAt.of_eq {q q' : SourceReader α} (h : AgreesAt q q' t t') (hp : p s = q t)
    (hp' : p' s' = q' t') : AgreesAt p p' s s' := by
  cases h with
  | ok hq hq' hu => exact .ok (hp.trans hq) (hp'.trans hq') hu
  | stopped hq hq' hu => exact .stopped (hp.trans hq) (hp'.trans hq') hu
  | broken hq hq' => exact .broken (hq.of_eq hp) (hq'.of_eq hp')

theorem AgreesAt.bind (hp : AgreesAt p p' s s')
    (hf : ∀ a t t', t.Alike t' → AgreesAt (f a) (f' a) t t') (hr : ∀ a, Remembers (f a))
    (hr' : ∀ a, Remembers (f' a)) : AgreesAt (p >>= f) (p' >>= f') s s' := by
  cases hp with
  | @ok a t t' h h' ht =>
    exact (hf a t t' ht).of_eq (run_bind_of_ok h f) (run_bind_of_ok h' f')
  | stopped h h' ht => exact .stopped (run_bind_of_error h f) (run_bind_of_error h' f') ht
  | broken h h' => exact .broken (h.bind hr) (h'.bind hr')

theorem agreesAt_pure (a : α) (h : s.Alike s') :
    AgreesAt (pure a : SourceReader α) (pure a) s s' :=
  .ok rfl rfl h

theorem agreesAt_modify {g g' : State → State}
    (h : (g s).Alike (g' s') ∨ (g s).Broken ∧ (g' s').Broken) :
    AgreesAt (modify g) (modify g') s s' := by
  rcases h with h | ⟨h, h'⟩
  · exact .ok rfl rfl h
  · exact .broken h h'

theorem agreesAt_stop {m m' : Message} (hm : m.severity = .error) (hm' : m'.severity = .error) :
    AgreesAt (stop m) (stop m') s s' :=
  .broken (s.broken_report hm) (s'.broken_report hm')

theorem agrees_iterate {round : α → SourceReader (Round α β)} (h : ∀ a, Agrees (round a))
    (ha : Progresses round) (hr : ∀ a, Remembers (round a)) (a : α) : Agrees (iterate round a) := by
  intro s s' hs
  induction hn : s.remaining using Nat.strongRecOn generalizing a s s' with
  | ind n ih =>
    cases h a s s' hs with
    | stopped hrun hrun' ht =>
      exact .stopped (iterate_of_error hrun) (iterate_of_error hrun') ht
    | broken hrun hrun' => exact .broken (hrun.iterate hr) (hrun'.iterate hr)
    | @ok r t t' hrun hrun' ht =>
      cases r with
      | done b => exact .ok (iterate_of_done hrun) (iterate_of_done hrun') ht
      | again a' =>
        have hlt : t.remaining < s.remaining := (After.of_ok (ha a s) hrun).2 a' rfl
        have hlt' : t'.remaining < s'.remaining := (After.of_ok (ha a s') hrun').2 a' rfl
        exact (ih t.remaining (hn ▸ hlt) a' t t' ht rfl).of_eq (iterate_of_again hrun hlt)
          (iterate_of_again hrun' hlt')

end Agreement

section Sources

variable {settings : Settings} (hc : ∀ check ∈ settings.checks, check.Blind)
  {read : SourceReader Unit} (hread : Agrees read) (hr : Remembers read) {s s' : State}

include hread

theorem agreesAt_within (id : SourceId) (text : String) (h : s.Alike s') :
    AgreesAt (within id text read) (within id text read) s s' := by
  cases hread _ _ (h.enter id text) with
  | ok hrun hrun' ht =>
    refine .ok (a := ()) ?_ ?_ (h.leave ht)
    · simp only [within, hrun]
    · simp only [within, hrun']
  | @stopped e _ _ hrun hrun' ht =>
    refine .stopped (e := e) ?_ ?_ (h.leave ht)
    · simp only [within, hrun]
    · simp only [within, hrun']
  | broken hrun hrun' =>
    have hwithin {s : State} (h : Lapses read (s.enter id text)) :
        Lapses (within id text read) s := by
      unfold Lapses After within
      cases hrun : read (s.enter id text) with
      | ok a inner =>
        have hbroken : inner.Broken := After.of_ok h hrun
        exact hbroken
      | error e inner =>
        have hbroken : inner.Broken := After.of_error h hrun
        exact hbroken
    exact .broken (hwithin hrun) (hwithin hrun')

include hc hr

theorem agreesAt_follow {i i' : Import} (hi : i.bare = i'.bare) (h : s.Alike s') :
    AgreesAt (follow settings read i) (follow settings read i') s s' := by
  have hsource : i.bare.source = i'.bare.source := congrArg Import.source hi
  have hlocation : i.bare.location = i'.bare.location := congrArg Import.location hi
  have hadd {s s' : State} (h : s.Alike s') :
      AgreesAt (modify (·.addImport i)) (modify (·.addImport i')) s s' :=
    agreesAt_modify (.inl (h.addImport hi))
  refine AgreesAt.of_eq ?_ (run_bind_get _) (run_bind_get _)
  rw [← h.sources, ← h.source, show i'.source = i.source from hsource.symm,
    show i'.location = i.location from hlocation.symm]
  split
  · exact agreesAt_modify (.inl ((h.report rfl).addImport hi))
  · exact (hadd h).bind (fun _ _ _ _ => agreesAt_stop rfl rfl) (fun _ => remembers_stop _)
      fun _ => remembers_stop _
  · exact agreesAt_modify (.inl (h.addImport rfl))
  · exact agreesAt_stop rfl rfl
  · exact (hadd h).bind (fun _ _ _ _ => agreesAt_stop rfl rfl) (fun _ => remembers_stop _)
      fun _ => remembers_stop _
  · rename_i id text _
    have hrescan : Remembers (modify (State.rescan settings.checks) : SourceReader PUnit) :=
      remembers_modify fun s => s.messages_settle settings.checks s.pending
    have hwithin (source : SourceId) : Remembers (do
        within source text read; modify (State.rescan settings.checks) : SourceReader PUnit) :=
      (remembers_within hr source text).bind fun _ => hrescan
    refine (agreesAt_modify (.inl (h.takeIn hi id))).bind (fun _ t t' ht => ?_)
      (fun _ => hwithin _) fun _ => hwithin _
    refine (agreesAt_within hread _ text ht).bind (fun _ u u' hu => agreesAt_modify (.inl ?_))
      (fun _ => hrescan) fun _ => hrescan
    have hbare (s : State) : s.bare.rescan settings.checks = (s.rescan settings.checks).bare :=
      State.settle_bare fun session pending => session.settleAll_bare hc false pending
    rw [State.Alike, ← hbare, hu, hbare]

/-- An import is broken both times, or what is read differs in the comment only. -/
theorem agreesAt_importRound (h : s.Alike s') (hs : s.Shows .token) (hs' : s'.Shows .token)
    (comment comment' : Option Comment) :
    AgreesAt (importRound settings read comment) (importRound settings read comment') s s' := by
  have hok {s t : State} {i : Import} (hrun : importStatement none s = .ok i t)
      (comment : Option Comment) :
      importRound settings read comment s = follow settings read { i with comment } t := by
    simp only [importRound, importStatement_eq comment, Functor.map, EStateM.map, hrun]
  have herror {s t : State} {e : Reported} (hrun : importStatement none s = .error e t)
      (comment : Option Comment) : Lapses (importRound settings read comment) s := by
    have hbroken : t.recoverOutside.Broken := State.Broken.mono
      (After.of_error ((brief_importStatement none).alerts s) hrun).broken
      (State.reads_recoverOutside t).messages
    unfold Lapses After
    simp only [importRound, importStatement_eq comment, Functor.map, EStateM.map, hrun]
    exact hbroken
  have hshadow := shadows_importStatement s hs
  have hshadow' := shadows_importStatement s' hs'
  unfold ShadowsAt at hshadow hshadow'
  rw [h] at hshadow
  cases hrun : importStatement none s with
  | ok i t =>
    obtain ⟨hbare, _⟩ := After.of_ok hshadow hrun
    cases hrun' : importStatement none s' with
    | ok i' t' =>
      obtain ⟨hbare', _⟩ := After.of_ok hshadow' hrun'
      rw [hbare] at hbare'
      obtain ⟨rfl, ht⟩ := EStateM.Result.ok.inj hbare'
      have hcomment : ({ i with comment } : Import).bare =
          ({ i with comment := comment' } : Import).bare := rfl
      exact (agreesAt_follow hc hread hr hcomment ht).of_eq (hok hrun comment)
        (hok hrun' comment')
    | error e' t' =>
      obtain ⟨_, _, hbare'⟩ := After.of_error hshadow' hrun'
      rw [hbare] at hbare'
      cases hbare'
  | error e t =>
    obtain ⟨_, _, hbare⟩ := After.of_error hshadow hrun
    cases hrun' : importStatement none s' with
    | ok i' t' =>
      obtain ⟨hbare', _⟩ := After.of_ok hshadow' hrun'
      rw [hbare] at hbare'
      cases hbare'
    | error e' t' => exact .broken (herror hrun comment) (herror hrun' comment')

theorem agrees_statementRound (atHead : Bool) : Agrees (statementRound settings read atHead) := by
  intro s s' h
  have hs := s.shows_skipComments
  have hs' := s'.shows_skipComments
  have ht : s.skipComments.Alike s'.skipComments := by
    rw [State.Alike, State.bare_skipComments, h, State.bare_skipComments]
  refine AgreesAt.of_eq ?_ (run_bind_modifyGet _ _) (run_bind_modifyGet _ _)
  refine AgreesAt.of_eq ?_ (run_bind_get _) (run_bind_get _)
  have hcurrent : (s'.leadingComment).2.current = (s.leadingComment).2.current :=
    (ht.current hs hs').symm
  rw [hcurrent]
  have hpure (r : Round Bool Unit) (t t' : State) (h : t.Alike t') :
      AgreesAt (pure r : SourceReader _) (pure r) t t' := agreesAt_pure r h
  split
  · refine (agreesAt_modify (.inl ?_)).bind (fun _ => hpure _) (fun _ => remembers_pure _)
      fun _ => remembers_pure _
    change State.bare _ = State.bare _
    rw [State.misplaced_bare, State.misplaced_bare]
    exact ht
  · rename_i first _
    split
    · exact (agreesAt_importRound hc hread hr ht hs hs' _ _).bind (fun _ => hpure _)
        (fun _ => remembers_pure _) fun _ => remembers_pure _
    · split
      · have hpackage := State.echoes_readPackage hs'
        rw [← ht] at hpackage
        exact (agreesAt_modify ((State.echoes_readPackage hs).agree hpackage)).bind
          (fun _ => hpure _) (fun _ => remembers_pure _) fun _ => remembers_pure _
      · exact (agreesAt_modify (ht.readStatement hc hs hs' _ _ first)).bind
          (fun _ => hpure _) (fun _ => remembers_pure _) fun _ => remembers_pure _

omit hread hr in
theorem agrees_source (levels : Nat) : Agrees (source settings levels) := by
  induction levels with
  | zero => exact fun s s' h => .stopped rfl rfl h
  | succ levels ih =>
    exact agrees_iterate (agrees_statementRound hc ih (remembers_source settings levels))
      (progresses_statementRound settings _)
      (remembers_statementRound settings (remembers_source settings levels)) true

end Sources

/-- A source and the same without its comments. -/
theorem State.alike_root (source : Option SourceId) (tokens : List Token) :
    (State.root source tokens).Alike (.root source (tokens.filter (!·.isComment))) := by
  have hrest : (State.root source tokens).bare.cursor =
      (State.root source (tokens.filter (!·.isComment))).bare.cursor := by
    simp only [bare, root, Cursor.rest_ofTokens, List.filter_filter, Bool.and_self]
  exact congrArg (fun cursor => { (State.root source tokens).bare with cursor }) hrest

end Grammar

/-- An error that was reported while the sources were read is one of the outcome. -/
theorem hasError_of_lapses {settings : Settings} {root : Option SourceId} {tokens : List Token}
    (h : Grammar.Lapses (Grammar.source settings settings.levels) (.root root tokens)) :
    Message.hasError (settings.readTokens root tokens).messages = true := by
  have hrun : Grammar.After (Grammar.source settings settings.levels) (.root root tokens)
    (fun _ t => t.Broken) Grammar.State.Broken := h
  unfold Settings.readTokens
  split
  · rename_i s hs
    obtain ⟨more, hmore, _⟩ := s.toSession.messages_finish settings.checks s.pending
    obtain ⟨late, hlate⟩ :=
      (Session.follows_settleAll settings.checks s.toSession true s.pending).messages
    have hsettled : (s.toSession.settled settings.checks s.pending).messages =
        s.messages ++ late := hlate.symm
    have hbroken : Message.hasError s.messages = true := hrun.of_ok hs
    simp only [hmore, hsettled, Message.hasError_append, hbroken, Bool.true_or]
  · rename_i s hs
    exact hrun.of_error hs

/-- Comments never change the meaning of a source: without them an error is reported as often as
with them, and otherwise the outcome is the same but for comments. -/
theorem comments_change_nothing {settings : Settings}
    (hc : ∀ check ∈ settings.checks, check.Blind) (root : Option SourceId)
    (tokens : List Token) :
    let given := settings.readTokens root tokens
    let without := settings.readTokens root (tokens.filter (!·.isComment))
    Message.hasError given.messages = Message.hasError without.messages ∧
      (Message.hasError given.messages = false → given.bare = without.bare) := by
  intro given without
  have hsame (h : given.bare = without.bare) :
      Message.hasError given.messages = Message.hasError without.messages ∧
        (Message.hasError given.messages = false → given.bare = without.bare) := by
    refine ⟨?_, fun _ => h⟩
    rw [← Message.hasError_filter given.messages, ← Message.hasError_filter without.messages]
    exact congrArg (fun o : Outcome => Message.hasError o.messages) h
  have hagree := Grammar.agrees_source hc settings.levels _ _
    (Grammar.State.alike_root root tokens)
  cases hagree with
  | ok h h' ht =>
    apply hsame
    simp only [given, without, Settings.readTokens, h, h', ← Session.finish_bare hc, ht.session,
      ht.pending]
  | stopped h h' ht =>
    apply hsame
    simp only [given, without, Settings.readTokens, h, h']
    exact congrArg (Outcome.ofSession · false) ht.session
  | broken h h' =>
    have herror : Message.hasError given.messages = true := hasError_of_lapses h
    have herror' : Message.hasError without.messages = true := hasError_of_lapses h'
    refine ⟨herror.trans herror'.symm, fun hok => ?_⟩
    rw [herror] at hok
    cases hok

/-- The first comment belongs to the enumeration, the second one to nothing. -/
theorem comments_change_nothing_enumeration :
    let tokens := Token.tokenize "// a\nenum E \x7b a; // b\n\x7d"
    let given := ({} : Settings).readTokens none tokens
    let without := ({} : Settings).readTokens none (tokens.filter (!·.isComment))
    given.messages.map (·.kind) = [.misplacedComment] ∧ without.messages = [] ∧
      given.bare = without.bare := by
  intro tokens given without
  have hok : Message.hasError given.messages = false := by decide +kernel
  refine ⟨by decide +kernel, by decide +kernel, ?_⟩
  exact (@comments_change_nothing {} Check.blind_standard none tokens).2 hok

end Idl
