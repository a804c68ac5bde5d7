import Idl.Proofs.Course.Move
import Idl.Proofs.Grammar.Report

/-!
Success. The messages of a session tell whether it has succeeded, and only an import that fails
ends it before the root has ended. Such an import stands at the head of a source, and so does
the import that led to this source, up to the root: none of these sources has declared anything
yet.
-/

namespace Idl

theorem Message.hasError_eq_false_iff {messages : List Message} :
    hasError messages = false ↔ ∀ m ∈ messages, m.severity ≠ .error := by
  simp [hasError]

namespace Check

/-- A check that fails exactly when it reports an error, and says nothing about imports. -/
structure Decides (check : Check) : Prop where
  failed_iff : ∀ d subject, (check.run d subject).passed = false ↔
    Message.hasError (check.run d subject).messages = true
  speaks : check.Speaks fun m => m.kind.isImportFailure = false

theorem failed_runAll_iff {checks : List Check} (hc : ∀ check ∈ checks, check.Decides)
    (d : Document) (subject : Subject) : (runAll checks d subject).passed = false ↔
      Message.hasError (runAll checks d subject).messages = true := by
  refine ⟨hasError_runAll fun check h d subject => ((hc check h).failed_iff d subject).1, ?_⟩
  contrapose!
  simp only [ne_eq, Bool.not_eq_false, Bool.not_eq_true, runAll_passed_iff]
  intro hpassed
  refine List.any_eq_false.2 (forall_runAll fun check h m hm => ?_)
  have hclean : Message.hasError (check.run d subject).messages = false := by
    rw [← Bool.not_eq_true, ← (hc check h).failed_iff, hpassed check h]
    exact Bool.true_eq_false_eq_False
  exact List.any_eq_false.1 hclean m hm

section Standard

variable {d : Document}

theorem ordinary_of_mem_memberFaults {s : Structure} {before : List Member} {member : Member}
    {m : Message} (h : m ∈ memberFaults d s before member) : m.Ordinary := by
  cases member with
  | field f =>
    simp only [memberFaults] at h
    split at h
    · cases List.mem_singleton.1 h
      exact ⟨rfl, rfl⟩
    · split at h
      · cases List.mem_singleton.1 h
        exact ⟨rfl, rfl⟩
      · cases h
  | override | identification | operator =>
    simp only [memberFaults] at h
    split at h
    · cases List.mem_singleton.1 h
      exact ⟨rfl, rfl⟩
    · cases h
  | alter | enumeration | upcopy => cases h

theorem ordinary_of_mem_sharableFaults {s : Structure} {m : Message}
    (h : m ∈ sharableFaults d s) : m.Ordinary := by
  unfold sharableFaults at h
  split at h
  · obtain ⟨⟨_, f⟩, _, hf⟩ := List.mem_filterMap.1 h
    simp only at hf
    split at hf
    · split at hf <;> cases hf
      exact ⟨rfl, rfl⟩
    · cases hf
  · split at h
    · split at h
      · cases List.mem_singleton.1 h
        exact ⟨rfl, rfl⟩
      · cases h
    · cases h

theorem ordinary_of_mem_valueFaults {e : Enumeration} {before : List EnumerationValue}
    {v : EnumerationValue} {m : Message} (h : m ∈ valueFaults e before v) : m.Ordinary := by
  rcases List.mem_append.1 h with h | h
  all_goals
    split at h
    · cases List.mem_singleton.1 h
      exact ⟨rfl, rfl⟩
    · cases h

theorem speaks_parameterType (target : Target) (allowed : List Builtin) :
    (parameterType target allowed).Speaks Message.Ordinary := by
  intro d subject m hm
  simp only [parameterType] at hm
  split at hm
  · split at hm
    · cases hm
    · cases List.mem_singleton.1 hm
      exact ⟨rfl, rfl⟩
  · cases hm

theorem speaks_standard : ∀ check ∈ standard, check.Speaks Message.Ordinary := by
  intro check hcheck
  simp only [standard, List.mem_cons, List.not_mem_nil, or_false] at hcheck
  rcases hcheck with rfl | rfl | rfl | rfl | rfl | rfl
  · exact speaks_parameterType _ _
  · exact speaks_parameterType _ _
  · intro d subject m hm
    simp only [structureFields] at hm
    split at hm
    · obtain ⟨_, _, hm⟩ := List.mem_flatMap.1 hm
      exact ordinary_of_mem_memberFaults hm
    · cases hm
  · intro d subject m hm
    simp only [structureSharable] at hm
    split at hm
    · exact ordinary_of_mem_sharableFaults hm
    · cases hm
  · intro d subject m hm
    simp only [enumerationValues] at hm
    split at hm
    · split at hm
      · obtain ⟨_, _, hm⟩ := List.mem_flatMap.1 hm
        exact ordinary_of_mem_valueFaults hm
      · cases hm
    · cases hm
  · intro d subject m hm
    simp only [duplicateDeclaration] at hm
    split at hm
    · obtain ⟨_, _, hm⟩ := List.mem_filterMap.1 hm
      split at hm
      · obtain ⟨name, _, rfl⟩ := Option.map_eq_some_iff.1 hm
        exact ⟨rfl, rfl⟩
      · cases hm
    · cases hm

theorem decides_standard : ∀ check ∈ standard, check.Decides := by
  intro check hcheck
  refine ⟨fun d subject => ?_, fun d subject m hm =>
    (speaks_standard check hcheck d subject m hm).kind⟩
  rw [passed_eq_of_standard hcheck, Bool.not_eq_false']

end Standard

end Check

namespace Session

variable {checks : List Check} (s : Session) (pending : List Binding)

/-- The outcome of a root that has ended is judged by its messages. -/
theorem ok_finish_iff (hc : ∀ check ∈ checks, check.Decides) :
    (s.finish checks pending).ok = true ↔
      Message.hasError (s.finish checks pending).messages = false := by
  rw [finish_eq]
  split
  · rename_i herror
    simp [Outcome.ofSession, herror]
  · rename_i hclean
    rw [Bool.not_eq_true] at hclean
    have hdecides := Check.failed_runAll_iff hc (s.reported checks pending).document .document
    simp only [Outcome.ofSession, visit_eq, Check.called, Bool.false_eq_true, if_false,
      Message.hasError_append, hclean, Bool.false_or]
    rw [← Bool.not_eq_false, hdecides, Bool.not_eq_true]

theorem forall_messages_finish {P : Message → Prop} (hP : ∀ m : Message, m.Ordinary → P m)
    (hc : ∀ check ∈ checks, check.Speaks P) (hs : ∀ m ∈ s.messages, P m) :
    ∀ m ∈ (s.finish checks pending).messages, P m := by
  have hsettle : s.Tells P (s.settled checks pending) := tells_settle hc hP _ _
  have hreported : s.Tells P (s.reported checks pending) := hsettle.reportUnresolved hP _
  rw [finish_eq]
  split
  · exact hreported.forall hs
  · exact (tells_visit hc (s.reported checks pending) .document false).forall
      (hreported.forall hs)

end Session

namespace Outcome

/-- The session has ended with the message of an import that failed while these sources were
read. None of them has registered a declaration. -/
structure BreaksOff (o : Outcome) (stack : List (Option SourceId)) : Prop where
  ok : o.ok = false
  messages : ∃ front failure, o.messages = front ++ [failure] ∧
    failure.kind.isImportFailure = true ∧ ∀ m ∈ front, m.kind.isImportFailure = false
  declarations : ∀ x ∈ o.document.declarations, ∃ h, o.document.heading? x = some h ∧
    h.location.source ∉ stack

theorem breaksOff_unreadable (root : SourceId) : (unreadable root).BreaksOff [some root] :=
  ⟨rfl, ⟨[], _, rfl, rfl, fun _ h => absurd h List.not_mem_nil⟩,
    fun _ h => absurd h List.not_mem_nil⟩

theorem ok_unreadable_iff (root : SourceId) :
    (unreadable root).ok = true ↔ ∀ m ∈ (unreadable root).messages, m.severity ≠ .error := by
  simp [unreadable, Message.of, Message.Kind.severity]

end Outcome

namespace Grammar

namespace State

variable {P : Message → Prop} (hP : ∀ m : Message, m.Ordinary → P m) {settings : Settings}
  {s s' : State}

theorem Imports.silent {i : Import} (h : s.Imports i s') : s.Says [] s' := by
  have himport := (brief_importStatement s.comment? s.skipComments).of_ok h.read
  exact (says_skipComments s).trans himport

theorem says_addImport (s : State) (i : Import) : s.Says [] (s.addImport i) :=
  says_modifyDocument (.of_eq fun x => by cases x <;> rfl)

include hP

theorem tells_ended (s : State) : s.Tells P s.ended :=
  (says_skipComments s).tells.trans (tells_misplaced hP _ _)

theorem Passes.tells {atHead next : Bool} (h : Passes settings atHead s next s') :
    s.Tells P s' := by
  have hskip : s.Tells P s.skipComments := (says_skipComments s).tells
  cases h with
  | @unknowable i s₁ ha h ht =>
    have hreport (s : State) :
        s.Tells P (s.report (.of .importWithoutSourceProvider i.location)) :=
      tells_report (hP _ ⟨rfl, rfl⟩)
    exact (h.silent.tells.trans (hreport _)).trans (says_addImport _ i).tells
  | known ha h ht => exact (h.silent.trans (says_addImport _ _)).tells
  | @brokenImport t e s₁ ha hc ht hi =>
    have himport := ((brief_importStatement s.comment?).speaks hP s.skipComments).of_error hi
    exact (hskip.trans himport).trans (tells_recoverOutside s₁)
  | package ha hc ht =>
    refine hskip.trans ?_
    unfold readPackage
    have hpackage := brief_package.speaks hP s.skipComments
    cases hp : Grammar.package s.skipComments with
    | ok a s₁ => exact hpackage.of_ok hp
    | error e s₁ => exact (hpackage.of_error hp).trans (tells_recoverOutside s₁)
  | @stray t hc hk =>
    have hword : (t.kind == .identifier) = false := by simpa using hk
    have hmisplaced := hskip.trans (tells_misplaced hP s.skipComments s.comment?)
    simp only [readStatement, hword, Bool.false_eq_true, if_false]
    split
    · exact hmisplaced.trans (says_shift _).tells
    · refine (hmisplaced.trans (tells_report (hP _ ⟨rfl, rfl⟩))).trans (says_of_rest ?_).tells
      exact (List.dropWhile_suffix _).trans (List.tail_suffix _)

omit hP in
theorem Halts.messages (h : s.Halts settings s') : ∃ failure : Message,
    s'.messages = s.messages ++ [failure] ∧ failure.kind.isImportFailure = true ∧
      failure.severity = .error := by
  cases h with
  | missing h ht | tooDeep h ht | closed h ht =>
    refine ⟨_, congrArg (· ++ [_]) ?_, rfl, rfl⟩
    exact h.silent.messages.trans (List.append_nil _)

end State

namespace Moment

variable {settings : Settings} {root : Option SourceId} {tokens : List Token} {m m' : Moment}

/-- The sources that are being read, the innermost first. -/
def stack (m : Moment) : List (Option SourceId) :=
  m.state.source :: m.importers.map Reading.source

/-- The sources that are being read are different and known. What was declared was declared in
other known sources, or in the innermost one behind its head. -/
structure Fresh (m : Moment) : Prop where
  nodup : m.stack.Nodup
  known : ∀ id, some id ∈ m.stack → id ∈ m.state.sources.sources
  origin : ∀ x h, m.document.heading? x = some h →
    (∀ id, h.location.source = some id → id ∈ m.state.sources.sources) ∧
      (h.location.source ∈ m.stack → m.atHead = false ∧ h.location.source = m.state.source)

theorem fresh_start (settings : Settings) (root : Option SourceId) (tokens : List Token) :
    (start settings root tokens).Fresh := by
  refine ⟨List.nodup_singleton _, fun id hid => ?_, fun x h hx => ?_⟩
  · cases List.mem_singleton.1 hid
    exact List.mem_singleton_self id
  · cases root <;> cases x <;> cases hx

/-- The reading goes on in the same source. -/
theorem Fresh.on {levels : Nat} {importers : List Reading} {atHead next : Bool} {s s' : State}
    (h : Fresh ⟨levels, importers, atHead, s⟩) (hsource : s'.source = s.source)
    (hsources : s'.sources = s.sources) (hheadings : s.document.HeadedIn s.source s'.document)
    (hnext : next = true → atHead = true ∧ ∀ x, s'.document.heading? x = s.document.heading? x) :
    Fresh ⟨levels, importers, next, s'⟩ := by
  have hstack : (⟨levels, importers, next, s'⟩ : Moment).stack =
      (⟨levels, importers, atHead, s⟩ : Moment).stack := by
    simp only [stack, hsource]
  refine ⟨hstack ▸ h.nodup, fun id hid => ?_, fun x heading hx => ?_⟩
  · exact hsources ▸ h.known id (hstack ▸ hid)
  · have horigin : (∀ id, heading.location.source = some id → id ∈ s.sources.sources) ∧
        (heading.location.source ∈ (⟨levels, importers, atHead, s⟩ : Moment).stack →
          heading.location.source = s.source) := by
      rcases hheadings x heading hx with hx | hx
      · exact ⟨(h.origin x heading hx).1, fun hmem => ((h.origin x heading hx).2 hmem).2⟩
      · exact ⟨fun id hid => h.known id (hid ▸ hx ▸ List.mem_cons_self), fun _ => hx⟩
    refine ⟨hsources.symm ▸ horigin.1, fun hmem => ?_⟩
    rw [hstack] at hmem
    refine ⟨?_, (horigin.2 hmem).trans hsource.symm⟩
    rw [Bool.eq_false_iff]
    intro htrue
    obtain ⟨ha, heq⟩ := hnext htrue
    have hold := ((h.origin x heading ((heq x).symm.trans hx)).2 hmem).1
    exact Bool.false_ne_true (hold.symm.trans ha)

/-- An import leads to a source that was not known before. -/
theorem Fresh.into {levels : Nat} {importers : List Reading} {s s' : State} {i : Import}
    {id : SourceId} {text : String} (hf : Fresh ⟨levels + 1, importers, true, s⟩)
    (h : s.Imports i s') (hfresh : s'.target settings i = .fresh id text) :
    Fresh ⟨levels, s'.toReading :: importers, true,
      (s'.takeIn i id).enter (s'.sources.register id).1 text⟩ := by
  have hr := h.reads
  obtain ⟨hid, hregister⟩ := h.register_eq hfresh
  have hstack : some id ∉ s.source :: importers.map Reading.source :=
    fun hmem => hid (hf.known id hmem)
  refine ⟨?_, fun known hknown => ?_, fun x heading hx => ?_⟩
  · simp only [stack, State.enter, hregister, List.map_cons, hr.source]
    exact List.nodup_cons.2 ⟨hstack, hf.nodup⟩
  · simp only [stack, State.enter, hregister, List.map_cons, hr.source] at hknown
    simp only [State.enter, State.takeIn, State.addImport, State.modifyDocument,
      Session.modifyDocument, hregister]
    rcases List.mem_cons.1 hknown with heq | hmem
    · cases heq
      exact List.mem_append_right _ (List.mem_singleton_self id)
    · exact List.mem_append_left _ (hf.known known hmem)
  · have hx' : s.document.heading? x = some heading := by
      rw [← hx, ← hr.document]
      cases x <;> rfl
    obtain ⟨hknown, horigin⟩ := hf.origin x heading hx'
    simp only [stack, State.enter, State.takeIn, State.addImport, State.modifyDocument,
      Session.modifyDocument, hregister, List.map_cons, hr.source]
    refine ⟨fun known h => List.mem_append_left _ (hknown known h), fun hmem => ?_⟩
    rcases List.mem_cons.1 hmem with heq | hmem
    · exact absurd (hknown id heq) hid
    · cases (horigin hmem).1

/-- The importer has come no further than its head. -/
theorem Fresh.out {levels : Nat} {importer : Reading} {importers : List Reading} {atHead : Bool}
    {s : State} (hf : Fresh ⟨levels, importer :: importers, atHead, s⟩) :
    Fresh ⟨levels + 1, importers, true, .resume settings.checks importer s.ended⟩ := by
  let back := State.leave ⟨s.ended.toSession, importer⟩ s.ended
  have hsettle : back.toSession.Tells (fun _ => True)
      (back.toSession.settleAll settings.checks false back.pending).1 :=
    Session.tells_settle (Check.forall_speaks settings.checks) (fun _ _ => trivial) _ _
  have hended := s.reads_ended
  have hsources : (back.toSession.settleAll settings.checks false back.pending).1.sources =
      s.sources := sources_resume _ _ _
  obtain ⟨hhead, htail⟩ := List.nodup_cons.1 hf.nodup
  refine ⟨htail, fun id hid => ?_, fun x heading hx => ?_⟩
  · change id ∈ (back.toSession.settleAll settings.checks false back.pending).1.sources.sources
    rw [hsources]
    exact hf.known id (List.mem_cons_of_mem _ hid)
  · have hx' : s.document.heading? x = some heading := by
      rw [← hx, ← hended.document]
      exact (hsettle.headings x).symm
    obtain ⟨hknown, horigin⟩ := hf.origin x heading hx'
    refine ⟨fun id hid => ?_, fun hmem => ?_⟩
    · change id ∈ (back.toSession.settleAll settings.checks false back.pending).1.sources.sources
      rw [hsources]
      exact hknown id hid
    · have heq := (horigin (List.mem_cons_of_mem _ hmem)).2
      exact absurd (heq ▸ hmem) hhead

theorem Move.fresh (h : Move settings m m') (hs : m.situation.Sound) (hf : m.Fresh) :
    m'.Fresh := by
  cases h with
  | @declare levels importers atHead s s₁ comment h =>
    have honward := State.onward_declare settings.checks (h.sound hs) comment
    obtain ⟨_, _, htells⟩ : s₁.Tells (fun _ => True) (s₁.declare settings.checks comment) :=
      tells_declare (fun _ _ => trivial) (Check.forall_speaks _) comment s₁
    cases h.state
    exact hf.on htells.source honward.sources htells.headings nofun
  | @pass levels importers atHead next s s' h =>
    have hn := h.notes
    have hheading (x : Declaration) : s'.document.heading? x = s.document.heading? x := by
      rw [hn.document]
      exact (s.document.alike_note _ _).heading x
    refine hf.on hn.source hn.sources (.of_eq hheading) fun hnext => ⟨?_, hheading⟩
    cases h with
    | unknowable ha | known ha | brokenImport ha | package ha => exact ha
    | stray => cases hnext
  | into h hfresh => exact hf.into h hfresh
  | out h => exact hf.out

theorem Moves.fresh (h : Moves settings m m') (hs : m.situation.Sound) (hf : m.Fresh) :
    m'.Fresh := by
  induction h with
  | refl => exact hf
  | tail h hmove ih => exact hmove.fresh (Moves.sound h hs) ih

section Messages

variable {P : Message → Prop} (hP : ∀ m : Message, m.Ordinary → P m)
  (hc : ∀ check ∈ settings.checks, check.Speaks P)

include hP hc

theorem Move.forall_messages (h : Move settings m m')
    (hm : ∀ message ∈ m.state.messages, P message) :
    ∀ message ∈ m'.state.messages, P message := by
  cases h with
  | @declare levels importers atHead s s₁ comment h =>
    cases h.state
    exact (tells_declare hP hc _ s.skipComments).forall hm
  | pass h => exact (h.tells hP).forall hm
  | @into levels importers s s' i id text h hfresh =>
    have hread : s.Tells P s' := h.silent.tells
    exact hread.forall hm
  | @out levels importer importers atHead s h =>
    have hsettle : s.ended.toSession.Tells P (s.ended.toSession.settleAll settings.checks false
        (importer.pending ++ s.ended.pending)).1 :=
      Session.tells_settle hc hP _ _
    exact hsettle.forall ((s.tells_ended hP).forall hm)

theorem Moves.forall_messages (h : Moves settings m m')
    (hm : ∀ message ∈ m.state.messages, P message) :
    ∀ message ∈ m'.state.messages, P message := by
  induction h with
  | refl => exact hm
  | tail _ hmove ih => exact hmove.forall_messages hP hc ih

theorem Reached.forall_messages (h : Reached settings root tokens m) :
    ∀ message ∈ m.state.messages, P message := by
  refine h.moves.forall_messages hP hc fun message hmem => ?_
  cases root <;> cases hmem

end Messages

section Outcome

variable (hc : ∀ check ∈ settings.checks, check.Decides)

include hc

theorem Reached.forall_isImportFailure (hm : Reached settings root tokens m) :
    ∀ message ∈ m.state.messages, message.kind.isImportFailure = false :=
  hm.forall_messages (fun _ h => h.kind) fun check h => (hc check h).speaks

/-- An import that fails ends the session. -/
theorem Reached.breaksOff (hm : Reached settings root tokens m) (ha : m.atHead = true) {s : State}
    (h : m.state.Halts settings s) : (settings.readTokens root tokens).BreaksOff m.stack := by
  rw [hm.readTokens_eq (.halted ha h)]
  obtain ⟨failure, hmessages, hkind, _⟩ := h.messages
  refine ⟨rfl, ⟨_, failure, hmessages, hkind, hm.forall_isImportFailure hc⟩, fun x hx => ?_⟩
  have hdocument : s.document = m.document.note _ _ := h.notes.document
  have hsame := (m.document.alike_note s.document.imports s.document.package).heading x
  rw [← hdocument] at hsame
  have hlisted : x ∈ m.document.declarations := by
    rw [Outcome.ofSession, hdocument] at hx
    exact hx
  obtain ⟨heading, hx⟩ := Document.exists_heading (hm.sound.linked.declarations x hlisted)
  refine ⟨heading, hsame.trans hx, fun hmem => ?_⟩
  -- Whatever the innermost source declares is read behind its head.
  have hfresh : m.Fresh := hm.moves.fresh (sound_start _ _ _) (fresh_start _ _ _)
  exact Bool.false_ne_true (((hfresh.origin x heading hx).2 hmem).1.symm.trans ha)

theorem ok_readTokens_iff (root : Option SourceId) (tokens : List Token) :
    (settings.readTokens root tokens).ok = true ↔
      Message.hasError (settings.readTokens root tokens).messages = false := by
  obtain ⟨m, outcome, hmoves, hconcludes⟩ := Reached.exists_conclusion
    (.refl : Reached settings root tokens (start settings root tokens))
  have hm : Reached settings root tokens m := hmoves.steps
  rw [hm.readTokens_eq hconcludes]
  cases hconcludes with
  | ended hi hend => exact m.state.ended.toSession.ok_finish_iff m.state.ended.pending hc
  | halted ha h =>
    obtain ⟨failure, hmessages, _, herror⟩ := h.messages
    simp [Outcome.ofSession, hmessages, Message.hasError, herror]

/-- A session that no import ends comes to the end of the root. -/
theorem halts_or_ends (root : Option SourceId) (tokens : List Token) :
    (∃ m s, Reached settings root tokens m ∧ m.atHead = true ∧ m.state.Halts settings s) ∨
      ∃ m, Reached settings root tokens m ∧ m.importers = [] ∧
        m.state.skipComments.current = none ∧
        ∀ message ∈ (settings.readTokens root tokens).messages,
          message.kind.isImportFailure = false := by
  obtain ⟨m, outcome, hmoves, hconcludes⟩ := Reached.exists_conclusion
    (.refl : Reached settings root tokens (start settings root tokens))
  have hm : Reached settings root tokens m := hmoves.steps
  have heq := hm.readTokens_eq hconcludes
  cases hconcludes with
  | halted ha h => exact .inl ⟨m, _, hm, ha, h⟩
  | ended hi hend =>
    refine .inr ⟨m, hm, hi, hend, ?_⟩
    rw [heq]
    have hended := (m.state.tells_ended fun _ h => h.kind).forall (hm.forall_isImportFailure hc)
    exact Session.forall_messages_finish _ _ (fun _ h => h.kind)
      (fun check h => (hc check h).speaks) hended

end Outcome

end Moment

end Grammar

open Grammar Grammar.Moment in
/-- A session has succeeded if and only if no error was reported. It ends early if and only if
an import fails: the message about it is the last one and the only one of its kind, and no
source that was being read has registered a declaration. A root that cannot be read ends in the
same way. -/
theorem success_means_no_error {settings : Settings}
    (hc : ∀ check ∈ settings.checks, check.Decides) :
    (∀ root text,
      ((settings.readText root text).ok = true ↔
        ∀ m ∈ (settings.readText root text).messages, m.severity ≠ .error) ∧
      (∀ m s, Reached settings root (Token.tokenize text) m → m.atHead = true →
        m.state.Halts settings s → (settings.readText root text).BreaksOff m.stack) ∧
      ((∃ m s, Reached settings root (Token.tokenize text) m ∧ m.atHead = true ∧
          m.state.Halts settings s) ∨
        ∃ m, Reached settings root (Token.tokenize text) m ∧ m.importers = [] ∧
          m.state.skipComments.current = none ∧
          ∀ message ∈ (settings.readText root text).messages,
            message.kind.isImportFailure = false)) ∧
    ∀ root,
      ((settings.readSource root).ok = true ↔
        ∀ m ∈ (settings.readSource root).messages, m.severity ≠ .error) ∧
      ((∃ text, settings.provider.map (·.read root) = some (.ok text) ∧
          settings.readSource root = settings.readText (some root) text) ∨
        (settings.readSource root).BreaksOff [some root]) := by
  have hok (root : Option SourceId) (text : String) :
      (settings.readText root text).ok = true ↔
        ∀ m ∈ (settings.readText root text).messages, m.severity ≠ .error :=
    (ok_readTokens_iff hc root (Token.tokenize text)).trans Message.hasError_eq_false_iff
  refine ⟨fun root text => ⟨hok root text, fun m s hm ha h => hm.breaksOff hc ha h,
    halts_or_ends hc root (Token.tokenize text)⟩, fun root => ?_⟩
  cases hread : settings.provider.map (·.read root) with
  | some result =>
    cases result with
    | ok text =>
      have heq : settings.readSource root = settings.readText (some root) text := by
        simp only [Settings.readSource, hread]
      exact ⟨heq ▸ hok (some root) text, .inl ⟨text, rfl, heq⟩⟩
    | error e =>
      have heq : settings.readSource root = .unreadable root := by
        simp only [Settings.readSource, hread]
      exact heq ▸ ⟨Outcome.ok_unreadable_iff root, .inr (Outcome.breaksOff_unreadable root)⟩
  | none =>
    have heq : settings.readSource root = .unreadable root := by
      simp only [Settings.readSource, hread]
    exact heq ▸ ⟨Outcome.ok_unreadable_iff root, .inr (Outcome.breaksOff_unreadable root)⟩

/-- The root itself imports what is missing. -/
theorem success_means_no_error_missing :
    let settings : Settings := { provider := some (Shelf.provider {}) }
    let outcome := settings.readText none "import \"b\"; structure A \x7b \x7d"
    outcome.BreaksOff [none] ∧
      (outcome.ok = true ↔ ∀ m ∈ outcome.messages, m.severity ≠ .error) := by
  intro settings outcome
  let m := Grammar.Moment.start settings none
    (Token.tokenize "import \"b\"; structure A \x7b \x7d")
  have hword : (m.state.skipComments.current.any (·.isKeyword "import")) = true := by
    decide +kernel
  have hread : ((Grammar.importStatement m.state.comment?).run' m.state.skipComments).isSome =
      true := by decide +kernel
  have hchecks : ∀ check ∈ settings.checks, check.Decides := Check.decides_standard
  have hall := success_means_no_error hchecks
  cases hi : Grammar.importStatement m.state.comment? m.state.skipComments with
  | ok i s =>
    have himports : m.state.Imports i s := ⟨(Option.any_eq_true _ _).1 hword, hi⟩
    exact ⟨(hall.1 none _).2.1 m _ .refl rfl (.missing himports rfl), (hall.1 none _).1⟩
  | error e s =>
    delta EStateM.run' EStateM.run at hread
    rw [hi] at hread
    cases hread

end Idl
