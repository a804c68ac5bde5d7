import Idl.Proofs.Course.Success
import Idl.Proofs.Grammar.Queue
import Idl.Proofs.Session.Queue

/-!
The order in which names are reported that were never declared. Names wait behind those that wait
already, and none is moved but at the end of a structure, so at every moment the names of one
source wait in the order in which they stand, except for those of one structure: of these the
qualified ones are in front. What is left at the end is reported in this order.
-/

namespace Idl

namespace Grammar

namespace State

variable {checks : List Check} {scope : Option StructureId} {others : List Binding}
  {s s' s'' : State}

theorem Lines.names (h : s.Lines scope s') (ht : s.cursor.rest.Pairwise Token.Before) :
    ∃ taken new, s.cursor.rest = taken ++ s'.cursor.rest ∧ s'.pending = s.pending ++ new ∧
      (new.map (·.name.first)).Pairwise Token.Before ∧
      ∀ b ∈ new, b.source = s.source ∧ b.name.first ∈ taken ∧ b.scope = scope := by
  obtain ⟨taken, new, hrest, hpending, hsource, hordered⟩ := h.queues.ordered
  obtain ⟨new', hpending', hnew⟩ := h.defers.pending
  cases List.append_cancel_left (hpending.symm.trans hpending')
  rw [List.append_nil] at hordered
  have htaken : taken.Pairwise Token.Before := (List.pairwise_append.1 (hrest ▸ ht)).1
  exact ⟨taken, new, hrest, hpending, htaken.sublist hordered, fun b hb =>
    ⟨hsource b hb, hordered.subset (List.mem_map_of_mem hb), (hnew b hb).1⟩⟩

/-- While a statement is read, some of the names that wait may be settled, and names in the tokens
that are read come to wait behind them. These are in no structure that was there before. -/
structure Enqueues (s s' : State) : Prop where
  source : s'.source = s.source
  names : ∃ taken new, s.cursor.rest = taken ++ s'.cursor.rest ∧
    s'.pending.Sublist (s.pending ++ new) ∧ new.Pairwise Binding.Ahead ∧
    ∀ b ∈ new, b.source = s.source ∧ b.name.first ∈ taken ∧
      ∀ id, b.scope = some id → s.document.structures.size ≤ id.index

theorem Idles.enqueues (h : s.Idles s') : s.Enqueues s' := by
  obtain ⟨taken, hrest⟩ := h.rest
  refine ⟨h.source, taken, [], hrest.symm, ?_, List.Pairwise.nil,
    fun _ hb => absurd hb List.not_mem_nil⟩
  rw [h.pending, List.append_nil]

theorem Enqueues.of_reads (h : s.Reads s') (h' : s'.Enqueues s'') : s.Enqueues s'' := by
  obtain ⟨taken, new, hrest, hsub, hahead, hnew⟩ := h'.names
  obtain ⟨front, hfront⟩ := h.rest
  refine ⟨h'.source.trans h.source, front ++ taken, new, ?_, h.pending ▸ hsub, hahead,
    fun b hb => ?_⟩
  · rw [← hfront, hrest, List.append_assoc]
  · obtain ⟨hsource, hmem, hscope⟩ := hnew b hb
    exact ⟨hsource.trans h.source, List.mem_append_right front hmem, h.document ▸ hscope⟩

theorem Enqueues.reads (h : s.Enqueues s') (h' : s'.Reads s'') : s.Enqueues s'' := by
  obtain ⟨taken, new, hrest, hsub, hahead, hnew⟩ := h.names
  obtain ⟨more, hmore⟩ := h'.rest
  refine ⟨h'.source.trans h.source, taken ++ more, new, ?_, h'.pending ▸ hsub, hahead,
    fun b hb => ?_⟩
  · rw [hrest, ← hmore, List.append_assoc]
  · obtain ⟨hsource, hmem, hscope⟩ := hnew b hb
    exact ⟨hsource, List.mem_append_left more hmem, hscope⟩

/-- Names may be settled. -/
theorem Enqueues.settle (h : s.Enqueues s') (hsource : s''.source = s'.source)
    (hcursor : s''.cursor = s'.cursor) (hpending : s''.pending.Sublist s'.pending) :
    s.Enqueues s'' := by
  obtain ⟨taken, new, hrest, hsub, hnew⟩ := h.names
  exact ⟨hsource.trans h.source, taken, new, hcursor ▸ hrest, hpending.trans hsub, hnew⟩

theorem Enqueues.register (h : s.Enqueues s') (checks : List Check) (x : Declaration) :
    s.Enqueues (s'.register checks x) := by
  unfold State.register
  simp only
  split
  · exact h.settle rfl rfl (Session.settle_sublist _ _)
  · exact h.settle rfl rfl (List.Sublist.refl _)

theorem Lines.enqueues (h : s.Lines none s') (ht : s.cursor.rest.Pairwise Token.Before) :
    s.Enqueues s' := by
  obtain ⟨taken, new, hrest, hpending, hordered, hnew⟩ := h.names ht
  refine ⟨h.defers.source, taken, new, hrest, hpending ▸ List.Sublist.refl _,
    Binding.pairwise_ahead hordered fun a ha _ _ => Binding.not_parted_of_outside (hnew a ha).2.2,
    fun b hb => ⟨(hnew b hb).1, (hnew b hb).2.1, fun id hid => ?_⟩⟩
  cases (hnew b hb).2.2.symm.trans hid

/-- The names in a structure are in their order when they are settled at its end. No name from
outside is in it, as it was not there before. -/
theorem Lines.enqueues_settleScope {id : StructureId} (h : s.Lines (some id) s')
    (hs : s.Sound others) (hid : s.document.structures.size ≤ id.index)
    (ht : s.cursor.rest.Pairwise Token.Before) :
    s.Enqueues (s'.settle fun session pending => session.settleScope checks id pending) := by
  obtain ⟨taken, new, hrest, hpending, hordered, hnew⟩ := h.names ht
  have houter : ∀ b ∈ s.pending, b.scope ≠ some id := fun b hb hscope =>
    Nat.not_lt_of_le hid (hs.scopes b (List.mem_append_right _ hb) id hscope)
  obtain ⟨left, hsettled, hmem, hahead⟩ := s'.toSession.settleScope_ahead checks houter
    (fun b hb => (hnew b hb).2.2) hordered
  refine ⟨h.defers.source, taken, left, hrest, ?_, hahead, fun b hb => ?_⟩
  · rw [← hsettled, ← hpending]
    exact List.Sublist.refl _
  · obtain ⟨hsource, hread, hscope⟩ := hnew b (hmem b hb)
    refine ⟨hsource, hread, fun id' hid' => ?_⟩
    cases hscope.symm.trans hid'
    exact hid

theorem enqueues_declaration (hs : s.Sound others) (ht : s.cursor.rest.Pairwise Token.Before)
    {comment : Option Comment} {x : Declaration}
    (hp : declaration checks comment s = .ok x s') : s.Enqueues s' := by
  have habove := (After.of_ok (builds_declaration hs.ready comment) hp).2.1
  cases (after_declaration_queued comment s).of_ok hp with
  | plain h => exact h.enqueues ht
  | within h hr => exact (h.enqueues_settleScope hs habove ht).reads hr

theorem enqueues_declare (checks : List Check) (hs : s.Sound others)
    (ht : s.cursor.rest.Pairwise Token.Before) (comment : Option Comment) :
    s.Enqueues (s.declare checks comment) := by
  rcases declare_cases hs comment with hr | ⟨x, s', hp, _, heq⟩
  · exact hr.idles.enqueues
  · rw [heq]
    refine Enqueues.register ?_ checks x
    exact (enqueues_declaration hs ht hp).reads (reads_visit s' checks (.declaration x) false)

end State

namespace Moment

variable {settings : Settings} {root : Option SourceId} {text : String} {m m' : Moment}

/-- The tokens that a source has still to read stand behind the names in it that wait. -/
structure Behind (waiting : List Binding) (r : Reading) : Prop where
  ordered : r.cursor.rest.Pairwise Token.Before
  names : ∀ b ∈ waiting, b.source = r.source → ∀ t ∈ r.cursor.rest, b.name.first.Before t

/-- The names of one source wait in their order, in front of what is still to be read. -/
structure Queued (m : Moment) : Prop where
  ahead : m.waiting.Pairwise fun a b => a.source = b.source → a.Ahead b
  known : ∀ b ∈ m.waiting, ∀ id, b.source = some id → id ∈ m.state.sources.sources
  behind : ∀ r ∈ m.state.toReading :: m.importers, Behind m.waiting r

theorem Behind.mono {waiting waiting' : List Binding} {r r' : Reading} (h : Behind waiting r)
    (hw : ∀ b ∈ waiting', b ∈ waiting) (hsource : r'.source = r.source)
    (hrest : r'.cursor.rest <:+ r.cursor.rest) : Behind waiting' r' where
  ordered := h.ordered.sublist hrest.sublist
  names b hb hs t ht := h.names b (hw b hb) (hs.trans hsource) t (hrest.subset ht)

theorem ordered_ofText (text : String) : (Cursor.ofText text).rest.Pairwise Token.Before := by
  rw [Cursor.ofText, Cursor.rest_ofTokens]
  exact Token.tokenize_before text

theorem queued_start (settings : Settings) (root : Option SourceId) (text : String) :
    (start settings root (Token.tokenize text)).Queued where
  ahead := List.Pairwise.nil
  known _ hb := absurd hb List.not_mem_nil
  behind r hr := by
    cases List.mem_singleton.1 hr
    exact ⟨ordered_ofText text, fun _ hb => absurd hb List.not_mem_nil⟩

/-- The reading goes on in the same source. -/
theorem Queued.on {levels : Nat} {importers : List Reading} {atHead next : Bool} {s s' : State}
    (h : Queued ⟨levels, importers, atHead, s⟩) (hs : s.Sound (waitingIn importers))
    (hf : Fresh ⟨levels, importers, atHead, s⟩) (hsources : s'.sources = s.sources)
    (he : s.Enqueues s') : Queued ⟨levels, importers, next, s'⟩ := by
  obtain ⟨taken, new, hrest, hsub, hahead, hnew⟩ := he.names
  let waiting := waitingIn importers ++ s.pending
  have hwaiting : (waitingIn importers ++ s'.pending).Sublist (waiting ++ new) := by
    rw [List.append_assoc]
    exact hsub.append_left _
  have hcurrent : Behind waiting s.toReading := h.behind _ List.mem_cons_self
  have hordered : (taken ++ s'.cursor.rest).Pairwise Token.Before := hrest ▸ hcurrent.ordered
  refine ⟨List.Pairwise.sublist hwaiting (List.pairwise_append.2 ⟨h.ahead, ?_, ?_⟩),
    fun b hb id hid => ?_, fun r hr => ?_⟩
  · exact hahead.imp (S := fun a b : Binding => a.source = b.source → a.Ahead b) fun h _ => h
  · intro a ha b hb hsource
    obtain ⟨hbsource, hbtaken, hscope⟩ := hnew b hb
    refine Binding.ahead_of_before (fun hp => ?_) ?_
    · obtain ⟨id, hid⟩ := Option.isSome_iff_exists.1 hp.1
      exact Nat.not_lt_of_le (hscope id (hp.2.1 ▸ hid)) (hs.scopes a ha id hid)
    · exact hcurrent.names a ha (hsource.trans hbsource) _
        (hrest ▸ List.mem_append_left _ hbtaken)
  · rw [hsources]
    rcases List.mem_append.1 (hwaiting.subset hb) with hb | hb
    · exact h.known b hb id hid
    · refine hf.known id ?_
      rw [← hid, (hnew b hb).1]
      exact List.mem_cons_self
  · rcases List.mem_cons.1 hr with rfl | hr
    · refine ⟨(List.pairwise_append.1 hordered).2.1, fun b hb hsource t ht => ?_⟩
      rcases List.mem_append.1 (hwaiting.subset hb) with hb | hb
      · exact hcurrent.names b hb (hsource.trans he.source) t
          (hrest ▸ List.mem_append_right taken ht)
      · exact (List.pairwise_append.1 hordered).2.2 _ (hnew b hb).2.1 t ht
    · have hother := h.behind r (List.mem_cons_of_mem _ hr)
      refine ⟨hother.ordered, fun b hb hsource => ?_⟩
      rcases List.mem_append.1 (hwaiting.subset hb) with hb | hb
      · exact hother.names b hb hsource
      · -- Two sources that are being read are never the same.
        have hsame : s.source ∈ importers.map Reading.source :=
          List.mem_map.2 ⟨r, hr, hsource.symm.trans (hnew b hb).1⟩
        exact absurd hsame (List.nodup_cons.1 hf.nodup).1

/-- An import leads to a source that none of the names that wait stands in. -/
theorem Queued.into {levels : Nat} {importers : List Reading} {s s' : State} {i : Import}
    {id : SourceId} {text : String} (hq : Queued ⟨levels + 1, importers, true, s⟩)
    (h : s.Imports i s') (hfresh : s'.target settings i = .fresh id text) :
    Queued ⟨levels, s'.toReading :: importers, true,
      (s'.takeIn i id).enter (s'.sources.register id).1 text⟩ := by
  have hr := h.reads
  obtain ⟨hid, hregister⟩ := h.register_eq hfresh
  have hwaiting : waiting ⟨levels, s'.toReading :: importers, true,
      (s'.takeIn i id).enter (s'.sources.register id).1 text⟩ =
        waitingIn importers ++ s.pending := by
    rw [← hr.pending]
    exact List.append_nil _
  have hmem (b : Binding) (hb : b ∈ waitingIn importers ++ s.pending) : b.source ≠ some id :=
    fun hsource => hid (hq.known b hb id hsource)
  refine ⟨hwaiting ▸ hq.ahead, fun b hb known hknown => ?_, fun r hr' => ?_⟩
  · simp only [State.enter, State.takeIn, State.addImport, State.modifyDocument,
      Session.modifyDocument, hregister]
    rw [hwaiting] at hb
    exact List.mem_append_left _ (hq.known b hb known hknown)
  · rw [hwaiting]
    rcases List.mem_cons.1 hr' with rfl | hr'
    · refine ⟨ordered_ofText text, fun b hb hsource => absurd hsource ?_⟩
      simp only [State.enter, hregister]
      exact hmem b hb
    · rcases List.mem_cons.1 hr' with rfl | hr'
      · exact (hq.behind _ List.mem_cons_self).mono (fun _ hb => hb) hr.source hr.rest
      · exact hq.behind r (List.mem_cons_of_mem _ hr')

/-- Behind an import the importer goes on, with the names that are left. -/
theorem Queued.out {levels : Nat} {importer : Reading} {importers : List Reading} {atHead : Bool}
    {s : State} (hq : Queued ⟨levels, importer :: importers, atHead, s⟩) :
    Queued ⟨levels + 1, importers, true, .resume settings.checks importer s.ended⟩ := by
  have hended := s.reads_ended
  have hsources : (State.resume settings.checks importer s.ended).sources = s.sources :=
    sources_resume _ _ _
  have hwaiting : (waiting ⟨levels + 1, importers, true,
      .resume settings.checks importer s.ended⟩).Sublist
        (waitingIn (importer :: importers) ++ s.pending) := by
    have hsub : (State.resume settings.checks importer s.ended).pending.Sublist
        (importer.pending ++ s.ended.pending) := Session.settle_sublist _ _
    rw [hended.pending] at hsub
    rw [waitingIn, List.append_assoc]
    exact hsub.append_left _
  refine ⟨hq.ahead.sublist hwaiting, fun b hb id hid => ?_, fun r hr => ?_⟩
  · rw [hsources]
    exact hq.known b (hwaiting.subset hb) id hid
  · rcases List.mem_cons.1 hr with rfl | hr
    · exact (hq.behind importer (List.mem_cons_of_mem _ List.mem_cons_self)).mono
        (fun _ hb => hwaiting.subset hb) rfl List.suffix_rfl
    · exact (hq.behind r (List.mem_cons_of_mem _ (List.mem_cons_of_mem _ hr))).mono
        (fun _ hb => hwaiting.subset hb) rfl List.suffix_rfl

theorem Move.queued (h : Move settings m m') (hs : m.situation.Sound) (hf : m.Fresh)
    (hq : m.Queued) : m'.Queued := by
  cases h with
  | @declare levels importers atHead s s₁ comment h =>
    have hsound := h.sound hs
    have honward := State.onward_declare settings.checks hsound comment
    cases h.state
    have hr := State.reads_skipComments s
    have hordered := (hq.behind s.toReading List.mem_cons_self).ordered.sublist hr.rest.sublist
    have he := (State.enqueues_declare settings.checks hsound hordered s.comment?).of_reads hr
    exact hq.on hs hf honward.sources he
  | @pass levels importers atHead next s s' h =>
    have hn := h.notes
    exact hq.on hs hf hn.sources (State.Idles.enqueues ⟨hn.source, hn.rest, hn.pending⟩)
  | into h hfresh => exact hq.into h hfresh
  | out h => exact hq.out

theorem Moves.queued (h : Moves settings m m') (hs : m.situation.Sound) (hf : m.Fresh)
    (hq : m.Queued) : m'.Queued := by
  induction h with
  | refl => exact hq
  | tail h hmove ih => exact hmove.queued (Moves.sound h hs) (Moves.fresh h hs hf) ih

/-- When the root has ended, the names that are left wait in their order. -/
theorem pairwise_pending_of_ended {s : State}
    (h : source settings settings.levels (.root root (Token.tokenize text)) = .ok () s) :
    s.pending.Pairwise fun a b => a.source = b.source → a.Ahead b := by
  obtain ⟨m, outcome, hmoves, hconcludes⟩ := Reached.exists_conclusion
    (.refl : Reached settings root (Token.tokenize text) _)
  have hreached : Reached settings root (Token.tokenize text) m := hmoves.steps
  have hq : m.Queued := hmoves.queued (sound_start settings root _) (fresh_start settings root _)
    (queued_start settings root text)
  cases hconcludes with
  | ended hi hend =>
    cases (hreached.source_of_ended hi hend).symm.trans h
    have hwaiting : m.waiting = m.state.ended.pending := by
      rw [m.state.reads_ended.pending, waiting, hi]
      rfl
    exact hwaiting ▸ hq.ahead
  | halted ha hhalts =>
    obtain ⟨s', hsource, _⟩ := hreached.source_of_halted ha hhalts
    cases hsource.symm.trans h

/-- Names that were never declared are reported at the end, those of one source in the order in
which they stand in it, with one exception: of two names in one structure, one qualified and one
not, the qualified one is reported first, wherever it stands. So the lines and columns of the
reports in a source increase if and only if no structure in it has an unqualified one of these
names in front of a qualified one. -/
theorem unresolved_names_are_reported_in_order {s : State}
    (h : source settings settings.levels (.root root (Token.tokenize text)) = .ok () s) :
    let left := s.toSession.left settings.checks s.pending
    (∃ more, (settings.readText root text).messages =
        (s.toSession.settled settings.checks s.pending).messages ++ left.map Binding.unresolved ++
          more ∧ (left ≠ [] → more = [])) ∧
    (left.Pairwise fun a b => a.source = b.source → a.Ahead b) ∧
    ∀ source, ((left.map Binding.unresolved).filter fun m => m.location.source = source).Pairwise
        (fun m m' => m.location.Before m'.location) ↔ Binding.Grouped left source := by
  intro left
  have hahead : left.Pairwise fun a b => a.source = b.source → a.Ahead b :=
    (pairwise_pending_of_ended h).sublist (Session.settle_sublist _ _)
  refine ⟨?_, hahead, fun source => Binding.pairwise_before_iff source hahead⟩
  simp only [Settings.readText, Settings.readTokens, h]
  exact s.toSession.messages_finish settings.checks s.pending

/-- Two structures, in the second of which the unqualified names are reported last. -/
theorem unresolved_names_are_reported_in_order_parted :
    let text := "structure S { x.A a; B b; } structure T { C c; y.D d; E e; }"
    let settings : Settings := {}
    let s := ending (source settings settings.levels (.root none (Token.tokenize text)))
    let left := s.toSession.left settings.checks s.pending
    source settings settings.levels (.root none (Token.tokenize text)) = .ok () s ∧
      (settings.readText none text).messages = left.map Binding.unresolved ∧
      left.map (fun b => b.name.display) = ["x.A", "B", "y.D", "C", "E"] ∧
      left.Pairwise fun a b => a.source = b.source → a.Ahead b := by
  intro text settings s left
  let start : State := .root none (Token.tokenize text)
  have hends : EStateM.run' (source settings settings.levels) start = some () := by
    decide +kernel
  have hs : source settings settings.levels start = .ok () s := by
    change _ = EStateM.Result.ok () (ending (source settings settings.levels start))
    cases hresult : source settings settings.levels start with
    | ok _ s => rfl
    | error e s =>
      delta EStateM.run' EStateM.run at hends
      rw [hresult] at hends
      cases hends
  exact ⟨hs, by decide +kernel, by decide +kernel,
    (unresolved_names_are_reported_in_order hs).2.1⟩

/-- The name that stands behind the other one is reported in front of it. -/
theorem qualified_name_is_reported_first :
    let reports := (({} : Settings).readText none "structure S { A a; x.B b; }").messages
    reports.map (fun m => (m.kind, m.location.line, m.location.column)) =
        [(.unknownClassifierType, 1, 20), (.unknownClassifierType, 1, 15)] ∧
      ¬ reports.Pairwise fun m m' => m.location.Before m'.location := by
  decide +kernel

end Moment

end Grammar

end Idl
