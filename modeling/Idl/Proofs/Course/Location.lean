import Idl.Proofs.Course.Move
import Idl.Proofs.Grammar.Invariant
import Idl.Proofs.Session.Located
import Idl.Proofs.Token.Layout

/-!
Where messages point. What is said while a source is read is said of its tokens or of its end.
What is said later, when names are settled, is said of the document or of a name that waits, and
these keep the locations at which they were written. So every message points into the root or
into a registered import, at a token of its own text or just past the last one. But the end of a
token that goes over several lines is taken to be that of its first line.
-/

namespace Idl

/-- The location is where one of the tokens of a source starts, or where the cursor takes the last
one to end. -/
structure Location.Within (l : Location) (source : Option SourceId) (tokens : List Token) :
    Prop where
  source : l.source = source
  place : (∃ t ∈ tokens, t.line = l.line ∧ t.column = l.column) ∨
    (Cursor.ofTokens tokens).endLine = l.line ∧ (Cursor.ofTokens tokens).endColumn = l.column

/-- The location lies in the root, or in the text of an import that is registered. -/
inductive Settings.Locates (settings : Settings) (root : Option SourceId) (tokens : List Token)
    (sources : Registry) (l : Location) : Prop where
  | root (h : l.Within root tokens)
  | imported {provider : Provider} {id : SourceId} {text : String}
      (hp : settings.provider = some provider) (hr : id ∈ sources.sources)
      (ht : provider.read id = .ok text) (h : l.Within (some id) (Token.tokenize text))

/-- The location is where a token of the text starts, or just past the last token, so that there
are only gaps behind it. Behind a last token that goes over several lines it is the end of the
first one. -/
inductive Location.StandsIn (l : Location) (text : String) : Prop where
  | token {t : Token} (h : t ∈ Token.tokenize text) (hl : l.line = t.line)
      (hc : l.column = t.column)
  | ended {body blank : List Char} (ht : text.toList = body ++ blank)
      (hb : ∀ c ∈ blank, c ∈ [' ', '\t', '\r', '\n', '\x0c'])
      (he : body = [] ∨ ∃ t ∈ Token.tokenize text, t.stop = Text.byteCount body)
      (hl : l.line = 1 + body.count '\n')
      (hc : l.column = 1 + Text.byteCount (Text.lastLine body))
  | broken {t : Token} (h : (Token.tokenize text).getLast? = some t) (hn : '\n' ∈ t.text.toList)
      (hl : l.line = t.line)
      (hc : l.column = t.column + Text.byteCount ((Text.lines t.text.toList).headD []))

theorem Location.Within.standsIn {l : Location} {source : Option SourceId} {text : String}
    (h : l.Within source (Token.tokenize text)) : l.StandsIn text := by
  rcases h.place with ⟨t, ht, hline, hcolumn⟩ | ⟨hline, hcolumn⟩
  · exact .token ht hline.symm hcolumn.symm
  cases hlast : (Token.tokenize text).getLast? with
  | none =>
    simp only [Cursor.ofTokens, hlast] at hline hcolumn
    have hnone : Token.scan {} text.toList = [] := List.getLast?_eq_none_iff.1 hlast
    exact .ended (List.nil_append text.toList).symm
      (fun c hc => Token.isGap_iff.1 (Token.gap_of_mem hnone c hc)) (.inl rfl) hline.symm
      hcolumn.symm
  | some t =>
    simp only [Cursor.ofTokens, hlast] at hline hcolumn
    by_cases hn : '\n' ∈ t.text.toList
    · exact .broken hlast hn hline.symm hcolumn.symm
    · obtain ⟨body, blank, htext, hblank, hstop, hl, hc⟩ := Token.exists_body hlast hn
      exact .ended htext (fun c hc => Token.isGap_iff.1 (hblank c hc))
        (.inr ⟨t, List.mem_of_getLast? hlast, hstop⟩) (hline.symm.trans hl)
        (hcolumn.symm.trans hc)

/-- The location lies in the text of the root, or in that of an import that is registered. -/
inductive Settings.PointsInto (settings : Settings) (root : Option SourceId) (text : String)
    (sources : Registry) (l : Location) : Prop where
  | root (hs : l.source = root) (h : l.StandsIn text)
  | imported {provider : Provider} {id : SourceId} {own : String}
      (hp : settings.provider = some provider) (hr : id ∈ sources.sources)
      (ht : provider.read id = .ok own) (hs : l.source = some id) (h : l.StandsIn own)

theorem Settings.Locates.pointsInto {settings : Settings} {root : Option SourceId} {text : String}
    {sources : Registry} {l : Location}
    (h : settings.Locates root (Token.tokenize text) sources l) :
    settings.PointsInto root text sources l := by
  cases h with
  | root h => exact .root h.source h.standsIn
  | imported hp hr ht h => exact .imported hp hr ht h.source h.standsIn

theorem Settings.Locates.mono {settings : Settings} {root : Option SourceId} {tokens : List Token}
    {sources sources' : Registry} {l : Location} (h : settings.Locates root tokens sources l)
    (hs : ∀ id ∈ sources.sources, id ∈ sources'.sources) :
    settings.Locates root tokens sources' l := by
  cases h with
  | root h => exact .root h
  | imported hp hr ht h => exact .imported hp (hs _ hr) ht h

namespace Session

theorem sources_finish (s : Session) (checks : List Check) (pending : List Binding) :
    (s.finish checks pending).sources = s.sources := by
  have hsettled : (s.settled checks pending).sources = s.sources :=
    (follows_settleAll checks s true pending).sources
  rw [finish_eq]
  split
  · exact hsettled
  · exact hsettled

/-- Names that were never declared are reported where they were written. -/
theorem Located.finish {L : Location → Prop} {s : Session} (h : s.Located L) {checks : List Check}
    (hc : ∀ check ∈ checks, check.Points) {pending : List Binding}
    (hp : ∀ b ∈ pending, L b.unresolved.location) :
    ∀ m ∈ (s.finish checks pending).messages, L m.location := by
  have hsettled : (s.settled checks pending).Located L := h.settle hc pending
  have hreported : (s.reported checks pending).Located L :=
    hsettled.reportUnresolved fun b hb => hp b ((settle_sublist _ _).mem hb)
  rw [finish_eq]
  split
  · exact hreported.messages
  · exact (hreported.visit hc .document false).messages

end Session

namespace Grammar

variable {L : Location → Prop} {source : Option SourceId} {tokens : List Token}

/-- A source is read whose tokens these are, and the names that wait were written at `L`. -/
structure Reading.Located (L : Location → Prop) (source : Option SourceId) (tokens : List Token)
    (r : Reading) : Prop where
  source : r.source = source
  rest : r.cursor.rest <:+ tokens
  endLine : r.cursor.endLine = (Cursor.ofTokens tokens).endLine
  endColumn : r.cursor.endColumn = (Cursor.ofTokens tokens).endColumn
  pending : ∀ b ∈ r.pending, L b.unresolved.location

theorem Reading.Located.mono {L' : Location → Prop} {r : Reading} (h : r.Located L source tokens)
    (hL : ∀ l, L l → L' l) : r.Located L' source tokens :=
  { h with pending := fun b hb => hL _ (h.pending b hb) }

/-- The locations in a state satisfy `L`. -/
def Invariant.located (L : Location → Prop) (source : Option SourceId) (tokens : List Token) :
    Invariant where
  state s := s.toSession.Located L ∧ s.toReading.Located L source tokens
  token t := t ∈ tokens
  location := L
  heading := Heading.Located L
  name n := n.first ∈ tokens

/-- To settle names reports what the document and the checks say, and lets no name wait. -/
theorem located_settle {s : State} {f : Session → List Binding → Session × List Binding}
    (h : (Invariant.located L source tokens).state s)
    (hf : (f s.toSession s.pending).1.Located L)
    (hk : ∀ b ∈ (f s.toSession s.pending).2, b ∈ s.pending) :
    (Invariant.located L source tokens).state (s.settle f) :=
  ⟨hf, { h.2 with pending := fun b hb => h.2.pending b (hk b hb) }⟩

theorem located_register {checks : List Check} (hc : ∀ check ∈ checks, check.Points) {s : State}
    (h : (Invariant.located L source tokens).state s) (x : Declaration) :
    (Invariant.located L source tokens).state (s.register checks x) := by
  have hregister : (Invariant.located L source tokens).state
      (s.modifyDocument (·.register x)) :=
    ⟨⟨h.1.document.register x, h.1.messages⟩, h.2⟩
  simp only [State.register]
  split
  · exact located_settle hregister (hregister.1.settle hc _) fun b hb =>
      (Session.settle_sublist _ _).mem hb
  · exact hregister

section Laws

variable (hL : ∀ l : Location, l.Within source tokens → L l)

include hL

theorem lawful_located : (Invariant.located L source tokens).Lawful where
  rest h hr := ⟨h.1, { h.2 with rest := hr.trans h.2.rest }⟩
  token h ht := h.2.rest.mem ht
  locationOf h ht := hL _ ⟨h.2.source, .inl ⟨_, ht, rfl, rfl⟩⟩
  heading _ hl hn _ := ⟨hl, hn⟩
  ending {s} h he := by
    have hposition : s.cursor.position = (s.cursor.endLine, s.cursor.endColumn) := by
      rw [Cursor.position, Cursor.current, he]
      rfl
    refine hL _ ⟨h.2.source, .inr ?_⟩
    rw [State.here, hposition]
    exact ⟨h.2.endLine.symm, h.2.endColumn.symm⟩
  report h hm _ := ⟨h.1.report hm, h.2⟩
  unknown _ ht _ := ht
  await h hn classifier scope slot := by
    refine ⟨h.1, { h.2 with pending := fun b hb => ?_ }⟩
    rcases List.mem_append.1 hb with hb | hb
    · exact h.2.pending b hb
    · rw [List.mem_singleton.1 hb]
      exact hL _ ⟨h.2.source, .inl ⟨_, hn, rfl, rfl⟩⟩
  write h hd := ⟨⟨h.1.document.write hd, h.1.messages⟩, h.2⟩
  ask h _ _ := ⟨⟨h.1.document, h.1.messages⟩, h.2⟩
  rollback _ h' := ⟨⟨h'.1.document.restore _, h'.1.messages⟩,
    { h'.2 with pending := fun b hb => h'.2.pending b (List.mem_of_mem_take hb) }⟩

theorem notes_located : (Invariant.located L source tokens).Notes where
  addImport {s} h i :=
    ⟨⟨h.1.document.note (s.document.imports ++ [i]) s.document.package, h.1.messages⟩, h.2⟩
  package := maintains_package_of_any (lawful_located hL) fun s p h =>
    ⟨⟨h.1, { h.2 with }⟩,
      ⟨h.1.document.note s.document.imports (some p), h.1.messages⟩, { h.2 with }⟩

variable {checks : List Check} (hc : ∀ check ∈ checks, check.Points)

include hc

theorem admits_located :
    (Invariant.located L source tokens).Admits checks
      (Invariant.located L source tokens).state where
  visit h x := ⟨h.1.visit hc _ _, h.2⟩
  weaken h := h
  settleScope {s} h id := by
    refine located_settle h (h.1.settle hc _) fun b hb => ?_
    simp only [Session.settleScope, List.partition_eq_filter_filter] at hb
    rcases List.mem_append.1 hb with hb | hb
    · exact (List.mem_filter.1 hb).1
    · exact (List.mem_filter.1 ((Session.settle_sublist _ _).mem hb)).1
  report h ht := (lawful_located hL).report h ((lawful_located hL).locationOf h ht) rfl

theorem located_declare {s : State} (h : (Invariant.located L source tokens).state s)
    (comment : Option Comment) :
    (Invariant.located L source tokens).state (s.declare checks comment) :=
  (lawful_located hL).declare (admits_located hL hc) (fun x hs => located_register hc hs x) h
    comment

end Laws

namespace Moment

variable {settings : Settings} {root : Option SourceId} {tokens : List Token} {m m' : Moment}

/-- Every location in the session lies in the root or in a registered import, and so do those of
the names that wait, in whatever source they do. The sources that are being read are some of
these. -/
structure Located (settings : Settings) (root : Option SourceId) (tokens : List Token)
    (m : Moment) : Prop where
  session : m.state.toSession.Located (settings.Locates root tokens m.state.sources)
  readings : ∀ r ∈ m.state.toReading :: m.importers, ∃ source tokens',
    (∀ l : Location, l.Within source tokens' → settings.Locates root tokens m.state.sources l) ∧
      r.Located (settings.Locates root tokens m.state.sources) source tokens'

theorem located_start (settings : Settings) (root : Option SourceId) (tokens : List Token) :
    (start settings root tokens).Located settings root tokens := by
  have hdocument : (Session.start root).document.Located
      (settings.Locates root tokens (Session.start root).sources) := by
    refine ⟨fun x h hx => ?_, fun id s hs => ?_, fun id e he => ?_⟩
    · cases root <;> cases x <;> cases hx
    · cases root <;> cases hs
    · cases root <;> cases he
  refine ⟨⟨hdocument, fun m hm => ?_⟩, fun r hr => ?_⟩
  · cases root <;> cases hm
  · cases List.mem_singleton.1 hr
    refine ⟨root, tokens, fun l hl => .root hl, rfl, ?_, rfl, rfl,
      fun b hb => absurd hb List.not_mem_nil⟩
    exact (Cursor.rest_ofTokens tokens).symm ▸ List.suffix_rfl

/-- The state is located in the source that is read. -/
theorem Located.exists_state (h : m.Located settings root tokens) : ∃ source tokens',
    (∀ l : Location, l.Within source tokens' → settings.Locates root tokens m.state.sources l) ∧
      (Invariant.located (settings.Locates root tokens m.state.sources) source tokens').state
        m.state := by
  obtain ⟨source, tokens', hL, hr⟩ := h.readings _ List.mem_cons_self
  exact ⟨source, tokens', hL, h.session, hr⟩

/-- The reading goes on in the same source. -/
theorem Located.on {levels : Nat} {importers : List Reading} {atHead next : Bool} {s s' : State}
    (h : Located settings root tokens ⟨levels, importers, atHead, s⟩)
    (hsources : s'.sources = s.sources)
    (hstate : ∀ source tokens',
      (∀ l : Location, l.Within source tokens' → settings.Locates root tokens s.sources l) →
      (Invariant.located (settings.Locates root tokens s.sources) source tokens').state s →
      (Invariant.located (settings.Locates root tokens s.sources) source tokens').state s') :
    Located settings root tokens ⟨levels, importers, next, s'⟩ := by
  obtain ⟨source, tokens', hL, hs⟩ := h.exists_state
  have hs' := hstate source tokens' hL hs
  have hlocates : settings.Locates root tokens s'.sources =
      settings.Locates root tokens s.sources := by rw [hsources]
  refine ⟨hlocates ▸ hs'.1, fun r hr => ?_⟩
  rw [hlocates]
  rcases List.mem_cons.1 hr with rfl | hr
  · exact ⟨source, tokens', hL, hs'.2⟩
  · exact h.readings r (List.mem_cons_of_mem _ hr)

/-- The text of an import that is registered now is that of the source that is read next. -/
theorem Located.into {levels : Nat} {importers : List Reading} {s s' : State} {i : Import}
    {id : SourceId} {text : String}
    (hl : Located settings root tokens ⟨levels + 1, importers, true, s⟩) (h : s.Imports i s')
    (hf : s'.target settings i = .fresh id text) :
    Located settings root tokens ⟨levels, s'.toReading :: importers, true,
      (s'.takeIn i id).enter (s'.sources.register id).1 text⟩ := by
  obtain ⟨provider, _, hprovider, _, _, hnew, _, htext⟩ := Settings.importTarget_eq_fresh hf
  have hregister : s'.sources.register id = (id, ⟨s'.sources.sources ++ [id]⟩) :=
    Registry.register_of_new hnew
  have hread : Located settings root tokens ⟨levels + 1, importers, true, s'⟩ :=
    hl.on h.reads.sources fun _ _ hL hs =>
      ((lawful_located hL).imports hs h).1
  have hmono (l : Location) (hl : settings.Locates root tokens s'.sources l) :
      settings.Locates root tokens (s'.sources.register id).2 l := by
    refine hl.mono fun id' hid' => ?_
    rw [hregister]
    exact List.mem_append_left _ hid'
  have hmem : id ∈ (s'.sources.register id).2.sources := by
    rw [hregister]
    exact List.mem_append_right _ (List.mem_singleton_self id)
  refine ⟨⟨?_, fun m hm => hmono _ (hread.session.messages m hm)⟩, fun r hr => ?_⟩
  · exact (hread.session.document.mono hmono).note
      (s'.document.imports ++ [_]) s'.document.package
  · rcases List.mem_cons.1 hr with rfl | hr
    · refine ⟨some id, Token.tokenize text, fun l hl => .imported hprovider hmem htext hl,
        congrArg some (congrArg Prod.fst hregister), ?_, rfl, rfl,
        fun b hb => absurd hb List.not_mem_nil⟩
      exact (Cursor.rest_ofTokens _).symm ▸ List.suffix_rfl
    · obtain ⟨source, tokens', hL, hr⟩ := hread.readings r hr
      exact ⟨source, tokens', fun l hl => hmono l (hL l hl), hr.mono hmono⟩

variable (hc : ∀ check ∈ settings.checks, check.Points)

include hc

/-- Names of a source that was imported wait in the importer, but were not written there. -/
theorem Located.out {levels : Nat} {importer : Reading} {importers : List Reading} {atHead : Bool}
    {s : State} (hl : Located settings root tokens ⟨levels, importer :: importers, atHead, s⟩) :
    Located settings root tokens
      ⟨levels + 1, importers, true, .resume settings.checks importer s.ended⟩ := by
  obtain ⟨source, tokens', hL, hs⟩ := hl.exists_state
  have hended := (lawful_located hL).ended hs
  obtain ⟨source', tokens'', hL', hr⟩ :=
    hl.readings importer (List.mem_cons_of_mem _ List.mem_cons_self)
  have hleave : (Invariant.located (settings.Locates root tokens s.sources) source' tokens'').state
      (State.leave ⟨s.ended.toSession, importer⟩ s.ended) := by
    refine ⟨hended.1, { hr with pending := fun b hb => ?_ }⟩
    rcases List.mem_append.1 hb with hb | hb
    · exact hr.pending b hb
    · exact hended.2.pending b hb
  have hresume : (Invariant.located (settings.Locates root tokens s.sources) source' tokens'').state
      (.resume settings.checks importer s.ended) :=
    located_settle hleave (hleave.1.settle hc _) fun b hb => (Session.settle_sublist _ _).mem hb
  have hsources : (State.resume settings.checks importer s.ended).sources = s.sources :=
    sources_resume _ _ _
  have hlocates : settings.Locates root tokens
      (State.resume settings.checks importer s.ended).sources =
        settings.Locates root tokens s.sources := by rw [hsources]
  refine ⟨hlocates ▸ hresume.1, fun r hmem => ?_⟩
  rw [hlocates]
  rcases List.mem_cons.1 hmem with rfl | hmem
  · exact ⟨source', tokens'', hL', hresume.2⟩
  · exact hl.readings r (List.mem_cons_of_mem _ (List.mem_cons_of_mem _ hmem))

theorem Move.located (h : Move settings m m') (hs : m.situation.Sound)
    (hl : m.Located settings root tokens) : m'.Located settings root tokens := by
  cases h with
  | @declare levels importers atHead s s₁ comment h =>
    have honward := State.onward_declare settings.checks (h.sound hs) comment
    cases h.state
    exact hl.on honward.sources fun _ _ hL hs =>
      located_declare hL hc ((lawful_located hL).skipComments hs) _
  | pass h => exact hl.on h.notes.sources fun _ _ hL hs =>
      (lawful_located hL).passes (notes_located hL) hs h
  | into h hf => exact hl.into h hf
  | out h => exact hl.out hc

theorem Moves.located (h : Moves settings m m') (hs : m.situation.Sound)
    (hl : m.Located settings root tokens) : m'.Located settings root tokens := by
  induction h with
  | refl => exact hl
  | tail h hmove ih => exact hmove.located hc (Moves.sound h hs) ih

theorem Concludes.located {outcome : Outcome} (h : m.Concludes settings outcome)
    (hl : m.Located settings root tokens) :
    ∀ message ∈ outcome.messages,
      settings.Locates root tokens outcome.sources message.location := by
  obtain ⟨source, tokens', hL, hs⟩ := hl.exists_state
  cases h with
  | ended hi h =>
    have hended := (lawful_located hL).ended hs
    have hsources : (m.state.ended.toSession.finish settings.checks m.state.ended.pending).sources =
        m.state.sources := (Session.sources_finish _ _ _).trans m.state.reads_ended.sources
    rw [hsources]
    exact hended.1.finish hc hended.2.pending
  | @halted s' ha h =>
    have hsources : s'.sources = m.state.sources := h.notes.sources
    have hhalts := ((lawful_located hL).halts (notes_located hL) hs h).1.messages
    rw [← hsources] at hhalts
    exact hhalts

end Moment

/-- Every message of a session points into its root or into the text of a registered import, at
one of the tokens there or just past the last one, if this does not go over several lines. -/
theorem messages_point_into_their_sources (settings : Settings)
    (hc : ∀ check ∈ settings.checks, check.Points) :
    (∀ root text, ∀ m ∈ (settings.readText root text).messages,
      settings.PointsInto root text (settings.readText root text).sources m.location) ∧
    ∀ provider root text, settings.provider = some provider → provider.read root = .ok text →
      ∀ m ∈ (settings.readSource root).messages,
        settings.PointsInto (some root) text (settings.readSource root).sources m.location := by
  have htext (root : Option SourceId) (text : String) :
      ∀ m ∈ (settings.readText root text).messages,
        settings.PointsInto root text (settings.readText root text).sources m.location := by
    obtain ⟨m, outcome, hmoves, hconcludes⟩ := Moment.Reached.exists_conclusion
      (.refl : Moment.Reached settings root (Token.tokenize text) _)
    have hm : Moment.Reached settings root (Token.tokenize text) m := hmoves.steps
    have hlocated := hmoves.located hc (Moment.sound_start _ _ _)
      (Moment.located_start settings root _)
    rw [Settings.readText, hm.readTokens_eq hconcludes]
    exact fun message hmem => (hconcludes.located hc hlocated message hmem).pointsInto
  refine ⟨htext, fun provider root text hprovider hread => ?_⟩
  have hsource : settings.readSource root = settings.readText (some root) text := by
    simp only [Settings.readSource, hprovider, Option.map_some, hread]
  rw [hsource]
  exact htext (some root) text

/-- The default is found to be wrong when the enumeration is declared in another source. -/
theorem messages_point_into_their_sources_late :
    let shelf : Shelf := { texts := [("x", "structure S \x7b E e = b; \x7d")] }
    let settings : Settings := { provider := some shelf.provider }
    let root := SourceId.ofValue "r"
    let text := "import \x22x\x22; enum E \x7b a; \x7d"
    let outcome := settings.readText (some root) text
    (outcome.messages.map fun m =>
        (m.location.source.map (·.value), m.location.line, m.location.column)) =
      [(some "x", 1, 21)] ∧
    ∀ m ∈ outcome.messages,
      settings.PointsInto (some root) text outcome.sources m.location := by
  intro shelf settings root text outcome
  exact ⟨by decide +kernel,
    (messages_point_into_their_sources settings Check.points_standard).1 (some root) text⟩

/-- The text ends behind a comment of two lines. The message stands in the first line, where
there is neither a token nor the end of the last one. -/
theorem end_is_reported_in_first_line_of_comment :
    let text := "structure S \x7b /* a\n b */"
    let outcome := ({} : Settings).readText none text
    (outcome.messages.map fun m => (m.kind, m.location)) =
        [(.unexpectedEndOfInput, ⟨none, 1, 19⟩)] ∧
      (∀ t ∈ Token.tokenize text, (t.line, t.column) ≠ (1, 19)) ∧
      (Token.tokenize text).getLast?.map Token.stop = some (Text.byteCount text.toList) ∧
      ({} : Text.Place).after text.toList = ⟨24, 2, 6⟩ := by
  decide +kernel

end Grammar

end Idl
