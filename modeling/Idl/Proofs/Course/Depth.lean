import Idl.Proofs.Course.Success

/-!
How deep sources are nested. The distance that an import is judged by comes from the importers
that an identity knows; it is the number of the sources above the importer, and one more if the
root has an identity. So the limit is exact below a root that has one, and a root without one is
not counted among the sources that lead to an import.
-/

namespace Idl

open Grammar

theorem Message.Ordinary.kind_ne_importDepthExceeded {m : Message} (h : m.Ordinary) :
    m.kind ≠ .importDepthExceeded := by
  intro heq
  have hkind := h.kind
  rw [heq] at hkind
  cases hkind

/-- The question whether too many imports lead to a source is asked when it is known that the
source was not read before. -/
theorem Settings.importTarget_eq_tooDeep_iff {settings : Settings} {registry : Registry}
    {importer : Option SourceId} {name : String} :
    settings.importTarget registry importer name = .tooDeep ↔
      ∃ provider found, settings.provider = some provider ∧
        provider.resolve importer name = some found ∧ registry.get? found.value = none ∧
        settings.maxImportDepth < Moment.distance importer := by
  constructor
  · intro h
    unfold importTarget at h
    split at h
    · cases h
    · rename_i provider hprovider
      split at h
      · cases h
      · rename_i found hfound
        simp only at h
        split at h
        · cases h
        · rename_i hnew
          split at h
          · rename_i hdepth
            rw [Moment.depth_importedBy] at hdepth
            exact ⟨provider, found, hprovider, hfound, hnew, hdepth⟩
          · split at h <;> cases h
  · rintro ⟨provider, found, hprovider, hfound, hnew, hdepth⟩
    have hnew' : registry.get? (found.importedBy importer).value = none := hnew
    simp only [importTarget, hprovider, hfound, hnew', Moment.depth_importedBy, if_pos hdepth]

/-- How deep a source can be nested in a root. Where the root has importers of its own, they
count. -/
def Settings.nestingLimit (settings : Settings) : Option SourceId → Nat
  | none => settings.maxImportDepth + 1
  | some root => settings.maxImportDepth - root.depth

namespace Grammar

/-- What is reported of an import that too many imports lead to. -/
def tooDeeplyNested (settings : Settings) (i : Import) : Message :=
  .of .importDepthExceeded i.location
    [(.source, i.source), (.depth, toString settings.maxImportDepth)]

namespace Moment

/-- How many sources the innermost one is nested in. -/
def nesting (m : Moment) : Nat :=
  m.importers.length

/-- The next statement is an import of a source that was not read before. -/
structure Discovers (settings : Settings) (m : Moment) (i : Import) (s : State) (id : SourceId) :
    Prop where
  atHead : m.atHead = true
  imports : m.state.Imports i s
  meant : ∃ provider found, settings.provider = some provider ∧
    provider.resolve s.source i.source = some found ∧ id = found.importedBy s.source
  unread : s.sources.get? id.value = none

/-- Each source is one import further from its root than its importer. -/
def Stacked (outermost : Nat) : List (Option SourceId) → Prop
  | [] => True
  | source :: importers =>
    distance source = importers.length + outermost ∧ Stacked outermost importers

/-- The sources that are being read are as far from the root as they are nested in it, and not
nested too deeply. -/
structure Nested (settings : Settings) (root : Option SourceId) (m : Moment) : Prop where
  stacked : Stacked (distance root) m.stack
  bounded : m.nesting ≤ settings.nestingLimit root

variable {settings : Settings} {root : Option SourceId} {tokens : List Token} {m m' : Moment}

/-- One more source fits in if and only if not too many imports lead to it. -/
theorem lt_nestingLimit_iff (settings : Settings) (root : Option SourceId) (n : Nat) :
    n < settings.nestingLimit root ↔ n + distance root ≤ settings.maxImportDepth := by
  cases root with
  | none =>
    simp only [Settings.nestingLimit, distance]
    omega
  | some id =>
    simp only [Settings.nestingLimit, distance_some]
    omega

theorem nested_start (settings : Settings) (root : Option SourceId) (tokens : List Token) :
    (start settings root tokens).Nested settings root :=
  ⟨⟨(Nat.zero_add _).symm, trivial⟩, Nat.zero_le _⟩

theorem Nested.distance_eq (h : m.Nested settings root) :
    distance m.state.source = m.nesting + distance root := by
  have hstack := h.stacked.1
  rwa [List.length_map] at hstack

theorem Move.nested (h : Move settings m m') (hs : m.situation.Sound)
    (hn : m.Nested settings root) : m'.Nested settings root := by
  cases h with
  | @declare levels importers atHead s s₁ comment h =>
    have hsource : (s₁.declare settings.checks comment).source = s.source := by
      have ho := (State.onward_declare settings.checks (h.sound hs) comment).source
      cases h.state
      exact ho
    have hstacked := hn.stacked
    simp only [stack, ← hsource] at hstacked
    exact ⟨hstacked, hn.bounded⟩
  | pass h =>
    have hstacked := hn.stacked
    simp only [stack, ← h.notes.source] at hstacked
    exact ⟨hstacked, hn.bounded⟩
  | @into levels importers s s' i id text h hf =>
    obtain ⟨provider, found, _, _, rfl, hnew, hdepth, _⟩ := Settings.importTarget_eq_fresh hf
    have hsource : s'.source = s.source := h.reads.source
    have hhere : distance s.source = importers.length + distance root := hn.distance_eq
    have hfurther : distance (some (found.importedBy s'.source)) = distance s.source + 1 := by
      rw [distance_some, depth_importedBy, hsource]
    rw [depth_importedBy, hsource, hhere] at hdepth
    rw [Registry.register_of_new hnew]
    refine ⟨⟨?_, ?_⟩, (lt_nestingLimit_iff settings root importers.length).2 hdepth⟩
    · change distance (some (found.importedBy s'.source)) =
        (s'.source :: importers.map Reading.source).length + distance root
      rw [List.length_cons, List.length_map]
      omega
    · change Stacked (distance root) (s'.source :: importers.map Reading.source)
      exact hsource ▸ hn.stacked
  | @out levels importer importers atHead s h =>
    exact ⟨hn.stacked.2, Nat.le_of_succ_le hn.bounded⟩

theorem Moves.nested (h : Moves settings m m') (hs : m.situation.Sound)
    (hn : m.Nested settings root) : m'.Nested settings root := by
  induction h with
  | refl => exact hn
  | tail h hmove ih => exact hmove.nested (Moves.sound h hs) ih

theorem Reached.nested (h : Reached settings root tokens m) : m.Nested settings root :=
  h.moves.nested (sound_start _ _ _) (nested_start _ _ _)

namespace Discovers

variable {i : Import} {s : State} {id : SourceId}

theorem target_tooDeep (h : m.Discovers settings i s id)
    (hdepth : settings.maxImportDepth < distance m.state.source) :
    s.target settings i = .tooDeep := by
  obtain ⟨provider, found, hprovider, hfound, rfl⟩ := h.meant
  rw [← h.imports.reads.source] at hdepth
  exact Settings.importTarget_eq_tooDeep_iff.2
    ⟨provider, found, hprovider, hfound, h.unread, hdepth⟩

theorem target_fresh (h : m.Discovers settings i s id)
    (hdepth : distance m.state.source ≤ settings.maxImportDepth) {text : String}
    (htext : settings.provider.map (·.read id) = some (.ok text)) :
    s.target settings i = .fresh id text := by
  obtain ⟨provider, found, hprovider, hfound, rfl⟩ := h.meant
  have hread : provider.read (found.importedBy s.source) = .ok text := by
    simpa [hprovider] using htext
  rw [← h.imports.reads.source] at hdepth
  simp only [State.target, Settings.importTarget, hprovider, hfound, h.unread, depth_importedBy,
    if_neg (Nat.not_lt.2 hdepth), hread]

/-- Only an import that discovers a source is found to be nested too deeply. -/
theorem of_tooDeep (ha : m.atHead = true) (hi : m.state.Imports i s)
    (ht : s.target settings i = .tooDeep) :
    (∃ id, m.Discovers settings i s id) ∧
      settings.maxImportDepth < distance m.state.source := by
  obtain ⟨provider, found, hprovider, hfound, hnew, hdepth⟩ :=
    Settings.importTarget_eq_tooDeep_iff.1 ht
  exact ⟨⟨_, ha, hi, ⟨provider, found, hprovider, hfound, rfl⟩, hnew⟩,
    hi.reads.source ▸ hdepth⟩

end Discovers

/-- Where one more source fits in, the source that is discovered is read. -/
theorem Reached.into_of_discovers (hm : Reached settings root tokens m) {i : Import} {s : State}
    {id : SourceId} (h : m.Discovers settings i s id)
    (hlimit : m.nesting < settings.nestingLimit root) {text : String}
    (htext : settings.provider.map (·.read id) = some (.ok text)) :
    ∃ m', Reached settings root tokens m' ∧ m'.nesting = m.nesting + 1 ∧
      m'.state.source = some id ∧ m'.state.cursor = .ofText text := by
  rw [lt_nestingLimit_iff, ← hm.nested.distance_eq] at hlimit
  have hf := h.target_fresh hlimit htext
  obtain ⟨levels, importers, atHead, s₀⟩ := m
  cases h.atHead
  cases levels with
  | zero => exact absurd (hm.moves_leveled.2.pos h.imports hf) (Nat.lt_irrefl 0)
  | succ levels =>
    refine ⟨_, Relation.ReflTransGen.tail hm (Move.into h.imports hf).step, rfl, ?_, rfl⟩
    exact congrArg (some ·.1) (Registry.register_of_new h.unread)

/-- Where no more fits in, the import ends the session. -/
theorem Reached.readTokens_of_discovers (hm : Reached settings root tokens m) {i : Import}
    {s : State} {id : SourceId} (h : m.Discovers settings i s id)
    (hlimit : settings.nestingLimit root ≤ m.nesting) :
    settings.readTokens root tokens =
      .ofSession (s.report (tooDeeplyNested settings i)).toSession false := by
  rw [← Nat.not_lt, lt_nestingLimit_iff, ← hm.nested.distance_eq, Nat.not_le] at hlimit
  exact hm.readTokens_eq (.halted h.atHead (.tooDeep h.imports (h.target_tooDeep hlimit)))

/-- A message about an import that is nested too deeply comes from such an import. -/
theorem discovers_of_mem_messages
    (hc : ∀ check ∈ settings.checks, check.Speaks fun m => m.kind ≠ .importDepthExceeded)
    {message : Message} (hmem : message ∈ (settings.readTokens root tokens).messages)
    (hkind : message.kind = .importDepthExceeded) :
    ∃ m i s id, Reached settings root tokens m ∧ m.Discovers settings i s id ∧
      settings.nestingLimit root ≤ m.nesting := by
  have hordinary (m : Message) (h : m.Ordinary) : m.kind ≠ .importDepthExceeded :=
    h.kind_ne_importDepthExceeded
  obtain ⟨m, outcome, hmoves, hconcludes⟩ := Reached.exists_conclusion
    (.refl : Reached settings root tokens (start settings root tokens))
  have hm : Reached settings root tokens m := hmoves.steps
  have hsilent := hm.forall_messages hordinary hc
  rw [hm.readTokens_eq hconcludes] at hmem
  cases hconcludes with
  | ended hi h =>
    have hended := (m.state.tells_ended hordinary).forall hsilent
    exact absurd hkind (Session.forall_messages_finish _ _ hordinary hc hended _ hmem)
  | halted ha h =>
    -- The message of an import that failed comes behind all others.
    have hlast {i : Import} {s s' : State} {failure : Message} (hi : m.state.Imports i s)
        (hs : s'.messages = s.messages ++ [failure])
        (hmem : message ∈ s'.messages) : message = failure := by
      rw [hs, hi.silent.messages, List.append_nil] at hmem
      refine (List.mem_append.1 hmem).elim (fun h => absurd hkind (hsilent _ h)) ?_
      exact List.mem_singleton.1
    cases h with
    | missing hi ht | closed hi ht =>
      cases hlast hi rfl hmem
      cases hkind
    | tooDeep hi ht =>
      obtain ⟨⟨id, hdiscovers⟩, hdepth⟩ := Discovers.of_tooDeep ha hi ht
      refine ⟨m, _, _, id, hm, hdiscovers, ?_⟩
      rwa [← Nat.not_lt, lt_nestingLimit_iff, ← hm.nested.distance_eq, Nat.not_le]

/-- The limit is exact. No source is nested deeper than it says; a source that is discovered is
read if it fits in, and ends the session if it does not; and no other import is said to be
nested too deeply. Below a root with an identity the limit is the one that is set, and below a
root without one it is one more. -/
theorem import_depth_limit_is_exact
    (hc : ∀ check ∈ settings.checks, check.Speaks fun m => m.kind ≠ .importDepthExceeded)
    (root : Option SourceId) (tokens : List Token) :
    (∀ id, root = some id → id.importers = [] →
      settings.nestingLimit root = settings.maxImportDepth) ∧
    (root = none → settings.nestingLimit root = settings.maxImportDepth + 1) ∧
    (∀ m, Reached settings root tokens m → m.nesting ≤ settings.nestingLimit root) ∧
    (∀ m i s id, Reached settings root tokens m → m.Discovers settings i s id →
      (m.nesting + 1 ≤ settings.nestingLimit root →
        ∀ text, settings.provider.map (·.read id) = some (.ok text) →
          ∃ m', Reached settings root tokens m' ∧ m'.nesting = m.nesting + 1 ∧
            m'.state.source = some id ∧ m'.state.cursor = .ofText text) ∧
      (settings.nestingLimit root < m.nesting + 1 →
        settings.readTokens root tokens =
          .ofSession (s.report (tooDeeplyNested settings i)).toSession false)) ∧
    ((∃ message ∈ (settings.readTokens root tokens).messages,
        message.kind = .importDepthExceeded) ↔
      ∃ m i s id, Reached settings root tokens m ∧ m.Discovers settings i s id ∧
        settings.nestingLimit root < m.nesting + 1) := by
  refine ⟨?_, ?_, fun m hm => hm.nested.bounded, fun m i s id hm h => ⟨fun hlimit text htext =>
    hm.into_of_discovers h hlimit htext, fun hlimit =>
      hm.readTokens_of_discovers h (Nat.le_of_lt_succ hlimit)⟩, ?_, ?_⟩
  · rintro id rfl hid
    simp [Settings.nestingLimit, SourceId.depth, hid]
  · rintro rfl
    rfl
  · rintro ⟨message, hmem, hkind⟩
    obtain ⟨m, i, s, id, hm, h, hlimit⟩ := discovers_of_mem_messages hc hmem hkind
    exact ⟨m, i, s, id, hm, h, Nat.lt_succ_of_le hlimit⟩
  · rintro ⟨m, i, s, id, hm, h, hlimit⟩
    rw [hm.readTokens_of_discovers h (Nat.le_of_lt_succ hlimit)]
    exact ⟨tooDeeplyNested settings i, List.mem_append_right _ (List.mem_singleton_self _), rfl⟩

/-- The second import of a chain is nested too deeply where only one may lead to a source. -/
theorem import_depth_limit_is_exact_chain :
    let shelf : Shelf := { texts := [("a", "import \"b\";"), ("b", "")] }
    let settings : Settings := { provider := some shelf.provider, maxImportDepth := 1 }
    let root := some (SourceId.ofValue "r")
    let tokens := Token.tokenize "import \"a\";"
    (∀ check ∈ settings.checks, check.Speaks fun m => m.kind ≠ .importDepthExceeded) ∧
      settings.nestingLimit root = 1 ∧
      (∀ m, Reached settings root tokens m → m.nesting ≤ settings.nestingLimit root) ∧
      ∃ m i s id, Reached settings root tokens m ∧ m.Discovers settings i s id ∧
        settings.nestingLimit root < m.nesting + 1 := by
  intro shelf settings root tokens
  have hc : ∀ check ∈ settings.checks, check.Speaks fun m => m.kind ≠ .importDepthExceeded :=
    fun check hcheck d subject m hm =>
      (Check.speaks_standard check hcheck d subject m hm).kind_ne_importDepthExceeded
  have hmessage : (settings.readTokens root tokens).messages.any
      (·.kind == .importDepthExceeded) = true := by decide +kernel
  obtain ⟨hidentified, _, hbounded, _, hreported⟩ := import_depth_limit_is_exact hc root tokens
  refine ⟨hc, hidentified _ rfl rfl, hbounded, hreported.1 ?_⟩
  simpa using hmessage

/-- A root without an identity is not counted: no import may lead to a source here, and yet one
is read. -/
theorem nested_deeper_below_anonymous_root :
    let shelf : Shelf := { texts := [("a", "")] }
    let settings : Settings := { provider := some shelf.provider, maxImportDepth := 0 }
    let tokens := Token.tokenize "import \"a\";"
    let outcome := settings.readTokens none tokens
    outcome.ok = true ∧ outcome.messages = [] ∧
      ∃ m, Reached settings none tokens m ∧ settings.maxImportDepth < m.nesting := by
  intro shelf settings tokens outcome
  let m := start settings none tokens
  have hword : (m.state.skipComments.current.any (·.isKeyword "import")) = true := by
    decide +kernel
  have hread : ((importStatement m.state.comment?).run' m.state.skipComments).any
      (·.source == "a") = true := by decide +kernel
  refine ⟨by decide +kernel, by decide +kernel, ?_⟩
  cases hi : importStatement m.state.comment? m.state.skipComments with
  | error e s =>
    delta EStateM.run' EStateM.run at hread
    rw [hi] at hread
    cases hread
  | ok i s =>
    delta EStateM.run' EStateM.run at hread
    rw [hi] at hread
    have hsource : i.source = "a" := by simpa using hread
    have himports : m.state.Imports i s := ⟨(Option.any_eq_true _ _).1 hword, hi⟩
    have hfound : shelf.provider.resolve s.source i.source = some (.ofValue "a") := by
      rw [hsource]
      rfl
    have hunread : s.sources.get? "a" = none := by
      rw [himports.reads.sources]
      rfl
    have hdiscovers : m.Discovers settings i s ((SourceId.ofValue "a").importedBy s.source) :=
      ⟨rfl, himports, ⟨_, _, rfl, hfound, rfl⟩, hunread⟩
    have hstart : Reached settings none tokens m := .refl
    have htext : settings.provider.map (·.read ((SourceId.ofValue "a").importedBy s.source)) =
        some (.ok "") := rfl
    obtain ⟨m', hm', hnesting, _⟩ := hstart.into_of_discovers hdiscovers (by decide) htext
    exact ⟨m', hm', hnesting ▸ Nat.zero_lt_one⟩

end Moment

end Grammar

end Idl
