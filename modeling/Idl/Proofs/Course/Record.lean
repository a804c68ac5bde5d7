import Idl.Proofs.Course.Traversal

/-!
The record of imports. What stands at the head of a source tells which import is met next, and
each move notes the import that is met and nothing else: reading a declaration, taking it back and
settling names leave the record alone. The record of a session is the sequence of the imports that
were met, up to an import that too many imports lead to, which is reported and not noted. Where
an import leads can be told from the sources that were read in the end.
-/

namespace Idl

/-- The import as it was written, whatever has become of it. -/
def Import.written (i : Import) : Import :=
  { i with resolved := none }

/-- The source that an import means, if it is one of these. -/
def Settings.resolved? (settings : Settings) (sources : Registry) (i : Import) :
    Option SourceId :=
  settings.provider.bind fun provider =>
    (provider.resolve i.location.source i.source).bind fun found => sources.get? found.value

namespace Settings

variable {settings : Settings} {sources : Registry} {i : Import} {id : SourceId}

/-- What an import is resolved to stays when more sources are registered. -/
theorem resolved?_register (h : settings.resolved? sources i = some id) {new : SourceId}
    (hnew : sources.get? new.value = none) :
    settings.resolved? (sources.register new).2 i = some id := by
  obtain ⟨provider, hprovider, h⟩ := Option.bind_eq_some_iff.1 h
  obtain ⟨found, hfound, h⟩ := Option.bind_eq_some_iff.1 h
  have hne : new.value ≠ found.value := by
    intro heq
    rw [heq, h] at hnew
    cases hnew
  rw [resolved?, hprovider, Option.bind_some, hfound, Option.bind_some,
    Registry.get?_register_of_ne _ _ hne, h]

theorem isSome_resolved?_iff : (settings.resolved? sources i).isSome ↔
    ∃ provider found, settings.provider = some provider ∧
      provider.resolve i.location.source i.source = some found ∧
      found.value ∈ sources.sources.map (·.value) := by
  have hget (value : String) :
      (∃ id, sources.get? value = some id) ↔ value ∈ sources.sources.map (·.value) := by
    rw [← Option.isSome_iff_exists, ← Option.ne_none_iff_isSome, ne_eq,
      Registry.get?_eq_none_iff, Classical.not_not]
  simp only [resolved?, Option.isSome_iff_exists, Option.bind_eq_some_iff, ← hget]
  constructor
  · rintro ⟨id, provider, hprovider, found, hfound, hid⟩
    exact ⟨provider, found, hprovider, hfound, id, hid⟩
  · rintro ⟨provider, found, hprovider, hfound, id, hid⟩
    exact ⟨id, provider, hprovider, found, hfound, hid⟩

/-- The questions about an import tell whether the source that it means was read before. -/
theorem resolved?_of_importTarget (settings : Settings) (sources : Registry) (i : Import) :
    match settings.importTarget sources i.location.source i.source with
    | .unknowable => settings.provider = none
    | .known id => settings.resolved? sources i = some id
    | .missing | .tooDeep | .closed => settings.resolved? sources i = none
    | .fresh id _ => sources.get? id.value = none ∧
        settings.resolved? (sources.register id).2 i = some (sources.register id).1 := by
  cases hprovider : settings.provider with
  | none => simp only [importTarget, hprovider]
  | some provider =>
    cases hfound : provider.resolve i.location.source i.source with
    | none => simp only [importTarget, resolved?, hprovider, hfound, Option.bind_some,
        Option.bind_none]
    | some found =>
      let id := found.importedBy i.location.source
      have hresolved (sources : Registry) :
          settings.resolved? sources i = sources.get? id.value := by
        rw [resolved?, hprovider, Option.bind_some, hfound, Option.bind_some]
        rfl
      cases hget : sources.get? id.value with
      | some known =>
        have htarget : settings.importTarget sources i.location.source i.source = .known known := by
          simp only [importTarget, hprovider, hfound, id, hget]
        rw [htarget]
        exact (hresolved sources).trans hget
      | none =>
        have hnone : settings.resolved? sources i = none := (hresolved sources).trans hget
        by_cases hdepth : settings.maxImportDepth < id.depth
        · have htarget : settings.importTarget sources i.location.source i.source = .tooDeep := by
            simp only [importTarget, hprovider, hfound, id, hget, if_pos hdepth]
          rw [htarget]
          exact hnone
        · cases hread : provider.read id with
          | error e =>
            have htarget : settings.importTarget sources i.location.source i.source = .closed := by
              simp only [importTarget, hprovider, hfound, id, hget, if_neg hdepth, hread]
            rw [htarget]
            exact hnone
          | ok text =>
            have htarget : settings.importTarget sources i.location.source i.source =
                .fresh id text := by
              simp only [importTarget, hprovider, hfound, id, hget, if_neg hdepth, hread]
            rw [htarget]
            exact ⟨hget, (hresolved _).trans (Registry.get?_register_self sources id)⟩

end Settings

namespace Document

theorem imports_fill (d : Document) (slot : Slot) (t : DataType) :
    (d.fill slot t).imports = d.imports := by
  cases slot <;> rfl

theorem Sheds.imports {d d' : Document} (h : d.Sheds d') : d'.imports = d.imports := by
  induction h with
  | refl => rfl
  | dropDefault f _ ih => exact ih
  | withdraw x _ ih => exact ih

theorem Write.imports {L : Location → Prop} {H : Heading → Prop} {d d' : Document}
    (h : d.Write L H d') : d'.imports = d.imports := by
  cases h <;> rfl

end Document

namespace Session

variable {checks : List Check} (s : Session)

theorem imports_bind (checks : List Check) (b : Binding) (t : DataType) :
    (s.bind checks b t).document.imports = s.document.imports :=
  (s.sheds_bind checks b t).imports.trans (s.document.imports_fill b.slot t)

theorem imports_settle {find : Session → Binding → Option DataType} (pending : List Binding) :
    (s.settle checks find pending).1.document.imports = s.document.imports :=
  settle_invariant (I := fun s' _ => s'.document.imports = s.document.imports)
    (fun s' _ b _ t h _ => (s'.imports_bind checks b t).trans h) s pending rfl

theorem imports_settleScope (checks : List Check) (scope : StructureId)
    (pending : List Binding) :
    (s.settleScope checks scope pending).1.document.imports = s.document.imports :=
  s.imports_settle _

theorem imports_settleAll (checks : List Check) (last : Bool) (pending : List Binding) :
    (s.settleAll checks last pending).1.document.imports = s.document.imports :=
  s.imports_settle _

theorem imports_finish (checks : List Check) (pending : List Binding) :
    (s.finish checks pending).document.imports = s.document.imports := by
  rw [document_finish]
  exact s.imports_settleAll checks true pending

end Session

namespace Grammar

section Declare

variable {imports : List Import} {checks : List Check} {s : State}

/-- These imports are noted. -/
def Invariant.notedImports (imports : List Import) : Invariant where
  state s := s.document.imports = imports
  token _ := True
  location _ := True
  heading _ := True
  name _ := True

theorem lawful_notedImports : (Invariant.notedImports imports).Lawful where
  rest h _ := h
  token _ _ := trivial
  locationOf _ _ := trivial
  heading _ _ _ _ := trivial
  ending _ _ := trivial
  report h _ _ := h
  unknown _ _ _ := trivial
  await h _ _ _ _ := h
  write h hd := hd.imports.trans h
  ask h _ _ := h
  rollback _ h' := h'

theorem admits_notedImports :
    (Invariant.notedImports imports).Admits checks (Invariant.notedImports imports).state where
  visit h _ := h
  weaken h := h
  settleScope {s} h id := (s.toSession.imports_settleScope checks id s.pending).trans h
  report h _ := h

theorem State.imports_register (s : State) (x : Declaration) :
    (s.register checks x).document.imports = s.document.imports := by
  unfold State.register
  split
  · exact Session.imports_settle _ _
  · rfl

/-- A declaration notes no import. -/
theorem State.imports_declare (s : State) (comment : Option Comment) :
    (s.declare checks comment).document.imports = s.document.imports :=
  lawful_notedImports.declare admits_notedImports
    (fun x h => (State.imports_register _ x).trans h) rfl comment

end Declare

/-- The package of a source notes no import. -/
theorem State.imports_readPackage (s : State) :
    s.readPackage.document.imports = s.document.imports := by
  have hpackage : After package s _ _ := after_package
  unfold State.readPackage
  cases hp : package s with
  | ok a s' =>
    obtain ⟨s₀, hreads, package, rfl⟩ := hpackage.of_ok hp
    rw [← hreads.document]
    simp only
    split <;> rfl
  | error e s' =>
    exact congrArg Document.imports
      ((hpackage.of_error hp).trans (reads_recoverOutside s')).document

section Statement

variable {settings : Settings} {s s' : State} {i : Import}

/-- What an import tells of itself, where its keyword stands in front. -/
theorem after_importStatement {t : Token} {rest : List Token} (hs : s.cursor.rest = t :: rest)
    (ht : t.isKeyword "import" = true) (comment : Option Comment) :
    After (importStatement comment) s
      (fun i _ => i = { source := i.source, location := s.locationOf t, comment })
      fun _ => True := by
  have hkeyword : s.current.filter (·.isKeyword "import") = some t := by
    simp [State.current, Cursor.current, hs, Option.filter, ht]
  unfold importStatement
  refine After.bind_of_run (fun a s₁ hp => ?_) fun _ _ _ => trivial
  cases (expect_of_some hkeyword).symm.trans hp
  refine After.bind ((quiet_expect _ _ _ _).mono (fun name s₂ h₂ => ?_) fun _ _ => trivial)
  refine After.bind ((quiet_expectSemicolon _).mono (fun _ s₃ h₃ => ?_) fun _ _ => trivial)
  have hsource : s₃.source = s.source := (((State.reads_advance s).trans h₂).trans h₃).source
  refine After.bind (after_get (after_pure ?_))
  rw [State.locationOf, hsource]
  rfl

namespace State

/-- The complete import that a source goes on with, as its tokens tell. -/
def importAhead? (s : State) : Option Import :=
  match s.cursor.rest.dropWhile Token.isComment with
  | [] => none
  | t :: rest =>
    if t.isKeyword "import" then
      (importName rest).1.map fun name =>
        { source := name, location := s.locationOf t, comment := s.comment? }
    else none

theorem importAhead?_eq_none (h : ∀ t, s.skipComments.current = some t →
    t.isKeyword "import" = false) : s.importAhead? = none := by
  unfold importAhead?
  split
  · rfl
  · rename_i t rest hrest
    rw [h t (congrArg List.head? hrest), if_neg Bool.false_ne_true]

/-- What is met is what can be read. -/
theorem Imports.importAhead?_eq (h : s.Imports i s') : s.importAhead? = some i := by
  obtain ⟨⟨t, hc, ht⟩, hi⟩ := h
  obtain ⟨rest, hrest⟩ := List.head?_eq_some_iff.1 hc
  have hwritten := (after_importStatement hrest ht s.comment?).of_ok hi
  rcases importStatement_run hrest ht s.comment? with
    ⟨name, i', hname, hsource, hok⟩ | ⟨_, e, s₁, herror, _⟩
  · cases hok.symm.trans hi
    change s.cursor.rest.dropWhile Token.isComment = t :: rest at hrest
    rw [importAhead?, hrest, hwritten]
    simp only [ht, if_true, hname, Option.map_some, hsource]
    rfl
  · cases herror.symm.trans hi

theorem importAhead?_of_broken {t : Token} {e : Reported} (hc : s.skipComments.current = some t)
    (ht : t.isKeyword "import" = true)
    (hi : importStatement s.comment? s.skipComments = .error e s') : s.importAhead? = none := by
  obtain ⟨rest, hrest⟩ := List.head?_eq_some_iff.1 hc
  rcases importStatement_run hrest ht s.comment? with
    ⟨name, i', _, _, hok⟩ | ⟨hname, _⟩
  · cases hok.symm.trans hi
  · change s.cursor.rest.dropWhile Token.isComment = t :: rest at hrest
    rw [importAhead?, hrest]
    simp only [ht, if_true, hname, Option.map_none]

theorem Imports.written (h : s.Imports i s') : i.written = i := by
  obtain ⟨⟨t, hc, ht⟩, hi⟩ := h
  obtain ⟨rest, hrest⟩ := List.head?_eq_some_iff.1 hc
  rw [(after_importStatement hrest ht s.comment?).of_ok hi]
  rfl

theorem Imports.location_source (h : s.Imports i s') : i.location.source = s'.source := by
  have hsource := h.reads.source
  obtain ⟨⟨t, hc, ht⟩, hi⟩ := h
  obtain ⟨rest, hrest⟩ := List.head?_eq_some_iff.1 hc
  rw [(after_importStatement hrest ht s.comment?).of_ok hi]
  exact hsource.symm

theorem Imports.target_eq (h : s.Imports i s') (settings : Settings) :
    s'.target settings i = settings.importTarget s'.sources i.location.source i.source := by
  rw [h.location_source]
  rfl

end State

end Statement

namespace Moment

variable {settings : Settings} {root : Option SourceId} {tokens : List Token} {m m' : Moment}
  {met : List Import} {outcome : Outcome}

/-- The import that is met next. -/
def importAhead? (m : Moment) : Option Import :=
  if m.atHead then m.state.importAhead? else none

/-- The imports that are met on the way from one moment to another, in their order. -/
inductive Meets (settings : Settings) (m : Moment) : List Import → Moment → Prop where
  | refl : Meets settings m [] m
  | tail {met : List Import} {m₁ m₂ : Moment} (h : Meets settings m met m₁)
      (hm : Move settings m₁ m₂) : Meets settings m (met ++ m₁.importAhead?.toList) m₂

theorem Meets.moves (h : Meets settings m met m') : Moves settings m m' := by
  induction h with
  | refl => exact .refl
  | tail _ hm ih => exact ih.tail hm

theorem Moves.exists_meets (h : Moves settings m m') : ∃ met, Meets settings m met m' := by
  induction h with
  | refl => exact ⟨[], .refl⟩
  | tail _ hm ih =>
    obtain ⟨met, h⟩ := ih
    exact ⟨_, h.tail hm⟩

/-- The imports that are noted, as they were written. -/
def record (m : Moment) : List Import :=
  m.document.imports.map Import.written

theorem importAhead?_eq_none (h : ∀ t, m.state.skipComments.current = some t → m.atHead = true →
    t.isKeyword "import" = false) : m.importAhead? = none := by
  unfold importAhead?
  split
  · rename_i ha
    exact State.importAhead?_eq_none fun t ht => h t ht ha
  · rfl

theorem importAhead?_of_imports (ha : m.atHead = true) {i : Import} {s : State}
    (h : m.state.Imports i s) : m.importAhead? = some i := by
  rw [importAhead?, ha, if_pos rfl, h.importAhead?_eq]

theorem importAhead?_of_first {t : Token} (hc : m.state.skipComments.current = some t)
    (ht : t.isKeyword "import" = false) : m.importAhead? = none := by
  refine importAhead?_eq_none fun t' ht' _ => ?_
  cases hc.symm.trans ht'
  exact ht

/-- No import is met, and none is noted. -/
structure Leaves (m m' : Moment) : Prop where
  ahead : m.importAhead? = none
  imports : m'.document.imports = m.document.imports
  sources : m'.state.sources = m.state.sources

/-- The import that is met is noted, with what it means. It stays without a source only where
there is no provider to ask; what other imports mean stays. -/
structure Takes (settings : Settings) (m m' : Moment) (i : Import) (id? : Option SourceId) :
    Prop where
  ahead : m.importAhead? = some i
  written : i.written = i
  imports : m'.document.imports = m.document.imports ++ [{ i with resolved := id? }]
  resolved : id? = settings.resolved? m'.state.sources i
  provided : id? = none → settings.provider = none
  kept : ∀ i' id, settings.resolved? m.state.sources i' = some id →
    settings.resolved? m'.state.sources i' = some id

theorem leaves_or_takes_of_passes {next : Bool} {s : State}
    (h : State.Passes settings m.atHead m.state next s) :
    m.Leaves { m with atHead := next, state := s } ∨
      ∃ i id?, m.Takes settings { m with atHead := next, state := s } i id? := by
  have hsources := h.notes.sources
  cases h with
  | @unknowable i s' ha h ht =>
    have hprovider := settings.resolved?_of_importTarget s'.sources i
    rw [← h.target_eq, ht] at hprovider
    have hresolved (sources : Registry) : none = settings.resolved? sources i := by
      rw [Settings.resolved?, hprovider, Option.bind_none]
    refine .inr ⟨i, none, importAhead?_of_imports ha h, h.written, ?_, hresolved _,
      fun _ => hprovider, fun i' id hid => ?_⟩
    · exact (congrArg (·.imports ++ [i]) h.reads.document).trans
        (congrArg (m.document.imports ++ [·]) h.written.symm)
    · rwa [hsources]
  | @known i s' id ha h ht =>
    have hresolved := settings.resolved?_of_importTarget s'.sources i
    rw [← h.target_eq, ht] at hresolved
    refine .inr ⟨i, some id, importAhead?_of_imports ha h, h.written, ?_, hresolved.symm, nofun,
      fun i' id hid => ?_⟩
    · exact congrArg (·.imports ++ [{ i with resolved := some id }]) h.reads.document
    · rwa [hsources]
  | @brokenImport t e s₁ ha hc ht hi =>
    have himport : m.state.skipComments.Reads s₁ :=
      (quiet_importStatement _ m.state.skipComments).of_error hi
    have hreads := himport.trans (State.reads_recoverOutside s₁)
    refine .inl ⟨?_, congrArg Document.imports hreads.document, hsources⟩
    rw [importAhead?, if_pos ha]
    exact State.importAhead?_of_broken hc ht hi
  | @package t ha hc ht =>
    refine .inl ⟨importAhead?_of_first hc ?_, m.state.skipComments.imports_readPackage, hsources⟩
    simp only [Token.isKeyword, Token.is, Bool.and_eq_true, beq_iff_eq] at ht ⊢
    simp [ht.2]
  | @stray t hc hk =>
    refine .inl ⟨importAhead?_of_first hc ?_,
      congrArg Document.imports (State.reads_readStatement hk).document, hsources⟩
    simp [Token.isKeyword, Token.is, hk]

/-- A move notes the import that is met, if there is one, and nothing else. -/
theorem Move.leaves_or_takes (h : Move settings m m') (hs : m.situation.Sound) :
    m.Leaves m' ∨ ∃ i id?, m.Takes settings m' i id? := by
  cases h with
  | @declare levels importers atHead s s₁ comment h =>
    have ho := State.onward_declare settings.checks (h.sound hs) comment
    obtain ⟨hstate, t, hc, _, hfirst⟩ := h
    cases hstate
    refine .inl ⟨importAhead?_eq_none fun t' ht' ha => ?_, State.imports_declare _ _, ho.sources⟩
    cases hc.symm.trans ht'
    exact (hfirst ha).1
  | pass h => exact leaves_or_takes_of_passes (m := ⟨_, _, _, _⟩) h
  | @into levels importers s s' i id text h hf =>
    have htarget := settings.resolved?_of_importTarget s'.sources i
    rw [← h.target_eq, hf] at htarget
    refine .inr ⟨i, some (s'.sources.register id).1, importAhead?_of_imports rfl h, h.written, ?_,
      htarget.2.symm, nofun, fun i' id' hid => ?_⟩
    · exact congrArg (·.imports ++ [{ i with resolved := some (s'.sources.register id).1 }])
        h.reads.document
    · rw [← h.reads.sources] at hid
      exact Settings.resolved?_register hid htarget.1
  | @out levels importer importers atHead s h =>
    have hsettle := s.ended.toSession.imports_settleAll settings.checks false
      (importer.pending ++ s.ended.pending)
    refine .inl ⟨importAhead?_eq_none fun t ht _ => ?_,
      hsettle.trans (congrArg Document.imports s.reads_ended.document),
      sources_resume _ _ _⟩
    cases h.symm.trans ht

theorem Move.record_eq (h : Move settings m m') (hs : m.situation.Sound) :
    m'.record = m.record ++ m.importAhead?.toList := by
  rcases h.leaves_or_takes hs with h | ⟨i, id?, h⟩
  · rw [record, h.imports, h.ahead, Option.toList_none, List.append_nil, record]
  · have hwritten : Import.written { i with resolved := id? } = i := h.written
    rw [record, h.imports, h.ahead, List.map_append, List.map_singleton, hwritten,
      Option.toList_some, record]

theorem Meets.record_eq (h : Meets settings m met m') (hs : m.situation.Sound) :
    m'.record = m.record ++ met := by
  induction h with
  | refl => rw [List.append_nil]
  | tail h hm ih => rw [hm.record_eq (h.moves.sound hs), ih, List.append_assoc]

/-- The imports were resolved to what they mean among the sources that were read. -/
structure Resolves (settings : Settings) (m : Moment) : Prop where
  resolved : ∀ i ∈ m.document.imports, i.resolved = settings.resolved? m.state.sources i
  provided : ∀ i ∈ m.document.imports, i.resolved = none → settings.provider = none

theorem resolves_start (settings : Settings) (root : Option SourceId) (tokens : List Token) :
    (start settings root tokens).Resolves settings := by
  have hnone : (start settings root tokens).document.imports = [] := by cases root <;> rfl
  exact ⟨by simp [hnone], by simp [hnone]⟩

theorem Move.resolves (h : Move settings m m') (hs : m.situation.Sound)
    (hr : m.Resolves settings) : m'.Resolves settings := by
  rcases h.leaves_or_takes hs with h | ⟨i, id?, h⟩
  · refine ⟨fun i hi => ?_, fun i hi => hr.provided i (h.imports ▸ hi)⟩
    rw [h.sources]
    exact hr.resolved i (h.imports ▸ hi)
  · refine ⟨fun i' hi => ?_, fun i' hi => ?_⟩
    all_goals
      rw [h.imports, List.mem_append, List.mem_singleton] at hi
      rcases hi with hi | rfl
    · have hold := hr.resolved i' hi
      cases hid : i'.resolved with
      | some id => exact (h.kept i' id (hold.symm.trans hid)).symm
      | none => rw [Settings.resolved?, hr.provided i' hi hid, Option.bind_none]
    · exact h.resolved
    · exact hr.provided i' hi
    · exact h.provided

theorem Moves.resolves (h : Moves settings m m') (hs : m.situation.Sound)
    (hr : m.Resolves settings) : m'.Resolves settings := by
  induction h with
  | refl => exact hr
  | tail h hm ih => exact hm.resolves (Moves.sound h hs) ih

/-- Too many imports lead to what is imported next. -/
def TooDeep (settings : Settings) (m : Moment) : Prop :=
  ∃ i s, m.state.Imports i s ∧ s.target settings i = .tooDeep

theorem TooDeep.target_eq (h : m.TooDeep settings) {i : Import} {s : State}
    (hi : m.state.Imports i s) : s.target settings i = .tooDeep := by
  obtain ⟨i', s', hi', ht⟩ := h
  cases hi'.read.symm.trans hi.read
  exact ht

/-- The outcome has noted what was met, and the import that stops the session unless too many
imports lead to it. -/
theorem Concludes.record_eq (h : m.Concludes settings outcome) :
    (¬ m.TooDeep settings →
      outcome.document.imports.map Import.written = m.record ++ m.importAhead?.toList) ∧
    (m.TooDeep settings → outcome.document.imports.map Import.written = m.record) := by
  cases h with
  | ended hi hend =>
    have himports := (m.state.ended.toSession.imports_finish settings.checks
      m.state.ended.pending).trans (congrArg Document.imports m.state.reads_ended.document)
    have hahead : m.importAhead? = none :=
      importAhead?_eq_none fun t ht _ => by cases hend.symm.trans ht
    rw [himports, hahead, Option.toList_none, List.append_nil]
    exact ⟨fun _ => rfl, fun _ => rfl⟩
  | halted ha hh =>
    cases hh with
    | @missing i s hi ht | @closed i s hi ht =>
      refine ⟨fun _ => ?_, fun hdeep => by cases ht.symm.trans (hdeep.target_eq hi)⟩
      have himports : (s.document.imports ++ [i]).map Import.written =
          m.record ++ [i.written] := by
        rw [hi.reads.document, List.map_append, List.map_singleton, record, document]
      rw [importAhead?_of_imports ha hi, Option.toList_some]
      exact himports.trans (congrArg (m.record ++ [·]) hi.written)
    | @tooDeep i s hi ht =>
      refine ⟨fun hdeep => absurd ⟨i, s, hi, ht⟩ hdeep, fun _ => ?_⟩
      exact congrArg (List.map Import.written ·.imports) hi.reads.document

theorem Concludes.resolved (h : m.Concludes settings outcome) (hr : m.Resolves settings) :
    ∀ i ∈ outcome.document.imports, i.resolved = settings.resolved? outcome.sources i := by
  have hsources := h.sources_eq
  cases h with
  | ended hi hend =>
    have himports := (m.state.ended.toSession.imports_finish settings.checks
      m.state.ended.pending).trans (congrArg Document.imports m.state.reads_ended.document)
    intro i hi
    rw [hsources]
    exact hr.resolved i (himports ▸ hi)
  | halted ha hh =>
    rw [hsources]
    have hunread {i : Import} {s : State} (h : m.state.Imports i s)
        (htarget : settings.resolved? s.sources i = none) :
        ∀ i' ∈ s.document.imports ++ [i], i'.resolved =
          settings.resolved? m.state.sources i' := by
      intro i' hi'
      rw [h.reads.document, List.mem_append, List.mem_singleton] at hi'
      rcases hi' with hi' | rfl
      · exact hr.resolved i' hi'
      · rw [← h.reads.sources, htarget, ← h.written]
        rfl
    cases hh with
    | @missing i s hi ht | @closed i s hi ht =>
      have htarget := settings.resolved?_of_importTarget s.sources i
      rw [← hi.target_eq, ht] at htarget
      exact hunread hi htarget
    | @tooDeep i s hi ht =>
      intro i' hi'
      change i' ∈ s.document.imports at hi'
      rw [hi.reads.document] at hi'
      exact hr.resolved i' hi'

/-- The record of a session, whatever it imports, is the sequence of the complete imports that
are met at the heads of its sources, each noted once. An import that fails stops the session and
is the last one; only where it fails because too many imports lead to its source it is missing
in the record. An import is resolved if and only if the source that it means was read: it is the
root, or one of the sources that were entered. -/
theorem imports_are_recorded (settings : Settings) (root : Option SourceId) (text : String) :
    (∃ met m, Meets settings (start settings root (Token.tokenize text)) met m ∧
      m.Concludes settings (settings.readText root text)) ∧
    ∀ met ids m, Meets settings (start settings root (Token.tokenize text)) met m →
      Journey settings (start settings root (Token.tokenize text)) ids m →
      m.Concludes settings (settings.readText root text) →
      (¬ m.TooDeep settings → (settings.readText root text).document.imports.map Import.written =
        met ++ m.importAhead?.toList) ∧
      (m.TooDeep settings →
        (settings.readText root text).document.imports.map Import.written = met) ∧
      ∀ i ∈ (settings.readText root text).document.imports,
        i.resolved = settings.resolved? (settings.readText root text).sources i ∧
        (i.resolved.isSome ↔ ∃ provider found, settings.provider = some provider ∧
          provider.resolve i.location.source i.source = some found ∧
          found.value ∈ (root.toList ++ ids).map (·.value)) := by
  have hsound := sound_start settings root (Token.tokenize text)
  refine ⟨?_, fun met ids m hmet hids hconcludes => ?_⟩
  · obtain ⟨m, outcome, hmoves, hconcludes⟩ := Reached.exists_conclusion
      (.refl : Reached settings root (Token.tokenize text) _)
    obtain ⟨met, hmet⟩ := hmoves.exists_meets
    have houtcome : settings.readText root text = outcome :=
      Reached.readTokens_eq hmoves.steps hconcludes
    exact ⟨met, m, hmet, houtcome ▸ hconcludes⟩
  · have hstart : (start settings root (Token.tokenize text)).record = [] := by
      cases root <;> rfl
    have hrecord : m.record = met := by rw [hmet.record_eq hsound, hstart, List.nil_append]
    have hsources : (settings.readText root text).sources.sources = root.toList ++ ids := by
      rw [hconcludes.sources_eq, hids.sources_eq hsound]
      cases root <;> rfl
    have hresolves := hmet.moves.resolves hsound (resolves_start settings root _)
    refine ⟨fun h => hrecord ▸ hconcludes.record_eq.1 h,
      fun h => hrecord ▸ hconcludes.record_eq.2 h, fun i hi => ?_⟩
    have hresolved := hconcludes.resolved hresolves i hi
    refine ⟨hresolved, ?_⟩
    rw [← hsources, ← Settings.isSome_resolved?_iff, ← hresolved]

/-- The imported source imports the root, and then a source that is missing. -/
theorem imports_are_recorded_missing :
    let shelf : Shelf := { texts := [("r", ""), ("a", "import \x22r\x22; import \x22x\x22;")] }
    let settings : Settings := { provider := some shelf.provider }
    let root := SourceId.ofValue "r"
    let text := "import \x22a\x22; import \x22b\x22;"
    let imports := (settings.readText (some root) text).document.imports
    imports.map (fun i => (i.source, i.resolved.map (·.value))) =
        [("a", some "a"), ("r", some "r"), ("x", none)] ∧
      ∃ met m, Meets settings (start settings (some root) (Token.tokenize text)) met m ∧
        (m.TooDeep settings ∧ imports.map Import.written = met ∨
          imports.map Import.written = met ++ m.importAhead?.toList) ∧
        ∀ i ∈ imports,
          i.resolved = settings.resolved? (settings.readText (some root) text).sources i := by
  intro shelf settings root text imports
  obtain ⟨⟨met, m, hmet, hconcludes⟩, hall⟩ := imports_are_recorded settings (some root) text
  obtain ⟨ids, hids⟩ := hmet.moves.exists_journey
  obtain ⟨hrecord, hdeep, hresolved⟩ := hall met ids m hmet hids hconcludes
  refine ⟨by decide +kernel, met, m, hmet, ?_, fun i hi => (hresolved i hi).1⟩
  by_cases h : m.TooDeep settings
  · exact .inl ⟨h, hdeep h⟩
  · exact .inr (hrecord h)

/-- The import is met, and it is reported, but it is not noted. -/
theorem too_deep_import_is_not_recorded :
    let shelf : Shelf := { texts := [("a", "")] }
    let settings : Settings := { provider := some shelf.provider, maxImportDepth := 0 }
    let root := some (SourceId.ofValue "r")
    let text := "import \x22a\x22;"
    ((start settings root (Token.tokenize text)).importAhead?.map fun i =>
        (i.source, i.location.line, i.location.column)) = some ("a", 1, 1) ∧
      ((settings.readText root text).messages.map fun m =>
        (m.kind, m.location.line, m.location.column)) = [(.importDepthExceeded, 1, 1)] ∧
      (settings.readText root text).document.imports = [] := by
  decide +kernel

end Moment

end Grammar

end Idl
