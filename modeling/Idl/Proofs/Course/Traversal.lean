import Idl.Proofs.Course.Move
import Idl.Proofs.Source.Search

/-!
The way of a session through its sources. What is left to search at a moment is known from the
imports that are still ahead in the innermost source and in its importers; every move leaves the
result of the search as it is. So the sources are read in the order of the search, and an import
stops the reading where the search breaks off.
-/

namespace Idl

namespace Grammar

namespace State

variable {s s' : State}

/-- An import that can be read takes its tokens and nothing else. -/
theorem Imports.headImports_eq {i : Import} (h : s.Imports i s') :
    headImports s.cursor.rest = i.source :: headImports s'.cursor.rest ∧
      s' = { s with cursor := s'.cursor } := by
  obtain ⟨⟨t, hc, ht⟩, hi⟩ := h
  obtain ⟨rest, hrest⟩ := List.head?_eq_some_iff.1 hc
  rw [headImports_of_import hrest ht]
  rcases importStatement_run hrest ht s.comment? with
    ⟨name, i', hname, hsource, hok⟩ | ⟨_, e, s₁, herror, _⟩
  · cases hok.symm.trans hi
    rw [hname, hsource]
    exact ⟨rfl, rfl⟩
  · cases herror.symm.trans hi

theorem headImports_of_broken {t : Token} {e : Reported} (hc : s.skipComments.current = some t)
    (ht : t.isKeyword "import" = true)
    (hi : importStatement s.comment? s.skipComments = .error e s') :
    headImports s.cursor.rest = headImports s'.recoverOutside.cursor.rest := by
  obtain ⟨rest, hrest⟩ := List.head?_eq_some_iff.1 hc
  rw [headImports_of_import hrest ht]
  rcases importStatement_run hrest ht s.comment? with
    ⟨name, i', _, _, hok⟩ | ⟨hname, e, s₁, herror, hleft⟩
  · cases hok.symm.trans hi
  · cases herror.symm.trans hi
    rw [hname, hleft]
    rfl

end State

namespace Moment

/-- How many imports may follow upon each other from a source on. -/
def room (settings : Settings) (source : Option SourceId) : Nat :=
  settings.maxImportDepth + 1 - distance source

/-- The names of the sources that were entered by now. -/
def known (m : Moment) : List String :=
  m.state.sources.sources.map (·.value)

/-- The imports that are still to be read in the innermost source. -/
def ahead (m : Moment) : List String :=
  if m.atHead then headImports m.state.cursor.rest else []

section Search

variable {settings : Settings} {shelf : Shelf} {m m' : Moment}

/-- The search for what importers still import. -/
def searchOn (settings : Settings) (shelf : Shelf) (importers : List Reading)
    (order : List String) : Except (List String × String) (List String) :=
  importers.foldlM (fun order importer =>
    shelf.visitAll (room settings importer.source) order (headImports importer.cursor.rest)) order

/-- What is left of the search at a moment. -/
def searchFrom (settings : Settings) (shelf : Shelf) (m : Moment) :
    Except (List String × String) (List String) :=
  shelf.visitAll (room settings m.state.source) m.known m.ahead >>=
    searchOn settings shelf m.importers

/-- To follow an import is to visit its name. -/
theorem visit_of_importTarget (hprovider : settings.provider = some shelf.provider)
    (registry : Registry) (importer : Option SourceId) (name : String) :
    let order := registry.sources.map (·.value)
    let visited := shelf.visit (room settings importer) order name
    match settings.importTarget registry importer name with
    | .unknowable => False
    | .known _ => visited = .ok order
    | .missing | .tooDeep | .closed => visited = .error (order, name)
    | .fresh id text => id.value = name ∧
        visited = shelf.visitAll (room settings (some id)) (order ++ [name])
          (headImports (Token.tokenize text)) := by
  simp only [Settings.importTarget, hprovider, Shelf.provider]
  cases hfound : shelf.find? name with
  | none => exact Shelf.visit_of_missing hfound
  | some found =>
    have hfind := Shelf.value_of_find? hfound
    have hvalue : (found.importedBy importer).value = name := hfind
    have hsome : (shelf.find? name).isSome = true := by rw [hfound]; rfl
    simp only [hvalue, depth_importedBy]
    cases hget : registry.get? name with
    | some known =>
      refine Shelf.visit_of_seen hsome (Decidable.byContradiction fun hnew => ?_)
      rw [Registry.get?_eq_none_iff.2 hnew] at hget
      cases hget
    | none =>
      have hnew := Registry.get?_eq_none_iff.1 hget
      by_cases hdepth : settings.maxImportDepth < distance importer
      · have hroom : room settings importer = 0 := by
          unfold room
          omega
        simp only [hdepth, if_true, hroom]
        exact Shelf.visit_zero hsome hnew
      · have hroom : room settings importer =
            room settings (some (found.importedBy importer)) + 1 := by
          simp only [room, distance_some, depth_importedBy]
          omega
        simp only [hdepth, if_false]
        cases hread : shelf.read name with
        | error e => exact Shelf.visit_of_closed hsome hnew hread
        | ok text =>
          refine ⟨hvalue, ?_⟩
          rw [hroom]
          exact Shelf.visit_of_new hsome hnew hread

theorem ahead_eq_nil (h : ∀ t, m.state.skipComments.current = some t → m.atHead = true →
    t.isKeyword "import" = false) : m.ahead = [] := by
  unfold ahead
  split
  · rename_i ha
    exact headImports_eq_nil fun t ht => h t ht ha
  · rfl

theorem ahead_of_imports (ha : m.atHead = true) {i : Import} {s : State}
    (h : m.state.Imports i s) : m.ahead = i.source :: headImports s.cursor.rest := by
  rw [ahead, ha, if_pos rfl, h.headImports_eq.1]

theorem searchFrom_congr (hsource : m'.state.source = m.state.source)
    (hsources : m'.state.sources = m.state.sources) (hahead : m'.ahead = m.ahead)
    (himporters : m'.importers = m.importers) :
    m'.searchFrom settings shelf = m.searchFrom settings shelf := by
  rw [searchFrom, searchFrom, known, known, hsource, hsources, hahead, himporters]

theorem searchFrom_of_passes (hprovider : settings.provider = some shelf.provider) {next : Bool}
    {s : State} (h : State.Passes settings m.atHead m.state next s) :
    ({ m with atHead := next, state := s } : Moment).searchFrom settings shelf =
      m.searchFrom settings shelf := by
  have hn := h.notes
  cases h with
  | @unknowable i s' ha h ht =>
    have hvisit := visit_of_importTarget hprovider s'.sources s'.source i.source
    rw [State.target] at ht
    simp only [ht] at hvisit
  | @known i s' id ha h ht =>
    have hvisit := visit_of_importTarget hprovider s'.sources s'.source i.source
    rw [State.target] at ht
    simp only [ht] at hvisit
    rw [h.reads.sources, h.reads.source] at hvisit
    rw [searchFrom, searchFrom, ahead_of_imports ha h, Shelf.visitAll_cons, known, known]
    simp only [hvisit, hn.sources, hn.source]
    rfl
  | brokenImport ha hc ht hi =>
    refine searchFrom_congr hn.source hn.sources ?_ rfl
    rw [ahead, ahead, ha, if_pos rfl, if_pos rfl]
    exact (State.headImports_of_broken hc ht hi).symm
  | @package t ha hc ht =>
    refine searchFrom_congr hn.source hn.sources ?_ rfl
    refine (ahead_eq_nil fun _ _ ha => by cases ha).trans (ahead_eq_nil fun t' ht' _ => ?_).symm
    cases hc.symm.trans ht'
    simp only [Token.isKeyword, Token.is, Bool.and_eq_true, beq_iff_eq] at ht ⊢
    simp [ht.2]
  | @stray t hc hk =>
    refine searchFrom_congr hn.source hn.sources ?_ rfl
    refine (ahead_eq_nil fun _ _ ha => by cases ha).trans (ahead_eq_nil fun t' ht' _ => ?_).symm
    cases hc.symm.trans ht'
    simp [Token.isKeyword, Token.is, hk]

theorem Move.searchFrom_eq (hprovider : settings.provider = some shelf.provider)
    (h : Move settings m m') (hs : m.situation.Sound) :
    m'.searchFrom settings shelf = m.searchFrom settings shelf := by
  cases h with
  | @declare levels importers atHead s s₁ comment h =>
    have ho := State.onward_declare settings.checks (h.sound hs) comment
    obtain ⟨hstate, t, hc, _, hfirst⟩ := h
    cases hstate
    refine searchFrom_congr ho.source ho.sources ?_ rfl
    refine (ahead_eq_nil fun _ _ ha => by cases ha).trans (ahead_eq_nil fun t' ht' ha => ?_).symm
    cases hc.symm.trans ht'
    exact (hfirst ha).1
  | pass h => exact searchFrom_of_passes (m := ⟨_, _, _, _⟩) hprovider h
  | @into levels importers s s' i id text h hf =>
    have hvisit := visit_of_importTarget hprovider s'.sources s'.source i.source
    rw [State.target] at hf
    simp only [hf] at hvisit
    obtain ⟨hvalue, hvisit⟩ := hvisit
    obtain ⟨_, _, _, _, _, hnew, _, _⟩ := Settings.importTarget_eq_fresh hf
    have hahead := ahead_of_imports (m := ⟨levels + 1, importers, true, s⟩) rfl h
    rw [h.reads.sources, h.reads.source] at hvisit
    have hnewId : (s'.sources.register id).1 = id := by rw [Registry.register_of_new hnew]
    have hknown : known ⟨levels, s'.toReading :: importers, true,
        (s'.takeIn i id).enter (s'.sources.register id).1 text⟩ =
          s.sources.sources.map (·.value) ++ [i.source] := by
      change ((s'.sources.register id).2.sources).map (·.value) = _
      rw [Registry.register_of_new hnew, h.reads.sources, List.map_append, ← hvalue]
      rfl
    rw [searchFrom, searchFrom, hknown, hahead, Shelf.visitAll_cons]
    change shelf.visitAll (room settings (some (s'.sources.register id).1)) _
        (headImports (Cursor.ofText text).rest) >>= (fun order =>
          shelf.visitAll (room settings s'.source) order (headImports s'.cursor.rest) >>=
            searchOn settings shelf importers) =
      (shelf.visit (room settings s.source) (s.sources.sources.map (·.value)) i.source >>=
          fun order => shelf.visitAll (room settings s.source) order
            (headImports s'.cursor.rest)) >>=
        searchOn settings shelf importers
    rw [hvisit, hnewId, h.reads.source, bind_assoc, Cursor.ofText, Cursor.rest_ofTokens]
  | @out levels importer importers atHead s h =>
    have hahead : ahead ⟨levels, importer :: importers, atHead, s⟩ = [] :=
      ahead_eq_nil fun t ht _ => by cases h.symm.trans ht
    have hsources : (State.resume settings.checks importer s.ended).sources = s.sources :=
      sources_resume _ _ _
    rw [searchFrom, searchFrom, hahead, known, hsources]
    rfl

theorem Moves.searchFrom_eq (hprovider : settings.provider = some shelf.provider)
    (h : Moves settings m m') (hs : m.situation.Sound) :
    m'.searchFrom settings shelf = m.searchFrom settings shelf := by
  induction h with
  | refl => rfl
  | tail h hmove ih => exact (hmove.searchFrom_eq hprovider (Moves.sound h hs)).trans ih

/-- Where the session concludes, the search is at its end or breaks off. -/
theorem Concludes.searchFrom_eq (hprovider : settings.provider = some shelf.provider)
    {outcome : Outcome} (h : m.Concludes settings outcome) :
    (m.searchFrom settings shelf = .ok m.known ∧ m.importers = [] ∧
      m.state.skipComments.current = none) ∨
    ∃ i s s', m.searchFrom settings shelf = .error (m.known, i.source) ∧ m.atHead = true ∧
      m.state.Imports i s ∧ m.state.Halts settings s' ∧
      outcome = .ofSession s'.toSession false := by
  cases h with
  | ended hi h =>
    have hahead : m.ahead = [] := ahead_eq_nil fun t ht _ => by cases h.symm.trans ht
    refine .inl ⟨?_, hi, h⟩
    rw [searchFrom, hahead, hi]
    rfl
  | @halted s' ha hh =>
    have hbreaks {i : Import} {s : State} (h : m.state.Imports i s)
        (hvisit : shelf.visit (room settings s.source) (s.sources.sources.map (·.value)) i.source =
          .error (s.sources.sources.map (·.value), i.source)) :
        m.searchFrom settings shelf = .error (m.known, i.source) := by
      rw [h.reads.sources, h.reads.source] at hvisit
      rw [searchFrom, ahead_of_imports ha h, Shelf.visitAll_cons, known, hvisit]
      rfl
    have hall := hh
    cases hh with
    | @missing i s h ht | @tooDeep i s h ht | @closed i s h ht =>
      have hvisit := visit_of_importTarget hprovider s.sources s.source i.source
      rw [State.target] at ht
      simp only [ht] at hvisit
      exact .inr ⟨i, s, _, hbreaks h hvisit, ha, h, hall, rfl⟩

end Search

/-- The source that is entered from one moment to the next. -/
def entered (m m' : Moment) : List SourceId :=
  if m.importers.length < m'.importers.length then m'.state.source.toList else []

/-- The sources that are entered by moves, one after the other. -/
inductive Journey (settings : Settings) (m : Moment) : List SourceId → Moment → Prop where
  | refl : Journey settings m [] m
  | tail {ids : List SourceId} {m₁ m₂ : Moment} (h : Journey settings m ids m₁)
      (hm : Move settings m₁ m₂) : Journey settings m (ids ++ entered m₁ m₂) m₂

section Journey

variable {settings : Settings} {shelf : Shelf} {m m' : Moment} {ids : List SourceId}

theorem Journey.moves (h : Journey settings m ids m') : Moves settings m m' := by
  induction h with
  | refl => exact .refl
  | tail _ hm ih => exact ih.tail hm

theorem Moves.exists_journey (h : Moves settings m m') : ∃ ids, Journey settings m ids m' := by
  induction h with
  | refl => exact ⟨[], .refl⟩
  | tail _ hm ih =>
    obtain ⟨ids, hj⟩ := ih
    exact ⟨_, hj.tail hm⟩

/-- A source is registered when it is entered, and only then. -/
theorem Move.sources_eq (h : Move settings m m') (hs : m.situation.Sound) :
    m'.state.sources.sources = m.state.sources.sources ++ entered m m' := by
  cases h with
  | @declare levels importers atHead s s₁ comment h =>
    have ho := State.onward_declare settings.checks (h.sound hs) comment
    cases h.state
    simp only [entered, Nat.lt_irrefl, if_false, List.append_nil]
    rw [ho.sources]
    rfl
  | pass h =>
    simp only [entered, Nat.lt_irrefl, if_false, List.append_nil]
    rw [h.notes.sources]
  | @into levels importers s s' i id text h hf =>
    simp only [entered, List.length_cons, Nat.lt_succ_self, if_true]
    change (s'.sources.register id).2.sources =
      s.sources.sources ++ [(s'.sources.register id).1]
    rw [(h.register_eq hf).2]
  | @out levels importer importers atHead s h =>
    have hsources : (State.resume settings.checks importer s.ended).sources = s.sources :=
      sources_resume _ _ _
    have hshorter : ¬ importers.length + 1 < importers.length := by omega
    simp only [entered, List.length_cons, hshorter, if_false, List.append_nil, hsources]

theorem Journey.sources_eq (h : Journey settings m ids m') (hs : m.situation.Sound) :
    m'.state.sources.sources = m.state.sources.sources ++ ids := by
  induction h with
  | refl => rw [List.append_nil]
  | tail h hm ih => rw [hm.sources_eq (h.moves.sound hs), ih, List.append_assoc]

/-- The sources that are entered are on the shelf. -/
theorem Journey.isSome_find? (hprovider : settings.provider = some shelf.provider)
    (h : Journey settings m ids m') {id : SourceId} (hid : id ∈ ids) :
    (shelf.find? id.value).isSome = true := by
  induction h with
  | refl => cases hid
  | tail _ hm ih =>
    rcases List.mem_append.1 hid with hid | hid
    · exact ih hid
    · cases hm with
      | @into levels importers s s' i id' text h hf =>
        obtain ⟨provider, _, hp, _, _, hnew, _, hread⟩ := Settings.importTarget_eq_fresh hf
        cases hprovider.symm.trans hp
        simp only [entered, List.length_cons, Nat.lt_succ_self, if_true, State.enter,
          Option.mem_toList, Registry.register_of_new hnew] at hid
        cases hid
        exact Shelf.isSome_find?_of_read hread
      | declare | pass =>
        simp only [entered, Nat.lt_irrefl, if_false] at hid
        cases hid
      | @out levels importer importers atHead s h =>
        have hshorter : ¬ importers.length + 1 < importers.length := by omega
        simp only [entered, List.length_cons, hshorter, if_false] at hid
        cases hid

theorem Concludes.sources_eq {outcome : Outcome} (h : m.Concludes settings outcome) :
    outcome.sources = m.state.sources := by
  cases h with
  | ended hi h =>
    rw [Session.finish_eq]
    have hf := Session.follows_settleAll settings.checks m.state.ended.toSession true
      m.state.ended.pending
    have hsources := hf.sources.trans m.state.reads_ended.sources
    split <;> exact hsources
  | halted ha h => exact h.notes.sources

/-- An import of a source that was entered already leaves nothing but itself. -/
theorem pass_of_known (hprovider : settings.provider = some shelf.provider) (ha : m.atHead = true)
    {i : Import} {s : State} (h : m.state.Imports i s)
    (hk : (shelf.find? i.source).isSome = true) (hknown : i.source ∈ m.known) :
    ∃ s', Move settings m { m with state := s' } ∧ s'.messages = m.state.messages ∧
      s'.document.declarations = m.state.document.declarations ∧ s'.pending = m.state.pending ∧
      s'.sources = m.state.sources := by
  obtain ⟨levels, importers, atHead, state⟩ := m
  cases ha
  have hvisit := visit_of_importTarget hprovider s.sources s.source i.source
  have hseen : shelf.visit (room settings s.source) (s.sources.sources.map (·.value)) i.source =
      .ok (s.sources.sources.map (·.value)) := by
    refine Shelf.visit_of_seen hk ?_
    rw [h.reads.sources]
    exact hknown
  have hstate := h.headImports_eq.2
  cases ht : settings.importTarget s.sources s.source i.source with
  | known id =>
    refine ⟨_, .pass (.known rfl h ht), ?_⟩
    rw [hstate]
    exact ⟨rfl, rfl, rfl, rfl⟩
  | fresh id text =>
    obtain ⟨_, _, _, _, _, hnew, _, _⟩ := Settings.importTarget_eq_fresh ht
    simp only [ht] at hvisit
    rw [Registry.get?_eq_none_iff, hvisit.1, h.reads.sources] at hnew
    exact absurd hknown hnew
  | unknowable => simp only [ht] at hvisit
  | missing | tooDeep | closed =>
    simp only [ht] at hvisit
    cases hseen.symm.trans hvisit

end Journey

section Root

variable {settings : Settings} {shelf : Shelf} {root : SourceId} {text : String}

theorem readSource_eq (hprovider : settings.provider = some shelf.provider)
    (hopen : shelf.read root.value = .ok text) :
    settings.readSource root = settings.readTokens (some root) (Token.tokenize text) := by
  have hread : settings.provider.map (Provider.read · root) = some (.ok text) := by
    rw [hprovider]
    exact congrArg some hopen
  rw [Settings.readSource, hread]
  rfl

theorem searchFrom_start (settings : Settings) (shelf : Shelf) (root : SourceId) (text : String) :
    (start settings (some root) (Token.tokenize text)).searchFrom settings shelf =
      shelf.search (settings.maxImportDepth - root.depth) root.value text := by
  have hroom : room settings (some root) = settings.maxImportDepth - root.depth :=
    Nat.add_sub_add_right _ _ _
  rw [← hroom]
  change shelf.visitAll _ _ (headImports (Cursor.ofTokens (Token.tokenize text)).rest) >>= pure = _
  rw [Cursor.rest_ofTokens, bind_pure]
  rfl

/-- The sources of a session are entered as the search on the shelf meets them: each source that
the root leads to once, in depth-first order. An import stops the session where the search
breaks off, and then nothing behind it is read; otherwise every source is read to its end.
An import of a source that was entered before adds nothing but itself. -/
theorem sources_are_searched_depth_first (hprovider : settings.provider = some shelf.provider)
    (hopen : shelf.read root.value = .ok text) :
    (∃ ids m, Journey settings (start settings (some root) (Token.tokenize text)) ids m ∧
      m.Concludes settings (settings.readSource root)) ∧
    (∀ ids m, Journey settings (start settings (some root) (Token.tokenize text)) ids m →
      m.Concludes settings (settings.readSource root) →
      (settings.readSource root).sources.sources = root :: ids ∧
      ((root :: ids).map (·.value)).Nodup ∧
      match shelf.search (settings.maxImportDepth - root.depth) root.value text with
      | .ok order => (root :: ids).map (·.value) = order ∧
          (∀ name, name ∈ order ↔ Relation.ReflTransGen shelf.Leads root.value name) ∧
          m.importers = [] ∧ m.state.skipComments.current = none
      | .error (order, name) => (root :: ids).map (·.value) = order ∧
          (∀ name ∈ order, Relation.ReflTransGen shelf.Leads root.value name) ∧
          ∃ i s s', m.state.Imports i s ∧ i.source = name ∧ m.state.Halts settings s' ∧
            settings.readSource root = .ofSession s'.toSession false) ∧
    ((∃ e s, source settings settings.levels (.root (some root) (Token.tokenize text)) =
        .error e s) ↔
      ∃ fault, shelf.search (settings.maxImportDepth - root.depth) root.value text =
        .error fault) ∧
    ∀ m i s, Reached settings (some root) (Token.tokenize text) m → m.atHead = true →
      m.state.Imports i s → i.source ∈ m.known →
      ∃ s', Move settings m { m with state := s' } ∧ s'.messages = m.state.messages ∧
        s'.document.declarations = m.state.document.declarations ∧
        s'.pending = m.state.pending ∧ s'.sources = m.state.sources := by
  let first := start settings (some root) (Token.tokenize text)
  have hsound : first.situation.Sound := sound_start settings (some root) _
  have hread := readSource_eq hprovider hopen
  have houtcome {m : Moment} {outcome : Outcome} (hm : Moves settings first m)
      (hc : m.Concludes settings outcome) : outcome = settings.readSource root :=
    (Reached.readTokens_eq hm.steps hc).symm.trans hread.symm
  have hsources {ids : List SourceId} {m : Moment} (hj : Journey settings first ids m) :
      m.state.sources.sources = root :: ids := hj.sources_eq hsound
  have hsearch {ids : List SourceId} {m : Moment} (hj : Journey settings first ids m) :
      m.searchFrom settings shelf =
        shelf.search (settings.maxImportDepth - root.depth) root.value text :=
    (hj.moves.searchFrom_eq hprovider hsound).trans (searchFrom_start settings shelf root text)
  obtain ⟨last, outcome, hlast, hconcludes⟩ :=
    Moment.exists_conclusion hsound (leveled_start settings (some root) (Token.tokenize text))
  obtain ⟨path, hpath⟩ := hlast.exists_journey
  refine ⟨⟨path, last, hpath, houtcome hlast hconcludes ▸ hconcludes⟩, fun ids m hj hc => ?_,
    ?_, fun m i s hm ha h hknown => ?_⟩
  · have hknown : m.known = (root :: ids).map (·.value) := by rw [known, hsources hj]
    have hnodup := Shelf.nodup_search hopen (settings.maxImportDepth - root.depth)
    have hreach (name : String) := Shelf.reach_of_mem_search hopen
      (settings.maxImportDepth - root.depth) name
    refine ⟨by rw [hc.sources_eq, hsources hj], ?_⟩
    rw [← hknown]
    rcases hc.searchFrom_eq hprovider with ⟨hend, hi, hnone⟩ | ⟨i, s, s', hbreak, _, h, hh, ho⟩
    · have hok := (hsearch hj).symm.trans hend
      rw [hok] at hnodup
      rw [hok]
      exact ⟨hnodup, rfl, fun name => Shelf.mem_search_iff hopen hok, hi, hnone⟩
    · have herror := (hsearch hj).symm.trans hbreak
      rw [herror] at hnodup hreach
      rw [herror]
      exact ⟨hnodup, rfl, hreach, i, s, s', h, rfl, hh, ho⟩
  · rw [← searchFrom_start, ← hlast.searchFrom_eq hprovider hsound]
    rcases hconcludes.searchFrom_eq hprovider with
      ⟨hend, hi, hnone⟩ | ⟨i, s, s', hbreak, ha, h, hh, ho⟩
    · have hsource := Reached.source_of_ended hlast.steps hi hnone
      rw [hend, hsource]
      constructor
      · rintro ⟨_, _, h⟩
        cases h
      · rintro ⟨_, h⟩
        cases h
    · obtain ⟨s'', hsource, _⟩ := Reached.source_of_halted hlast.steps ha hh
      exact ⟨fun _ => ⟨_, hbreak⟩, fun _ => ⟨_, _, hsource⟩⟩
  · obtain ⟨ids, hj⟩ := hm.moves.exists_journey
    refine pass_of_known hprovider ha h ?_ hknown
    rw [known, hsources hj, List.map_cons] at hknown
    rcases List.mem_cons.1 hknown with hroot | hknown
    · rw [hroot]
      exact Shelf.isSome_find?_of_read hopen
    · obtain ⟨id, hid, hvalue⟩ := List.mem_map.1 hknown
      rw [← hvalue]
      exact hj.isSome_find? hprovider hid

/-- A root that imports itself, and two sources of which one imports the other and that the root. -/
theorem sources_are_searched_depth_first_in_cycle :
    let shelf : Shelf :=
      { texts := [("r", "import \x22a\x22; import \x22r\x22; import \x22b\x22;"),
          ("a", "import \x22b\x22;"), ("b", "import \x22r\x22; import")] }
    let settings : Settings := { provider := some shelf.provider }
    settings.provider = some shelf.provider ∧
      shelf.read "r" = .ok "import \x22a\x22; import \x22r\x22; import \x22b\x22;" ∧
      (settings.readSource (.ofValue "r")).sources.sources.map (·.value) = ["r", "a", "b"] ∧
      ["r", "a", "b"].Nodup := by
  intro shelf settings
  have hopen : shelf.read "r" = .ok "import \x22a\x22; import \x22r\x22; import \x22b\x22;" := rfl
  have hsearch : (shelf.search (settings.maxImportDepth - (SourceId.ofValue "r").depth) "r"
      "import \x22a\x22; import \x22r\x22; import \x22b\x22;").toOption = some ["r", "a", "b"] := by
    decide +kernel
  obtain ⟨⟨ids, m, hj, hc⟩, hall, _⟩ :=
    @sources_are_searched_depth_first settings shelf (.ofValue "r") _ rfl hopen
  obtain ⟨hsources, hnodup, horder⟩ := hall ids m hj hc
  split at horder
  · rename_i order heq
    rw [show shelf.search _ "r" _ = .ok order from heq] at hsearch
    cases hsearch
    exact ⟨rfl, hopen, by rw [hsources]; exact horder.1, horder.1 ▸ hnodup⟩
  · rename_i order name heq
    rw [show shelf.search _ "r" _ = .error (order, name) from heq] at hsearch
    cases hsearch

end Root

end Moment

end Grammar

end Idl
