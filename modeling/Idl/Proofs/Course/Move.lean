import Idl.Proofs.Course.Ending
import Idl.Proofs.Course.Statement

/-!
Moves, the smallest steps of a session: none of them covers more than one statement. Every
moment that is reached is reached by moves, and from every moment moves lead to a last one, from
which the outcome is known. So there is always a level left for an import that leads to a source.
-/

namespace Idl.Grammar

namespace Moment

inductive Move (settings : Settings) : Moment → Moment → Prop where
  | declare {levels : Nat} {importers : List Reading} {atHead : Bool} {s s₁ : State}
      {comment : Option Comment} (h : Declares ⟨levels, importers, atHead, s⟩ comment s₁) :
      Move settings ⟨levels, importers, atHead, s⟩
        ⟨levels, importers, false, s₁.declare settings.checks comment⟩
  | pass {levels : Nat} {importers : List Reading} {atHead next : Bool} {s s' : State}
      (h : State.Passes settings atHead s next s') :
      Move settings ⟨levels, importers, atHead, s⟩ ⟨levels, importers, next, s'⟩
  | into {levels : Nat} {importers : List Reading} {s s' : State} {i : Import} {id : SourceId}
      {text : String} (h : s.Imports i s') (hf : s'.target settings i = .fresh id text) :
      Move settings ⟨levels + 1, importers, true, s⟩
        ⟨levels, s'.toReading :: importers, true,
          (s'.takeIn i id).enter (s'.sources.register id).1 text⟩
  | out {levels : Nat} {importer : Reading} {importers : List Reading} {atHead : Bool}
      {s : State} (h : s.skipComments.current = none) :
      Move settings ⟨levels, importer :: importers, atHead, s⟩
        ⟨levels + 1, importers, true, .resume settings.checks importer s.ended⟩

def Moves (settings : Settings) : Moment → Moment → Prop :=
  Relation.ReflTransGen (Move settings)

theorem Declares.remaining_lt {m : Moment} {comment : Option Comment} {s : State}
    (h : m.Declares comment s) (checks : List Check) :
    (s.declare checks comment).remaining < m.state.remaining := by
  obtain ⟨t, hc, hk, _⟩ := h.first
  have hcloses : isClosing t = false := by simp [isClosing, Token.is, hk]
  have hskip : s.remaining ≤ m.state.remaining := by
    cases h.state
    exact m.state.cursor.skipComments_rest_length_le
  exact Nat.lt_of_lt_of_le (State.remaining_declare_lt hc hcloses comment) hskip

section Single

variable {settings : Settings} {m m' : Moment}

theorem Move.step (h : Move settings m m') : Step settings m m' := by
  cases h with
  | declare h => exact .past (h.statementRound_eq settings _) (h.remaining_lt settings.checks)
  | pass h => exact .past (h.statementRound_eq _) h.remaining_lt
  | into h hf =>
    obtain ⟨t, hc, ht⟩ := h.first
    exact .into hc ht h.read hf
  | out h => exact .out (State.statementRound_ended h _ _)

end Single

section Levels

/-- How many sources lead to what a source imports. -/
def distance : Option SourceId → Nat
  | none => 0
  | some id => id.depth + 1

/-- The levels that are left and the distance of the source make up the same number for a source
and for all its importers. -/
def Balanced (total : Nat) : Nat → List (Option SourceId) → Prop
  | _, [] => True
  | levels, source :: importers =>
    levels + distance source = total ∧ Balanced total (levels + 1) importers

/-- There are levels left for every import that may lead to a source. -/
def Leveled (settings : Settings) (m : Moment) : Prop :=
  ∃ total, settings.maxImportDepth < total ∧
    Balanced total m.levels (m.state.source :: m.importers.map Reading.source)

variable {settings : Settings} {m m' : Moment}

theorem distance_some (id : SourceId) : distance (some id) = id.depth + 1 :=
  rfl

theorem depth_importedBy (id : SourceId) (importer : Option SourceId) :
    (id.importedBy importer).depth = distance importer := by
  cases importer with
  | none => rfl
  | some i => rfl

theorem leveled_start (settings : Settings) (root : Option SourceId) (tokens : List Token) :
    (start settings root tokens).Leveled settings :=
  ⟨settings.maxImportDepth + 1 + distance root, by omega, rfl, trivial⟩

theorem Move.leveled (h : Move settings m m') (hs : m.situation.Sound)
    (hl : m.Leveled settings) : m'.Leveled settings := by
  obtain ⟨total, htotal, hl⟩ := hl
  refine ⟨total, htotal, ?_⟩
  cases h with
  | @declare levels importers atHead s s₁ comment h =>
    have hsource : (s₁.declare settings.checks comment).source = s.source := by
      have ho := (State.onward_declare settings.checks (h.sound hs) comment).source
      cases h.state
      exact ho
    rwa [hsource]
  | pass h => rwa [h.notes.source]
  | @into levels importers s s' i id text h hf =>
    obtain ⟨provider, found, _, _, rfl, hnew, _, _⟩ := Settings.importTarget_eq_fresh hf
    have hsource : s'.source = s.source := h.reads.source
    have hfurther : distance (some (found.importedBy s'.source)) = distance s.source + 1 := by
      rw [distance_some, depth_importedBy, hsource]
    rw [Registry.register_of_new hnew]
    obtain ⟨htop, hrest⟩ := hl
    change levels + 1 + distance s.source = total at htop
    refine ⟨?_, ?_, hrest⟩
    · change levels + distance (some (found.importedBy s'.source)) = total
      omega
    · exact hsource ▸ htop
  | out h => exact hl.2

theorem Leveled.pos (hl : m.Leveled settings) {i : Import} {s : State} {id : SourceId}
    {text : String} (h : m.state.Imports i s) (hf : s.target settings i = .fresh id text) :
    0 < m.levels := by
  obtain ⟨total, htotal, htop, _⟩ := hl
  obtain ⟨provider, found, _, _, rfl, _, hdepth, _⟩ := Settings.importTarget_eq_fresh hf
  rw [depth_importedBy, h.reads.source] at hdepth
  omega

end Levels

section Run

variable {settings : Settings} {root : Option SourceId} {tokens : List Token} {m m' : Moment}

theorem Move.sound (h : Move settings m m') (hs : m.situation.Sound) : m'.situation.Sound :=
  (h.step.turns hs).sound hs

namespace Moves

theorem steps (h : Moves settings m m') : Steps settings m m' :=
  Relation.ReflTransGen.mono (fun _ _ => Move.step) _ _ h

theorem sound (h : Moves settings m m') (hs : m.situation.Sound) : m'.situation.Sound :=
  (h.steps.turns hs).sound hs

theorem leveled (h : Moves settings m m') (hs : m.situation.Sound) (hl : m.Leveled settings) :
    m'.Leveled settings := by
  induction h with
  | refl => exact hl
  | tail h hmove ih => exact hmove.leveled (sound h hs) ih

end Moves

/-- The moment at the end of the innermost source, or at an import that fails. -/
inductive Pauses (settings : Settings) : Moment → Moment → Prop where
  | ended {levels : Nat} {importers : List Reading} {atHead atHead' : Bool} {s s' : State}
      (h : s'.skipComments.current = none)
      (hi : iterate (statementRound settings (source settings levels)) atHead s =
        .ok () s'.ended) :
      Pauses settings ⟨levels, importers, atHead, s⟩ ⟨levels, importers, atHead', s'⟩
  | halted {levels : Nat} {importers : List Reading} {atHead : Bool} {s s' s'' : State}
      {m' : Moment} {e : Stopped} (ha : m'.atHead = true) (h : m'.state.Halts settings s')
      (hi : iterate (statementRound settings (source settings levels)) atHead s = .error e s'') :
      Pauses settings ⟨levels, importers, atHead, s⟩ m'

/-- Moves lead to the end of the innermost source, or to an import that fails. The induction is
on the levels, for the sources that are read in between, and on the tokens that are left. -/
theorem exists_pause (levels : Nat) : ∀ (importers : List Reading) (atHead : Bool) (s : State),
    (⟨levels, importers, atHead, s⟩ : Moment).situation.Sound →
    (⟨levels, importers, atHead, s⟩ : Moment).Leveled settings →
    ∃ m', Moves settings ⟨levels, importers, atHead, s⟩ m' ∧
      Pauses settings ⟨levels, importers, atHead, s⟩ m' := by
  induction levels using Nat.strongRecOn with
  | ind levels outer =>
    intro importers atHead s
    induction hn : s.remaining using Nat.strongRecOn generalizing atHead s with
    | ind n inner =>
      intro hs hl
      -- A statement behind which the same source goes on.
      have hgo {next : Bool} {s₁ : State}
          (hmoves : Moves settings ⟨levels, importers, atHead, s⟩ ⟨levels, importers, next, s₁⟩)
          (hs₁ : (⟨levels, importers, next, s₁⟩ : Moment).situation.Sound)
          (hl₁ : (⟨levels, importers, next, s₁⟩ : Moment).Leveled settings)
          (hround : statementRound settings (source settings levels) atHead s =
            .ok (.again next) s₁) (hlt : s₁.remaining < s.remaining) :
          ∃ m', Moves settings ⟨levels, importers, atHead, s⟩ m' ∧
            Pauses settings ⟨levels, importers, atHead, s⟩ m' := by
        obtain ⟨m', hm, hp⟩ := inner s₁.remaining (hn ▸ hlt) next s₁ rfl hs₁ hl₁
        have heq := iterate_of_again hround hlt
        refine ⟨m', hmoves.trans hm, ?_⟩
        cases hp with
        | ended h hi => exact .ended h (heq.trans hi)
        | halted ha h hi => exact .halted ha h (heq.trans hi)
      rcases (⟨levels, importers, atHead, s⟩ : Moment).next settings with
        h | h | @⟨i, s₂, id, text, ha, h, hf⟩ | ⟨ha, h⟩ | h
      · have hmove : Move settings ⟨levels, importers, atHead, s⟩ _ := .declare h
        exact hgo (.single hmove) (hmove.sound hs) (hmove.leveled hs hl)
          (h.statementRound_eq settings _) (h.remaining_lt settings.checks)
      · have hmove : Move settings ⟨levels, importers, atHead, s⟩ _ := .pass h
        exact hgo (.single hmove) (hmove.sound hs) (hmove.leveled hs hl)
          (h.statementRound_eq _) h.remaining_lt
      · cases ha
        cases levels with
        | zero => exact absurd (hl.pos h hf) (Nat.lt_irrefl 0)
        | succ levels =>
          have hinto : Move settings ⟨levels + 1, importers, true, s⟩ _ := .into h hf
          obtain ⟨m₁, hm₁, hp₁⟩ := outer levels (Nat.lt_succ_self _) _ _ _ (hinto.sound hs)
            (hinto.leveled hs hl)
          obtain ⟨t, hc, ht⟩ := h.first
          have hround := statementRound_fresh (source settings (levels + 1)) hc ht h.read hf
          cases hp₁ with
          | @ended _ _ _ atHead' _ s₁ h₁ hi =>
            have hsource : source settings (levels + 1) _ = .ok () s₁.ended := hi
            rw [hsource] at hround
            have hout : Move settings ⟨levels, s₂.toReading :: importers, atHead', s₁⟩ _ := .out h₁
            have hs₁ := Moves.sound hm₁ (hinto.sound hs)
            have hl₁ := Moves.leveled hm₁ (hinto.sound hs) (hinto.leveled hs hl)
            exact hgo (.head hinto (.tail hm₁ hout)) (hout.sound hs₁) (hout.leveled hs₁ hl₁)
              hround h.remaining_lt
          | halted ha₁ h₁ hi =>
            have hsource : source settings (levels + 1) _ = .error _ _ := hi
            rw [hsource] at hround
            exact ⟨m₁, .head hinto hm₁, .halted ha₁ h₁ (iterate_of_error hround)⟩
      · cases ha
        exact ⟨_, .refl, .halted rfl h (iterate_of_error (h.statementRound_eq _))⟩
      · exact ⟨_, .refl, .ended h (iterate_of_done (State.statementRound_ended h _ _))⟩

/-- A moment at which the session comes to its outcome: the root has ended, or an import has
failed. -/
inductive Concludes (settings : Settings) (m : Moment) : Outcome → Prop where
  | ended (hi : m.importers = []) (h : m.state.skipComments.current = none) :
      Concludes settings m
        (m.state.ended.toSession.finish settings.checks m.state.ended.pending)
  | halted {s : State} (ha : m.atHead = true) (h : m.state.Halts settings s) :
      Concludes settings m (.ofSession s.toSession false)

/-- Moves lead to the outcome. -/
theorem exists_conclusion (hs : m.situation.Sound) (hl : m.Leveled settings) :
    ∃ m' outcome, Moves settings m m' ∧ m'.Concludes settings outcome := by
  obtain ⟨levels, importers, atHead, s⟩ := m
  induction importers generalizing levels atHead s with
  | nil =>
    obtain ⟨m', hm, hp⟩ := exists_pause levels [] atHead s hs hl
    cases hp with
    | ended h _ => exact ⟨_, _, hm, .ended rfl h⟩
    | halted ha h _ => exact ⟨_, _, hm, .halted ha h⟩
  | cons importer importers ih =>
    obtain ⟨m₁, hm, hp⟩ := exists_pause levels (importer :: importers) atHead s hs hl
    cases hp with
    | halted ha h _ => exact ⟨_, _, hm, .halted ha h⟩
    | @ended _ _ _ atHead' _ s₁ h _ =>
      have hout : Move settings ⟨levels, importer :: importers, atHead', s₁⟩ _ := .out h
      obtain ⟨m', outcome, hm', hc⟩ := ih _ _ _ (hout.sound (hm.sound hs))
        (hout.leveled (hm.sound hs) (hm.leveled hs hl))
      exact ⟨m', outcome, (hm.tail hout).trans hm', hc⟩

/-- What is only known of whole statements is known of moves. -/
theorem Step.moves (h : Step settings m m') (hs : m.situation.Sound)
    (hl : m.Leveled settings) : Moves settings m m' := by
  cases h with
  | @past levels importers atHead next s s' h hlt =>
    rcases (⟨levels, importers, atHead, s⟩ : Moment).next settings with
      hd | hp | @⟨i, s₁, id, text, ha, hi, hf⟩ | ⟨ha, hh⟩ | he
    · cases (hd.statementRound_eq settings _).symm.trans h
      exact .single (.declare hd)
    · cases (hp.statementRound_eq _).symm.trans h
      exact .single (.pass hp)
    · cases ha
      obtain ⟨t, hc, ht⟩ := hi.first
      have hround := (statementRound_fresh _ hc ht hi.read hf).symm.trans h
      cases levels with
      | zero => exact absurd (hl.pos hi hf) (Nat.lt_irrefl 0)
      | succ levels =>
        have hinto : Move settings ⟨levels + 1, importers, true, s⟩ _ := .into hi hf
        obtain ⟨m₁, hm₁, hp₁⟩ := exists_pause levels _ _ _ (hinto.sound hs) (hinto.leveled hs hl)
        cases hp₁ with
        | @ended _ _ _ atHead' _ s₂ h₂ hsource =>
          change source settings (levels + 1) _ = _ at hsource
          rw [hsource] at hround
          cases hround
          exact .head hinto (.tail hm₁ (.out h₂))
        | halted _ _ hsource =>
          change source settings (levels + 1) _ = _ at hsource
          rw [hsource] at hround
          cases hround
    · cases ha
      cases (hh.statementRound_eq _).symm.trans h
    · cases (State.statementRound_ended he _ _).symm.trans h
  | into hc ht hi hf => exact .single (.into ⟨⟨_, hc, ht⟩, hi⟩ hf)
  | @out levels importer importers atHead s s' h =>
    rcases (⟨levels, importer :: importers, atHead, s⟩ : Moment).next settings with
      hd | hp | @⟨i, s₁, id, text, ha, hi, hf⟩ | ⟨ha, hh⟩ | he
    · cases (hd.statementRound_eq settings _).symm.trans h
    · cases (hp.statementRound_eq _).symm.trans h
    · cases ha
      obtain ⟨t, hc, ht⟩ := hi.first
      have hround := (statementRound_fresh _ hc ht hi.read hf).symm.trans h
      split at hround <;> cases hround
    · cases ha
      cases (hh.statementRound_eq _).symm.trans h
    · cases (State.statementRound_ended he _ _).symm.trans h
      exact .single (.out he)

theorem Reached.moves_leveled (h : Reached settings root tokens m) :
    Moves settings (start settings root tokens) m ∧ m.Leveled settings := by
  induction h with
  | refl => exact ⟨.refl, leveled_start settings root tokens⟩
  | @tail m m' h hstep ih =>
    have hs : m.situation.Sound := Reached.sound h
    have hmoves := hstep.moves hs ih.2
    exact ⟨ih.1.trans hmoves, hmoves.leveled hs ih.2⟩

theorem Reached.moves (h : Reached settings root tokens m) :
    Moves settings (start settings root tokens) m :=
  h.moves_leveled.1

theorem Reached.exists_conclusion (h : Reached settings root tokens m) :
    ∃ m' outcome, Moves settings m m' ∧ m'.Concludes settings outcome :=
  Moment.exists_conclusion h.sound h.moves_leveled.2

/-- An import that fails ends all sources, with the session as it is. -/
theorem unwind_error (settings : Settings) (importers : List Reading) :
    ∀ (levels : Nat) (e : Stopped) (s : State),
    ∃ s', unwind settings levels importers (.error e s) = .error e s' ∧
      s'.toSession = s.toSession := by
  induction importers with
  | nil => exact fun _ e s => ⟨s, rfl, rfl⟩
  | cons importer rest ih =>
    intro levels e s
    exact ih (levels + 1) e (State.leave ⟨s.toSession, importer⟩ s)

theorem run_of_end (hi : m.importers = []) (h : m.state.skipComments.current = none) :
    m.run settings = .ok () m.state.ended := by
  rw [run, hi]
  exact iterate_of_done (State.statementRound_ended h _ _)

theorem run_of_halts (ha : m.atHead = true) {s : State} (h : m.state.Halts settings s) :
    ∃ s', m.run settings = .error .importFailed s' ∧ s'.toSession = s.toSession := by
  obtain ⟨s', hs', hsession⟩ := unwind_error settings m.importers m.levels .importFailed s
  refine ⟨s', ?_, hsession⟩
  rw [← hs', run, ha]
  exact congrArg _ (iterate_of_error (h.statementRound_eq _))

theorem Reached.source_of_ended (hm : Reached settings root tokens m) (hi : m.importers = [])
    (h : m.state.skipComments.current = none) :
    source settings settings.levels (.root root tokens) = .ok () m.state.ended :=
  hm.run_eq.symm.trans (run_of_end hi h)

theorem Reached.source_of_halted (hm : Reached settings root tokens m) (ha : m.atHead = true)
    {s : State} (h : m.state.Halts settings s) :
    ∃ s', source settings settings.levels (.root root tokens) = .error .importFailed s' ∧
      s'.toSession = s.toSession :=
  hm.run_eq ▸ run_of_halts ha h

/-- What a session comes to when its root is read. -/
def outcomeOf (settings : Settings) : EStateM.Result Stopped State Unit → Outcome
  | .ok _ s => s.toSession.finish settings.checks s.pending
  | .error _ s => .ofSession s.toSession false

theorem Reached.readTokens_eq_run (h : Reached settings root tokens m) :
    settings.readTokens root tokens = outcomeOf settings (m.run settings) := by
  rw [h.run_eq]
  rfl

theorem Concludes.outcomeOf_run {outcome : Outcome} (h : m.Concludes settings outcome) :
    outcomeOf settings (m.run settings) = outcome := by
  cases h with
  | ended hi h =>
    rw [run_of_end hi h]
    rfl
  | halted ha h =>
    obtain ⟨s', hrun, hsession⟩ := run_of_halts ha h
    rw [hrun, outcomeOf, hsession]

/-- The outcome of the session is that of the moment at which it concludes. -/
theorem Reached.readTokens_eq (hm : Reached settings root tokens m) {outcome : Outcome}
    (h : m.Concludes settings outcome) : settings.readTokens root tokens = outcome :=
  hm.readTokens_eq_run.trans h.outcomeOf_run

theorem sources_resume (checks : List Check) (importer : Reading) (s : State) :
    (State.resume checks importer s.ended).sources = s.sources := by
  let back := State.leave ⟨s.ended.toSession, importer⟩ s.ended
  exact (Session.follows_settleAll checks back.toSession false back.pending).sources.trans
    s.reads_ended.sources

/-- Sources are only ever added to the known ones. -/
theorem Move.sources (h : Move settings m m') (hs : m.situation.Sound) :
    m.state.sources.sources <+: m'.state.sources.sources := by
  cases h with
  | @declare levels importers atHead s s₁ comment h =>
    have ho := (State.onward_declare settings.checks (h.sound hs) comment).sources
    cases h.state
    exact ho ▸ List.prefix_rfl
  | pass h => exact h.notes.sources ▸ List.prefix_rfl
  | @into levels importers s s' i id text h hf =>
    simp only [State.enter, State.takeIn, State.addImport, State.modifyDocument,
      Session.modifyDocument, (h.register_eq hf).2]
    exact List.prefix_append _ _
  | @out levels importer importers atHead s h =>
    rw [sources_resume]

theorem Move.messages (h : Move settings m m') (hs : m.situation.Sound) :
    m.state.messages <+: m'.state.messages := by
  cases h with
  | @declare levels importers atHead s s₁ comment h =>
    have ho := State.onward_declare settings.checks (h.sound hs) comment
    cases h.state
    exact ho.messages
  | pass h => exact h.notes.messages
  | into h hf => exact h.reads.messages
  | @out levels importer importers atHead s h =>
    have hf := Session.follows_settleAll settings.checks s.ended.toSession false
      (importer.pending ++ s.ended.pending)
    exact s.reads_ended.messages.trans hf.messages

theorem Moves.messages (h : Moves settings m m') (hs : m.situation.Sound) :
    m.state.messages <+: m'.state.messages := by
  induction h with
  | refl => exact List.prefix_rfl
  | tail h hmove ih => exact ih.trans (hmove.messages (Moves.sound h hs))

end Run

end Moment

end Idl.Grammar
