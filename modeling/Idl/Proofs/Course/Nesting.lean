import Idl.Proofs.Course.Move

/-!
How deep imports nest, and that moves come to an end. What is asked of an import alone bounds the
sources that are read within each other, so the number of levels that a session starts with is
never used up. Along moves either the source has fewer tokens left or another source is entered,
for which there are fewer levels; so there is no endless course, whatever the provider answers.
-/

namespace Idl.Grammar

namespace Moment

variable {settings : Settings} {root : Option SourceId} {tokens : List Token} {m m' : Moment}

section Ending

/-- Any moves from a moment on come to an end. -/
def Ends (settings : Settings) (m : Moment) : Prop :=
  Acc (fun m' m => Move settings m m') m

/-- The induction is on the levels, for the sources that are read in between, and on the tokens
that are left, for the statements of this one. -/
theorem ends_of_out {levels : Nat} {importers : List Reading}
    (hout : ∀ importer rest (s : State), importers = importer :: rest →
      Ends settings ⟨levels + 1, rest, true, .resume settings.checks importer s⟩)
    (atHead : Bool) (s : State) : Ends settings ⟨levels, importers, atHead, s⟩ := by
  induction levels using Nat.strongRecOn generalizing importers atHead s with
  | ind levels outer =>
    induction hn : s.remaining using Nat.strongRecOn generalizing atHead s with
    | ind n inner =>
      subst hn
      refine Acc.intro _ fun m' hmove => ?_
      cases hmove with
      | declare h => exact inner _ (h.remaining_lt settings.checks) _ _ rfl
      | pass h => exact inner _ h.remaining_lt _ _ rfl
      | @into levels _ _ s' i id text h hf =>
        refine outer levels (Nat.lt_succ_self _) (fun importer rest inner' heq => ?_) _ _
        cases heq
        exact inner _ h.remaining_lt _ _ rfl
      | out h => exact hout _ _ _ rfl

theorem ends (m : Moment) : m.Ends settings := by
  obtain ⟨levels, importers, atHead, s⟩ := m
  induction importers generalizing levels atHead s with
  | nil => exact ends_of_out (fun _ _ _ h => by cases h) atHead s
  | cons importer importers ih =>
    refine ends_of_out (fun _ _ s' h => ?_) atHead s
    cases h
    exact ih (levels + 1) true _

end Ending

section Depth

/-- A move that is made whatever number of levels is left. -/
def Goes (settings : Settings) (m m' : Moment) : Prop :=
  ∃ levels levels', Move settings { m with levels } { m' with levels := levels' }

/-- The moment with the levels that are left below its importers. -/
def leveled (settings : Settings) (m : Moment) : Moment :=
  { m with levels := settings.maxImportDepth + 1 - m.importers.length }

/-- The sources that are being read are no more than imports may lead to. -/
structure Bounded (settings : Settings) (m : Moment) : Prop where
  sound : m.situation.Sound
  leveled : (m.leveled settings).Leveled settings
  length_le : m.importers.length ≤ settings.maxImportDepth + 1

theorem bounded_start (settings : Settings) (root : Option SourceId) (tokens : List Token) :
    (start settings root tokens).Bounded settings :=
  ⟨sound_start settings root tokens, leveled_start settings root tokens, Nat.zero_le _⟩

/-- The levels that are left below the importers are enough for any move. -/
theorem Move.of_bounded (h : Move settings m m') (hb : m.Bounded settings) :
    Move settings (m.leveled settings) (m'.leveled settings) ∧
      m'.importers.length ≤ settings.maxImportDepth + 1 := by
  have hlength := hb.length_le
  cases h with
  | declare h => exact ⟨.declare ⟨h.state, h.first⟩, hlength⟩
  | pass h => exact ⟨.pass h, hlength⟩
  | @into levels importers s s' i id text h hf =>
    have hpos : 0 < settings.maxImportDepth + 1 - importers.length := hb.leveled.pos h hf
    have hlevels : settings.maxImportDepth + 1 - importers.length =
        settings.maxImportDepth + 1 - (importers.length + 1) + 1 := by omega
    refine ⟨?_, by simp only [List.length_cons]; omega⟩
    simp only [Moment.leveled, hlevels]
    exact .into h hf
  | @out levels importer importers atHead s h =>
    simp only [List.length_cons] at hlength
    have hlevels : settings.maxImportDepth + 1 - importers.length =
        settings.maxImportDepth + 1 - (importers.length + 1) + 1 := by omega
    refine ⟨?_, Nat.le_of_succ_le hlength⟩
    simp only [Moment.leveled, hlevels]
    exact .out h

theorem Goes.move (h : Goes settings m m') (hb : m.Bounded settings) :
    Move settings (m.leveled settings) (m'.leveled settings) ∧ m'.Bounded settings := by
  obtain ⟨levels, levels', h⟩ := h
  obtain ⟨hmove, hlength⟩ := h.of_bounded ⟨hb.sound, hb.leveled, hb.length_le⟩
  exact ⟨hmove, hmove.sound hb.sound, hmove.leveled hb.sound hb.leveled, hlength⟩

theorem Move.goes (h : Move settings m m') : Goes settings m m' :=
  ⟨m.levels, m'.levels, h⟩

theorem Bounded.acc (hb : m.Bounded settings) : Acc (fun m' m => Goes settings m m') m := by
  have general (n : Moment) (hn : Ends settings n) :
      ∀ m : Moment, m.leveled settings = n → m.Bounded settings →
        Acc (fun m' m => Goes settings m m') m := by
    induction hn with
    | intro n _ ih =>
      intro m hm hb
      refine Acc.intro _ fun m' hgoes => ?_
      obtain ⟨hmove, hb'⟩ := hgoes.move hb
      exact ih (m'.leveled settings) (hm ▸ hmove) m' rfl hb'
  exact general _ (ends _) m rfl hb

/-- The moments that a session comes to, however many levels it would start with. -/
def Comes (settings : Settings) (root : Option SourceId) (tokens : List Token) :
    Moment → Prop :=
  Relation.ReflTransGen (Goes settings) (start settings root tokens)

theorem Comes.reached (h : Comes settings root tokens m) :
    Reached settings root tokens (m.leveled settings) ∧ m.Bounded settings := by
  induction h with
  | refl => exact ⟨.refl, bounded_start settings root tokens⟩
  | tail _ hgoes ih =>
    obtain ⟨hmove, hb⟩ := hgoes.move ih.2
    exact ⟨ih.1.tail hmove.step, hb⟩

/-- A moment either has another one behind it or is the last, and then the outcome of the session
is known. -/
theorem Comes.goes_or_concludes (h : Comes settings root tokens m) :
    (∃ m', Goes settings m m') ∨
      ∃ outcome, m.Concludes settings outcome ∧ settings.readTokens root tokens = outcome := by
  have hconcludes {outcome : Outcome} (hc : m.Concludes settings outcome) :
      settings.readTokens root tokens = outcome := by
    refine h.reached.1.readTokens_eq ?_
    cases hc with
    | ended hi hend => exact .ended hi hend
    | halted ha hhalt => exact .halted ha hhalt
  obtain ⟨levels, importers, atHead, s⟩ := m
  rcases (⟨levels, importers, atHead, s⟩ : Moment).next settings with
    hd | hp | ⟨ha, hi, hf⟩ | ⟨ha, hh⟩ | he
  · have hmove : Move settings ⟨levels, importers, atHead, s⟩ _ := .declare hd
    exact .inl ⟨_, hmove.goes⟩
  · have hmove : Move settings ⟨levels, importers, atHead, s⟩ _ := .pass hp
    exact .inl ⟨_, hmove.goes⟩
  · cases ha
    exact .inl ⟨⟨levels, _ :: importers, true, _⟩, levels + 1, levels, .into hi hf⟩
  · exact .inr ⟨_, .halted ha hh, hconcludes (.halted ha hh)⟩
  · cases importers with
    | nil => exact .inr ⟨_, .ended rfl he, hconcludes (.ended rfl he)⟩
    | cons importer importers =>
      have hmove : Move settings ⟨levels, importer :: importers, atHead, s⟩ _ := .out he
      exact .inl ⟨_, hmove.goes⟩

end Depth

end Moment

end Idl.Grammar
