import Idl.Proofs.Course.Move

/-!
The order of the moments of a session. From a moment at most one move leads on, so of two
moments that are reached one leads to the other.
-/

namespace Idl.Grammar.Moment

variable {settings : Settings} {root : Option SourceId} {tokens : List Token}
  {m m' m₁ m₂ : Moment}

/-- Reads nothing of a source that is imported. -/
def readNothing : SourceReader Unit :=
  fun s => .error .importFailed s

/-- Where no imported source can be read, the next statement tells which move it is, and where
the move leads. -/
theorem Move.of_statementRound (h : Move settings m m') :
    match statementRound settings readNothing m.atHead m.state with
    | .ok (.again next) s => m' = ⟨m.levels, m.importers, next, s⟩
    | .ok (.done _) s => ∃ importer rest, m.importers = importer :: rest ∧
      m' = ⟨m.levels + 1, rest, true, .resume settings.checks importer s⟩
    | .error _ _ => ∃ i s id text, m.state.Imports i s ∧ s.target settings i = .fresh id text ∧
      m' = ⟨m.levels - 1, s.toReading :: m.importers, true,
        (s.takeIn i id).enter (s.sources.register id).1 text⟩ := by
  cases h with
  | declare h =>
    rw [h.statementRound_eq settings readNothing]
  | pass h =>
    simp only [h.statementRound_eq readNothing]
  | @into levels importers s s' i id text h hf =>
    obtain ⟨t, hc, ht⟩ := h.first
    simp only [statementRound_fresh readNothing hc ht h.read hf, readNothing]
    exact ⟨i, s', id, text, h, hf, rfl⟩
  | @out levels importer importers atHead s h =>
    simp only [State.statementRound_ended h readNothing]
    exact ⟨importer, importers, rfl, rfl⟩

theorem Move.unique (h₁ : Move settings m m₁) (h₂ : Move settings m m₂) : m₁ = m₂ := by
  have hround₁ := h₁.of_statementRound
  have hround₂ := h₂.of_statementRound
  cases hround : statementRound settings readNothing m.atHead m.state with
  | ok round s =>
    rw [hround] at hround₁ hround₂
    cases round with
    | again next => exact hround₁.trans hround₂.symm
    | done _ =>
      obtain ⟨importer, rest, hi, rfl⟩ := hround₁
      obtain ⟨importer', rest', hi', rfl⟩ := hround₂
      cases hi.symm.trans hi'
      rfl
  | error e s =>
    rw [hround] at hround₁ hround₂
    obtain ⟨i, s, id, text, hi, hf, rfl⟩ := hround₁
    obtain ⟨i', s', id', text', hi', hf', rfl⟩ := hround₂
    cases hi.read.symm.trans hi'.read
    cases hf.symm.trans hf'
    rfl

/-- Of two moments that are reached one leads to the other. -/
theorem Reached.total (h₁ : Reached settings root tokens m₁)
    (h₂ : Reached settings root tokens m₂) : Moves settings m₁ m₂ ∨ Moves settings m₂ m₁ :=
  Relation.ReflTransGen.total_of_right_unique (fun _ _ _ => Move.unique) h₁.moves h₂.moves

/-- What follows upon a moment follows upon the next one, but for the moment itself. -/
theorem Moves.of_move (h : Moves settings m m₂) (hmove : Move settings m m₁) :
    m₂ = m ∨ Moves settings m₁ m₂ := by
  rcases h.cases_head with heq | ⟨next, hnext, h⟩
  · exact .inl heq.symm
  · cases hnext.unique hmove
    exact .inr h

end Idl.Grammar.Moment
