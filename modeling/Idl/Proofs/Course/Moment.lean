import Mathlib.Logic.Relation
import Idl.Outcome
import Idl.Proofs.Grammar.Source

/-!
The course of a session. At a moment the innermost source stands between two statements, and its
importers wait behind their imports. A step reads a statement, goes into an imported source, or
comes out of one that is read. A step is a number of turns, and what is left to do at a moment
ends as the whole run does.
-/

namespace Idl.Grammar

namespace State

/-- The state in which an importer goes on behind an import. -/
def resume (checks : List Check) (importer : Reading) (inner : State) : State :=
  (leave ⟨inner.toSession, importer⟩ inner).rescan checks

theorem turns_resume {checks : List Check} {others : List Binding} {importer : Reading}
    {inner : State} (hs : inner.Sound (others ++ importer.pending)) :
    Turns checks (inner.situation (others ++ importer.pending))
      ((resume checks importer inner).situation others) := by
  let back := leave ⟨inner.toSession, importer⟩ inner
  have hleave : back.situation others = inner.situation (others ++ importer.pending) :=
    situation_leave _ inner
  have hback : (back.situation others).Sound := hleave ▸ hs
  rw [← hleave]
  exact turns_rescan hback

end State

structure Moment where
  /-- How many sources can still be read within the innermost one. -/
  levels : Nat
  /-- Where the importers stand, the innermost first. -/
  importers : List Reading
  /-- Whether an import may follow. -/
  atHead : Bool
  state : State

namespace Moment

/-- The names that wait in importers, those of the outermost in front. -/
def waitingIn : List Reading → List Binding
  | [] => []
  | importer :: rest => waitingIn rest ++ importer.pending

/-- All names that wait, in whatever source. -/
def waiting (m : Moment) : List Binding :=
  waitingIn m.importers ++ m.state.pending

def document (m : Moment) : Document :=
  m.state.document

def situation (m : Moment) : Situation :=
  m.state.situation (waitingIn m.importers)

/-- Before the first statement of the root. -/
def start (settings : Settings) (root : Option SourceId) (tokens : List Token) : Moment :=
  ⟨settings.maxImportDepth + 1, [], true, .root root tokens⟩

inductive Step (settings : Settings) : Moment → Moment → Prop where
  | past {levels : Nat} {importers : List Reading} {atHead next : Bool} {s s' : State}
      (h : statementRound settings (source settings levels) atHead s = .ok (.again next) s')
      (hlt : s'.remaining < s.remaining) :
      Step settings ⟨levels, importers, atHead, s⟩ ⟨levels, importers, next, s'⟩
  | into {levels : Nat} {importers : List Reading} {s s' : State} {t : Token} {i : Import}
      {id : SourceId} {text : String} (hc : s.skipComments.current = some t)
      (ht : t.isKeyword "import" = true)
      (hi : importStatement (s.commentOf? s.cursor.rest) s.skipComments = .ok i s')
      (hf : settings.importTarget s'.sources s'.source i.source = .fresh id text) :
      Step settings ⟨levels + 1, importers, true, s⟩
        ⟨levels, s'.toReading :: importers, true,
          (s'.takeIn i id).enter (s'.sources.register id).1 text⟩
  | out {levels : Nat} {importer : Reading} {importers : List Reading} {atHead : Bool}
      {s s' : State}
      (h : statementRound settings (source settings levels) atHead s = .ok (.done ()) s') :
      Step settings ⟨levels, importer :: importers, atHead, s⟩
        ⟨levels + 1, importers, true, .resume settings.checks importer s'⟩

/-- The moments that follow upon a moment, itself among them. -/
def Steps (settings : Settings) : Moment → Moment → Prop :=
  Relation.ReflTransGen (Step settings)

/-- The moments of the session that reads a root. -/
def Reached (settings : Settings) (root : Option SourceId) (tokens : List Token) :
    Moment → Prop :=
  Steps settings (start settings root tokens)

section Turns

variable {settings : Settings} {root : Option SourceId} {tokens : List Token} {m m' : Moment}

theorem Step.turns (h : Step settings m m') (hs : m.situation.Sound) :
    Turns settings.checks m.situation m'.situation := by
  cases h with
  | @past levels importers atHead next s s' h hlt =>
    have hread := proceeds_statementRound settings (proceeds_source settings levels) atHead
    exact (hread _ s hs).of_ok h
  | @into levels importers s s' t i id text hc ht hi hf =>
    have himport : s.skipComments.Reads s' := (quiet_importStatement _ s.skipComments).of_ok hi
    have hr := (State.reads_skipComments s).trans himport
    have henter : Turns settings.checks ((s'.takeIn i id).situation (waitingIn importers))
        (((s'.takeIn i id).enter (s'.sources.register id).1 text).situation
          (waitingIn importers ++ s'.pending)) := by
      rw [← State.situation_enter (s'.takeIn i id) (s'.sources.register id).1 text]
      exact .refl _
    exact ((hr.turns _).trans (s'.turns_takeIn i id)).trans henter
  | @out levels importer importers atHead s s' h =>
    have hread := proceeds_statementRound settings (proceeds_source settings levels) atHead
    have hround : Turns settings.checks (s.situation (waitingIn (importer :: importers)))
        (s'.situation (waitingIn (importer :: importers))) := (hread _ s hs).of_ok h
    exact hround.trans (State.turns_resume (hround.sound hs))

theorem Steps.turns (h : Steps settings m m') (hs : m.situation.Sound) :
    Turns settings.checks m.situation m'.situation := by
  induction h with
  | refl => exact .refl _
  | tail _ hstep ih => exact ih.trans (hstep.turns (ih.sound hs))

theorem sound_start (settings : Settings) (root : Option SourceId) (tokens : List Token) :
    (start settings root tokens).situation.Sound := by
  cases root with
  | none => exact Document.sound_setMain none
  | some id => exact Document.sound_setMain _

theorem Reached.sound (h : Reached settings root tokens m) : m.situation.Sound :=
  (Steps.turns h (sound_start settings root tokens)).sound (sound_start settings root tokens)

end Turns

section Run

variable {settings : Settings}

theorem remaining_importStatement_lt {s s' : State} {comment : Option Comment} {i : Import}
    (hi : importStatement comment s = .ok i s') : s'.remaining < s.remaining := by
  have h : After (importStatement comment) s (fun _ s' => s'.remaining < s.remaining)
      fun _ => True :=
    after_bind_remaining (after_expect_remaining _ _ _ s) fun keyword =>
      ((quiet_expect _ _ _).bind fun source => quiet_expectSemicolon.bind fun _ =>
        quiet_get.bind fun _ => quiet_pure _).forward
  exact h.of_ok hi

/-- The round of an import whose source is read for the first time. -/
theorem statementRound_fresh {s s' : State} {t : Token} {i : Import} {id : SourceId}
    {text : String} (read : SourceReader Unit) (hc : s.skipComments.current = some t)
    (ht : t.isKeyword "import" = true)
    (hi : importStatement (s.commentOf? s.cursor.rest) s.skipComments = .ok i s')
    (hf : settings.importTarget s'.sources s'.source i.source = .fresh id text) :
    statementRound settings read true s =
      match read ((s'.takeIn i id).enter (s'.sources.register id).1 text) with
      | .ok _ inner => .ok (.again true) (.resume settings.checks s'.toReading inner)
      | .error e inner => .error e (State.leave ⟨inner.toSession, s'.toReading⟩ inner) := by
  have hround : importRound settings read (s.commentOf? s.cursor.rest) s.skipComments =
      match read ((s'.takeIn i id).enter (s'.sources.register id).1 text) with
      | .ok _ inner => .ok () (.resume settings.checks s'.toReading inner)
      | .error e inner => .error e (State.leave ⟨inner.toSession, s'.toReading⟩ inner) := by
    simp only [importRound, hi, follow, run_bind_get, hf, run_bind_modify]
    cases hr : read ((s'.takeIn i id).enter (s'.sources.register id).1 text) with
    | ok a inner =>
      have hwithin : within (s'.sources.register id).1 text read (s'.takeIn i id) =
          .ok () ((s'.takeIn i id).leave inner) := by
        simp only [within, hr]
      rw [run_bind_of_ok hwithin]
      rfl
    | error e inner =>
      have hwithin : within (s'.sources.register id).1 text read (s'.takeIn i id) =
          .error e ((s'.takeIn i id).leave inner) := by
        simp only [within, hr]
      rw [run_bind_of_error hwithin]
      rfl
  simp only [statementRound, run_bind_modifyGet, run_bind_get, State.leadingComment, hc, ht,
    Bool.and_self, if_true]
  cases hr : read ((s'.takeIn i id).enter (s'.sources.register id).1 text) with
  | ok a inner =>
    rw [hr] at hround
    exact run_bind_of_ok hround _
  | error e inner =>
    rw [hr] at hround
    exact run_bind_of_error hround _

variable (settings)

/-- How the importers end when the innermost source has ended with a result. -/
def unwind : Nat → List Reading → EStateM.Result Stopped State Unit →
    EStateM.Result Stopped State Unit
  | _, [], result => result
  | levels, importer :: rest, .ok _ inner =>
    unwind (levels + 1) rest
      (source settings (levels + 2) (.resume settings.checks importer inner))
  | levels, importer :: rest, .error e inner =>
    unwind (levels + 1) rest (.error e (State.leave ⟨inner.toSession, importer⟩ inner))

/-- How the session ends from a moment on. -/
def run (m : Moment) : EStateM.Result Stopped State Unit :=
  unwind settings m.levels m.importers
    (iterate (statementRound settings (source settings m.levels)) m.atHead m.state)

variable {settings} {root : Option SourceId} {tokens : List Token} {m m' : Moment}

/-- A step belongs to the run: what is left to do ends in the same way. -/
theorem Step.run_eq (h : Step settings m m') : m'.run settings = m.run settings := by
  cases h with
  | @past levels importers atHead next s s' h hlt =>
    simp only [run, iterate_of_again h hlt]
  | @into levels importers s s' t i id text hc ht hi hf =>
    have hround := statementRound_fresh (source settings (levels + 1)) hc ht hi hf
    have hsource (s : State) : iterate (statementRound settings (source settings levels)) true s =
        source settings (levels + 1) s := rfl
    simp only [run, hsource]
    rw [iterate, hround]
    cases source settings (levels + 1) ((s'.takeIn i id).enter (s'.sources.register id).1 text) with
    | error e inner => rfl
    | ok a inner =>
      have himport := remaining_importStatement_lt hi
      have hlt : (State.resume settings.checks s'.toReading inner).remaining < s.remaining :=
        Nat.lt_of_lt_of_le himport s.cursor.skipComments_rest_length_le
      simp only [hlt, if_true]
      rfl
  | @out levels importer importers atHead s s' h =>
    simp only [run, iterate_of_done h]
    rfl

theorem Steps.run_eq (h : Steps settings m m') : m'.run settings = m.run settings := by
  induction h with
  | refl => rfl
  | tail _ hstep ih => exact hstep.run_eq.trans ih

/-- Every moment that is reached lies on the way to the end of the session. -/
theorem Reached.run_eq (h : Reached settings root tokens m) :
    m.run settings = source settings settings.levels (.root root tokens) :=
  Steps.run_eq h

end Run

end Moment

end Idl.Grammar
