import Idl.Grammar.Source
import Idl.Proofs.Grammar.Declaration
import Idl.Proofs.Grammar.Package
import Idl.Proofs.Reading.Turn

/-!
Whole sources as turns of the session. Whether a source is read to its end or an import stops
the reading, all that has happened by then is a number of turns; an imported source makes its
turns in between, while the names of its importers wait.
-/

namespace Idl.Grammar

variable {checks : List Check} {others : List Binding} {α β : Type} {s : State}

/-- A reader that only makes turns, whether it succeeds or stops. -/
def Proceeds (checks : List Check) (p : SourceReader α) : Prop :=
  ∀ others s, s.Sound others →
    After p s (fun _ s' => Turns checks (s.situation others) (s'.situation others))
      fun s' => Turns checks (s.situation others) (s'.situation others)

section Proceeds

variable {p : SourceReader α}

theorem Proceeds.bind {f : α → SourceReader β} (hp : Proceeds checks p)
    (hf : ∀ a, Proceeds checks (f a)) : Proceeds checks (p >>= f) := by
  intro others s hs
  apply After.bind
  refine (hp others s hs).mono (fun a s' h => ?_) fun _ h => h
  have hs' : s'.Sound others := h.sound hs
  exact (hf a others s' hs').mono (fun _ _ h' => h.trans h') fun _ h' => h.trans h'

theorem proceeds_pure (a : α) : Proceeds checks (pure a : SourceReader α) :=
  fun _ _ _ => .refl _

theorem proceeds_throw (e : Stopped) : Proceeds checks (throw e : SourceReader α) :=
  fun _ _ _ => .refl _

theorem proceeds_get : Proceeds checks (get : SourceReader State) :=
  fun _ _ _ => .refl _

theorem proceeds_modify {g : State → State}
    (h : ∀ others s, s.Sound others →
      Turns checks (s.situation others) ((g s).situation others)) :
    Proceeds checks (modify g : SourceReader Unit) :=
  h

theorem proceeds_iterate {round : α → SourceReader (Round α β)}
    (h : ∀ a, Proceeds checks (round a)) (a : α) : Proceeds checks (iterate round a) := by
  intro others s hs
  refine after_iterate
    (I := fun _ s' => Turns checks (s.situation others) (s'.situation others))
    (fun a s' ht => ?_) (.refl _)
  have hs' : s'.Sound others := ht.sound hs
  refine (h a others s' hs').mono (fun r s'' ht' => ?_) fun _ ht' => ht.trans ht'
  cases r with
  | again a' => exact ⟨ht.trans ht', .inr (ht.trans ht')⟩
  | done b => exact ht.trans ht'

end Proceeds

namespace State

/-- The names that wait for a declaration are bound once it is registered. -/
theorem turns_register {x : Declaration} (hx : x.Below s.document.extent)
    (hs : (s.modifyDocument (·.register x)).Sound others) :
    Turns checks ((s.modifyDocument (·.register x)).situation others)
      ((s.register checks x).situation others) := by
  unfold register
  simp only
  split
  · rename_i t ht
    exact turns_settleRegistered (Declaration.named_of_type? ht hx) hs
  · exact .refl _

/-- A declaration is taken in with its names bound, or leaves nothing but messages. -/
theorem turns_declare (hs : s.Sound others) (comment : Option Comment) :
    Turns checks (s.situation others) ((s.declare checks comment).situation others) := by
  rcases declare_cases hs comment with hr | ⟨x, s', hp, hpassed, heq⟩
  · exact hr.turns others
  · obtain ⟨he, habove, hbelow⟩ := After.of_ok (builds_declaration hs.ready comment) hp
    have hv := reads_visit s' checks (.declaration x) false
    have hturn : Turn checks (s.situation others) _ :=
      .declare (he.tail (.read hv)) habove hbelow hpassed
    rw [heq]
    exact (Turns.single hturn).trans (turns_register hbelow (hturn.sound hs))

/-- What is noted about a source concerns neither the nodes of the document nor the names. -/
theorem turns_note {s' : State} (hp : s'.pending = s.pending)
    (hd : s'.document = s.document.note s'.document.imports s'.document.package)
    (he : s'.endless = s.endless) : Turns checks (s.situation others) (s'.situation others) := by
  rw [situation, situation, hp]
  exact .single (.note hd fun _ => he)

theorem turns_readPackage (s : State) :
    Turns checks (s.situation others) (s.readPackage.situation others) := by
  have hpackage := after_package (s := s)
  unfold readPackage
  cases hp : package s with
  | ok a s' =>
    obtain ⟨s₀, hr, package, rfl⟩ := hpackage.of_ok hp
    refine (hr.turns others).trans (turns_note ?_ ?_ ?_)
    all_goals
      simp only
      split <;> rfl
  | error e s' => exact ((hpackage.of_error hp).trans (reads_recoverOutside s')).turns others

theorem turns_readStatement (hs : s.Sound others) (comment : Option Comment) (first : Token) :
    Turns checks (s.situation others)
      ((s.readStatement checks comment first).situation others) := by
  unfold readStatement
  split
  · exact ((reads_misplaced s comment).trans (reads_shift _)).turns others
  · split
    · exact turns_declare hs comment
    · exact ((reads_misplaced s comment).trans (reads_skipGarbage _ first)).turns others

theorem turns_addImport (s : State) (i : Import) :
    Turns checks (s.situation others) ((s.addImport i).situation others) :=
  turns_note rfl rfl rfl

theorem turns_report (s : State) (m : Message) :
    Turns checks (s.situation others) ((s.report m).situation others) :=
  (reads_report s m).turns others

theorem turns_takeIn (s : State) (i : Import) (id : SourceId) :
    Turns checks (s.situation others) ((s.takeIn i id).situation others) :=
  turns_note rfl rfl rfl

theorem turns_rescan (hs : s.Sound others) :
    Turns checks (s.situation others) ((s.rescan checks).situation others) :=
  turns_settleAll false hs

/-- While an imported source is read, the names of the importer wait elsewhere. -/
theorem situation_enter (s : State) (id : SourceId) (text : String) :
    (s.enter id text).situation (others ++ s.pending) = s.situation others := by
  simp [situation, enter]

theorem situation_leave (s inner : State) :
    (s.leave inner).situation others = inner.situation (others ++ s.pending) := by
  simp [situation, leave]

end State

theorem proceeds_within (id : SourceId) (text : String) {read : SourceReader Unit}
    (hread : Proceeds checks read) : Proceeds checks (within id text read) := by
  intro others s hs
  have henter : _ = s.situation others := State.situation_enter s id text
  have hinner : (s.enter id text).Sound (others ++ s.pending) := by
    have hs' : (s.situation others).Sound := hs
    rwa [← henter] at hs'
  have h := hread (others ++ s.pending) (s.enter id text) hinner
  rw [henter] at h
  unfold After within
  cases hr : read (s.enter id text) with
  | ok a inner =>
    simp only
    rw [State.situation_leave]
    exact h.of_ok hr
  | error e inner =>
    simp only
    rw [State.situation_leave]
    exact h.of_error hr

theorem proceeds_stop (m : Message) : Proceeds checks (stop m) :=
  (proceeds_modify fun _ _ _ => State.turns_report _ m).bind fun _ => proceeds_throw _

theorem proceeds_addImport (i : Import) :
    Proceeds checks (modify (·.addImport i) : SourceReader Unit) :=
  proceeds_modify fun _ _ _ => State.turns_addImport _ i

theorem proceeds_follow (settings : Settings) {read : SourceReader Unit}
    (hread : Proceeds settings.checks read) (i : Import) :
    Proceeds settings.checks (follow settings read i) := by
  refine proceeds_get.bind fun s => ?_
  split
  · exact proceeds_modify fun _ _ _ =>
      (State.turns_report _ _).trans (State.turns_addImport _ i)
  · exact (proceeds_addImport i).bind fun _ => proceeds_stop _
  · exact proceeds_addImport _
  · exact proceeds_stop _
  · exact (proceeds_addImport i).bind fun _ => proceeds_stop _
  · rename_i id text _
    refine (proceeds_modify fun _ _ _ => State.turns_takeIn _ i id).bind fun _ => ?_
    refine (proceeds_within _ text hread).bind fun _ => ?_
    exact proceeds_modify fun _ _ hs => State.turns_rescan hs

theorem quiet_importStatement (comment : Option Comment) : Quiet (importStatement comment) := by
  refine (quiet_expectKeyword _).bind fun keyword => (quiet_expect _ _ _).bind fun source => ?_
  exact quiet_expectSemicolon.bind fun _ => quiet_get.bind fun _ => quiet_pure _

theorem proceeds_importRound (settings : Settings) {read : SourceReader Unit}
    (hread : Proceeds settings.checks read) (comment : Option Comment) :
    Proceeds settings.checks (importRound settings read comment) := by
  intro others s hs
  have himport := quiet_importStatement comment s
  unfold After importRound
  cases hp : importStatement comment s with
  | ok i s' =>
    have hr := himport.of_ok hp
    have hfollow := proceeds_follow settings hread i others s' (hs.reads hr)
    exact hfollow.mono (fun _ _ h => (hr.turns others).trans h)
      fun _ h => (hr.turns others).trans h
  | error e s' =>
    exact ((himport.of_error hp).trans (State.reads_recoverOutside s')).turns others

theorem proceeds_statementRound (settings : Settings) {read : SourceReader Unit}
    (hread : Proceeds settings.checks read) (atHead : Bool) :
    Proceeds settings.checks (statementRound settings read atHead) := by
  refine Proceeds.bind (p := modifyGet State.leadingComment)
    (fun others s _ => (State.reads_skipComments s).turns others) fun comment => ?_
  refine proceeds_get.bind fun s => ?_
  split
  · exact (proceeds_modify fun _ _ _ => (State.reads_misplaced _ comment).turns _).bind
      fun _ => proceeds_pure _
  · split
    · exact (proceeds_importRound settings hread comment).bind fun _ => proceeds_pure _
    · split
      · exact (proceeds_modify fun _ s _ => State.turns_readPackage s).bind
          fun _ => proceeds_pure _
      · exact (proceeds_modify fun _ _ hs => State.turns_readStatement hs comment _).bind
          fun _ => proceeds_pure _

/-- The reading of a source is a number of turns. -/
theorem proceeds_source (settings : Settings) (levels : Nat) :
    Proceeds settings.checks (source settings levels) := by
  induction levels with
  | zero => exact fun _ _ _ => .refl _
  | succ levels ih =>
    exact proceeds_iterate (fun atHead => proceeds_statementRound settings ih atHead) true

end Idl.Grammar
