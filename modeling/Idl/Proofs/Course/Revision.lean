import Idl.Proofs.Course.Move

/-!
A provider that gives another text for one source. Imports mean the same until one of them opens
the source, and again behind that, for no source is opened twice. So the session is the same but
for what that text says.
-/

namespace Idl

/-- The provider gives this text for a source. -/
def Settings.revise (settings : Settings) (id : SourceId) (text : String) : Settings :=
  { settings with
    provider := settings.provider.map fun provider =>
      { provider with
        read := fun other => if other = id then .ok text else provider.read other } }

section Target

variable {settings : Settings} {registry : Registry} {importer : Option SourceId}
  {name old : String} {id : SourceId}

/-- An import that opens the source gets the other text. -/
theorem Settings.importTarget_revise_fresh
    (h : settings.importTarget registry importer name = .fresh id old) (text : String) :
    (settings.revise id text).importTarget registry importer name = .fresh id text := by
  obtain ⟨provider, found, hprovider, hfound, rfl, hnew, hdepth, hread⟩ :=
    importTarget_eq_fresh h
  simp only [importTarget, revise, hprovider, Option.map_some, hfound, hnew, if_true]
  rw [if_neg (Nat.not_lt.2 hdepth)]

/-- A source that can be read: the provider has a text for it. -/
def Settings.Reads (settings : Settings) (id : SourceId) : Prop :=
  ∀ provider ∈ settings.provider, ∃ text, provider.read id = .ok text

theorem Settings.reads_of_fresh
    (h : settings.importTarget registry importer name = .fresh id old) : settings.Reads id := by
  obtain ⟨provider, _, hprovider, _, _, _, _, hread⟩ := importTarget_eq_fresh h
  intro other hother
  cases hprovider.symm.trans hother
  exact ⟨old, hread⟩

/-- An import that does not open the source means the same. -/
theorem Settings.importTarget_revise (hr : settings.Reads id)
    (h : ∀ old, settings.importTarget registry importer name ≠ .fresh id old) (text : String) :
    (settings.revise id text).importTarget registry importer name =
      settings.importTarget registry importer name := by
  cases hprovider : settings.provider with
  | none => simp only [importTarget, revise, hprovider, Option.map_none]
  | some provider =>
    cases hfound : provider.resolve importer name with
    | none => simp only [importTarget, revise, hprovider, Option.map_some, hfound]
    | some found =>
      by_cases hid : found.importedBy importer = id
      · obtain ⟨old, hread⟩ := hr provider hprovider
        have hopens := h old
        subst hid
        simp only [importTarget, revise, hprovider, Option.map_some, hfound, hread,
          if_true] at hopens ⊢
        cases hnew : registry.get? (found.importedBy importer).value with
        | some known => rfl
        | none =>
          by_cases hdepth : settings.maxImportDepth < (found.importedBy importer).depth
          · simp only [hdepth, if_true]
          · simp [hnew, hdepth] at hopens
      · simp only [importTarget, revise, hprovider, Option.map_some, hfound, if_neg hid]

end Target

namespace Grammar.Moment

variable {settings : Settings} {root : Option SourceId} {tokens : List Token} {m m' : Moment}
  {id : SourceId} {text old : String}

/-- The source was opened before. -/
def Knows (m : Moment) (id : SourceId) : Prop :=
  id.value ∈ m.state.sources.sources.map (·.value)

theorem Move.knows (h : Move settings m m') (hs : m.situation.Sound) (hk : m.Knows id) :
    m'.Knows id :=
  ((h.sources hs).map _).mem hk

/-- An import at a moment at which the source is known does not open it. -/
theorem ne_fresh_of_knows {i : Import} {s : State} (hk : m.Knows id) (h : m.state.Imports i s)
    (old : String) : s.target settings i ≠ .fresh id old := by
  intro hf
  obtain ⟨_, _, _, _, _, hnew, _, _⟩ := Settings.importTarget_eq_fresh hf
  rw [h.reads.sources] at hnew
  exact Registry.get?_eq_none_iff.1 hnew hk

/-- A move that does not open the source is one of the other session as well. -/
theorem Move.revise (h : Move settings m m') (hr : settings.Reads id)
    (hk : m.Knows id ∨ ¬ m'.Knows id) (text : String) : Move (settings.revise id text) m m' := by
  have htarget {i : Import} {s : State} (h : ∀ old, s.target settings i ≠ .fresh id old) :
      s.target (settings.revise id text) i = s.target settings i :=
    Settings.importTarget_revise hr h text
  cases h with
  | declare h => exact .declare h
  | pass h =>
    refine .pass ?_
    cases h with
    | unknowable ha h ht => exact .unknowable ha h ((htarget (by simp [ht])).trans ht)
    | known ha h ht => exact .known ha h ((htarget (by simp [ht])).trans ht)
    | brokenImport ha hc ht hi => exact .brokenImport ha hc ht hi
    | package ha hc ht => exact .package ha hc ht
    | stray hc hword => exact .stray hc hword
  | @into levels importers s s' i other found h hf =>
    refine .into h ((htarget fun old hopens => ?_).trans hf)
    cases hf.symm.trans hopens
    rcases hk with hk | hk
    · exact ne_fresh_of_knows hk h _ hopens
    · refine hk ?_
      simp only [Knows, State.enter, State.takeIn, State.addImport, State.modifyDocument,
        Session.modifyDocument, (h.register_eq hf).2]
      simp
  | out h => exact .out h

/-- Up to a moment at which the source is not known, the sessions are the same. -/
theorem Moves.revise_before (h : Moves settings m m') (hs : m.situation.Sound)
    (hr : settings.Reads id) (hk : ¬ m'.Knows id) (text : String) :
    Moves (settings.revise id text) m m' := by
  induction h with
  | refl => exact .refl
  | tail h hmove ih =>
    exact (ih fun hknows => hk (hmove.knows (Moves.sound h hs) hknows)).tail
      (hmove.revise hr (.inr hk) text)

/-- From a moment at which the source is known, the sessions are the same. -/
theorem Moves.revise_behind (h : Moves settings m m') (hs : m.situation.Sound)
    (hr : settings.Reads id) (hk : m.Knows id) (text : String) :
    Moves (settings.revise id text) m m' ∧ m'.Knows id := by
  induction h with
  | refl => exact ⟨.refl, hk⟩
  | tail h hmove ih =>
    exact ⟨ih.1.tail (hmove.revise hr (.inl ih.2) text), hmove.knows (Moves.sound h hs) ih.2⟩

theorem Concludes.revise {outcome : Outcome} (h : m.Concludes settings outcome)
    (hr : settings.Reads id) (hk : m.Knows id) (text : String) :
    m.Concludes (settings.revise id text) outcome := by
  have htarget {i : Import} {s : State} (h : m.state.Imports i s) :
      s.target (settings.revise id text) i = s.target settings i :=
    Settings.importTarget_revise hr (ne_fresh_of_knows hk h) text
  cases h with
  | ended hi h => exact .ended hi h
  | halted ha h =>
    refine .halted ha ?_
    cases h with
    | missing h ht => exact .missing h ((htarget h).trans ht)
    | tooDeep h ht => exact .tooDeep h ((htarget h).trans ht)
    | closed h ht => exact .closed h ((htarget h).trans ht)

/-- What is left to do comes to the same, where the source is known. -/
theorem outcomeOf_run_revise (hs : m.situation.Sound) (hl : m.Leveled settings)
    (hr : settings.Reads id) (hk : m.Knows id) (text : String) :
    outcomeOf (settings.revise id text) (m.run (settings.revise id text)) =
      outcomeOf settings (m.run settings) := by
  obtain ⟨last, outcome, hmoves, hconcludes⟩ := exists_conclusion hs hl
  obtain ⟨hrevised, hknows⟩ := hmoves.revise_behind hs hr hk text
  have hsame : last.run (settings.revise id text) = m.run (settings.revise id text) :=
    hrevised.steps.run_eq
  rw [← hsame, (hconcludes.revise hr hknows text).outcomeOf_run, ← hmoves.steps.run_eq,
    hconcludes.outcomeOf_run]

variable {levels : Nat} {importers : List Reading} {s s' : State} {i : Import}

/-- The moment at which a source has been opened, with the text that the provider gives. -/
def opened (levels : Nat) (importers : List Reading) (s : State) (i : Import) (id : SourceId)
    (text : String) : Moment :=
  ⟨levels, s.toReading :: importers, true,
    (s.takeIn i id).enter (s.sources.register id).1 text⟩

/-- The session with the other text comes to what is left to do from the moment at which the
source is opened. -/
theorem readTokens_revise (hm : Reached settings root tokens ⟨levels + 1, importers, true, s⟩)
    (h : s.Imports i s') (hf : s'.target settings i = .fresh id old) (text : String) :
    (settings.revise id text).readTokens root tokens =
      outcomeOf settings ((opened levels importers s' i id text).run settings) := by
  have hr := Settings.reads_of_fresh hf
  have hunknown : ¬ Knows ⟨levels + 1, importers, true, s⟩ id := by
    intro hk
    exact ne_fresh_of_knows hk h old hf
  have hbefore : Moves (settings.revise id text) (start settings root tokens)
      ⟨levels + 1, importers, true, s⟩ :=
    hm.moves.revise_before (sound_start settings root tokens) hr hunknown text
  have hinto : Move (settings.revise id text) ⟨levels + 1, importers, true, s⟩
      (opened levels importers s' i id text) :=
    .into h (Settings.importTarget_revise_fresh hf text)
  have hopened : Reached (settings.revise id text) root tokens
      (opened levels importers s' i id text) := Moves.steps (hbefore.tail hinto)
  have hknows : (opened levels importers s' i id text).Knows id := by
    simp only [Knows, opened, State.enter, State.takeIn, State.addImport, State.modifyDocument,
      Session.modifyDocument, (h.register_eq hf).2]
    simp
  have hleveled : (opened levels importers s' i id text).Leveled settings :=
    hopened.moves_leveled.2
  exact hopened.readTokens_eq_run.trans
    (outcomeOf_run_revise hopened.sound hleveled hr hknows text)

end Grammar.Moment

end Idl
