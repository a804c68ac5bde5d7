import Idl.Proofs.Course.Inside
import Idl.Proofs.Grammar.Invariant

/-!
The statements of a source. What becomes of a statement is known from its tokens and from what
an import in it means: it declares something, or it is passed by, or an import in it leads to
another source or fails, or the source has ended. How other sources are read does not matter,
but for the import that leads to one. Where nothing is declared, an invariant of reading is kept
that does not hang on what is noted of imports and packages.
-/

namespace Idl

/-- An import leads to a source that the provider knows and can read, that was not read before
and is not too far from the root. -/
theorem Settings.importTarget_eq_fresh {settings : Settings} {registry : Registry}
    {importer : Option SourceId} {name text : String} {id : SourceId}
    (h : settings.importTarget registry importer name = .fresh id text) :
    ∃ provider found, settings.provider = some provider ∧
      provider.resolve importer name = some found ∧ id = found.importedBy importer ∧
      registry.get? id.value = none ∧ id.depth ≤ settings.maxImportDepth ∧
      provider.read id = .ok text := by
  unfold importTarget at h
  split at h
  · cases h
  · rename_i provider hprovider
    split at h
    · cases h
    · rename_i found hfound
      simp only at h
      split at h
      · cases h
      · rename_i hnew
        split at h
        · cases h
        · rename_i hdepth
          split at h
          · rename_i hread
            cases h
            exact ⟨provider, found, hprovider, hfound, rfl, hnew, Nat.not_lt.1 hdepth, hread⟩
          · cases h

theorem Registry.register_of_new {r : Registry} {id : SourceId} (h : r.get? id.value = none) :
    r.register id = (id, ⟨r.sources ++ [id]⟩) := by
  rw [register, h]

namespace Grammar

namespace State

/-- The reading has gone on, and nothing but imports and the package was noted. -/
structure Notes (s s' : State) : Prop where
  rest : s'.cursor.rest <:+ s.cursor.rest
  sources : s'.sources = s.sources
  source : s'.source = s.source
  messages : s.messages <+: s'.messages
  pending : s'.pending = s.pending
  document : s'.document = s.document.note s'.document.imports s'.document.package

namespace Notes

variable {s s' s'' : State}

theorem of_reads (h : s.Reads s') : s.Notes s' where
  rest := h.rest
  sources := h.sources
  source := h.source
  messages := h.messages
  pending := h.pending
  document := by rw [h.document]; rfl

theorem trans (h : s.Notes s') (h' : s'.Notes s'') : s.Notes s'' where
  rest := h'.rest.trans h.rest
  sources := h'.sources.trans h.sources
  source := h'.source.trans h.source
  messages := h.messages.trans h'.messages
  pending := h'.pending.trans h.pending
  document := by rw [h'.document, h.document]; rfl

theorem addImport (h : s.Notes s') (i : Import) : s.Notes (s'.addImport i) :=
  { h with
    document := by
      change s'.document.addImport i = s.document.note (s'.document.addImport i).imports
        (s'.document.addImport i).package
      rw [h.document]
      rfl }

theorem report (h : s.Notes s') (m : Message) : s.Notes (s'.report m) :=
  h.trans (of_reads (reads_report s' m))

theorem of_notesPackage (h : s.NotesPackage s') : s.Notes s' := by
  obtain ⟨s₀, hr, package, rfl⟩ := h
  have hs := of_reads hr
  simp only
  split
  · refine { hs with document := ?_ }
    change { s₀.document with package := some package } = s.document.note s₀.document.imports _
    rw [hs.document]
    rfl
  · exact { hs with }

theorem readPackage (s : State) : s.Notes s.readPackage := by
  have hpackage : After package s _ _ := after_package
  unfold State.readPackage
  cases hp : package s with
  | ok a s' => exact of_notesPackage (hpackage.of_ok hp)
  | error e s' => exact of_reads ((hpackage.of_error hp).trans (reads_recoverOutside s'))

end Notes

/-- The comment in front of the next statement. -/
def comment? (s : State) : Option Comment :=
  s.commentOf? s.cursor.rest

/-- The next statement is an import that can be read. -/
structure Imports (s : State) (i : Import) (s' : State) : Prop where
  first : ∃ t, s.skipComments.current = some t ∧ t.isKeyword "import" = true
  read : importStatement s.comment? s.skipComments = .ok i s'

/-- What an import means in a state. -/
def target (settings : Settings) (s : State) (i : Import) : ImportTarget :=
  settings.importTarget s.sources s.source i.source

/-- A statement that is passed by: it declares nothing, and no source is read for it. Whether
imports may follow it is known as well. -/
inductive Passes (settings : Settings) (atHead : Bool) (s : State) : Bool → State → Prop where
  | unknowable {i : Import} {s' : State} (ha : atHead = true) (h : s.Imports i s')
      (ht : s'.target settings i = .unknowable) :
      Passes settings atHead s true
        ((s'.report (.of .importWithoutSourceProvider i.location)).addImport i)
  | known {i : Import} {s' : State} {id : SourceId} (ha : atHead = true) (h : s.Imports i s')
      (ht : s'.target settings i = .known id) :
      Passes settings atHead s true (s'.addImport { i with resolved := some id })
  | brokenImport {t : Token} {e : Reported} {s' : State} (ha : atHead = true)
      (hc : s.skipComments.current = some t) (ht : t.isKeyword "import" = true)
      (hi : importStatement s.comment? s.skipComments = .error e s') :
      Passes settings atHead s true s'.recoverOutside
  | package {t : Token} (ha : atHead = true) (hc : s.skipComments.current = some t)
      (ht : t.isKeyword "package" = true) :
      Passes settings atHead s false s.skipComments.readPackage
  | stray {t : Token} (hc : s.skipComments.current = some t) (hk : t.kind ≠ .identifier) :
      Passes settings atHead s false
        (s.skipComments.readStatement settings.checks s.comment? t)

/-- An import fails, and stops everything. -/
inductive Halts (settings : Settings) (s : State) : State → Prop where
  | missing {i : Import} {s' : State} (h : s.Imports i s')
      (ht : s'.target settings i = .missing) :
      Halts settings s
        ((s'.addImport i).report (.of .sourceNotFound i.location [(.source, i.source)]))
  | tooDeep {i : Import} {s' : State} (h : s.Imports i s')
      (ht : s'.target settings i = .tooDeep) :
      Halts settings s
        (s'.report (.of .importDepthExceeded i.location
          [(.source, i.source), (.depth, toString settings.maxImportDepth)]))
  | closed {i : Import} {s' : State} (h : s.Imports i s')
      (ht : s'.target settings i = .closed) :
      Halts settings s
        ((s'.addImport i).report (.of .openSourceFailed i.location [(.source, i.source)]))

/-- The state in which a source ends, behind its last comment. -/
def ended (s : State) : State :=
  s.skipComments.misplaced s.comment?

theorem reads_ended (s : State) : s.Reads s.ended :=
  (reads_skipComments s).trans (reads_misplaced _ _)

variable {settings : Settings} {s s' : State}

theorem Imports.reads {i : Import} (h : s.Imports i s') : s.Reads s' := by
  have himport : s.skipComments.Reads s' := (quiet_importStatement _ s.skipComments).of_ok h.read
  exact (reads_skipComments s).trans himport

/-- A source that is read for the first time is registered behind those that are known. -/
theorem Imports.register_eq {i : Import} {id : SourceId} {text : String} (h : s.Imports i s')
    (hf : s'.target settings i = .fresh id text) :
    id ∉ s.sources.sources ∧
      s'.sources.register id = (id, ⟨s.sources.sources ++ [id]⟩) := by
  obtain ⟨_, _, _, _, _, hnew, _, _⟩ := Settings.importTarget_eq_fresh hf
  rw [Registry.register_of_new hnew, ← h.reads.sources]
  exact ⟨fun hmem => Registry.get?_eq_none_iff.1 hnew (List.mem_map_of_mem hmem), rfl⟩

theorem Imports.remaining_lt {i : Import} (h : s.Imports i s') : s'.remaining < s.remaining :=
  Nat.lt_of_lt_of_le (Moment.remaining_importStatement_lt h.read)
    s.cursor.skipComments_rest_length_le

theorem Imports.statementRound_eq {i : Import} (h : s.Imports i s') (settings : Settings)
    (read : SourceReader Unit) :
    statementRound settings read true s =
      (do follow settings read i; return Round.again true) s' := by
  obtain ⟨⟨t, hc, ht⟩, hi⟩ := h
  have hround : importRound settings read s.comment? s.skipComments =
      follow settings read i s' := by
    simp only [importRound, hi]
  simp only [statementRound, run_bind_modifyGet, run_bind_get, leadingComment, hc, ht,
    Bool.and_self, if_true]
  simp only [Bind.bind, EStateM.bind]
  rw [← hround]
  rfl

theorem Passes.statementRound_eq {atHead next : Bool} (h : Passes settings atHead s next s')
    (read : SourceReader Unit) :
    statementRound settings read atHead s = .ok (.again next) s' := by
  cases h with
  | unknowable ha h ht | known ha h ht =>
    rw [target] at ht
    rw [ha, h.statementRound_eq]
    simp only [follow, bind_assoc, run_bind_get, ht]
    rfl
  | @brokenImport t e s₁ ha hc ht hi =>
    have hround : importRound settings read s.comment? s.skipComments =
        .ok () s₁.recoverOutside := by
      simp only [importRound, hi]
    rw [ha]
    simp only [statementRound, run_bind_modifyGet, run_bind_get, leadingComment, hc, ht,
      Bool.and_self, if_true]
    exact run_bind_of_ok hround _
  | package ha hc ht =>
    rw [ha]
    have himport (t : Token) (h : t.isKeyword "package" = true) :
        t.isKeyword "import" = false := by
      simp only [Token.isKeyword, Token.is, Bool.and_eq_true, beq_iff_eq] at h ⊢
      simp [h.2]
    simp only [statementRound, run_bind_modifyGet, run_bind_get, leadingComment, hc, ht,
      himport _ ht, Bool.and_self, Bool.and_false, Bool.false_eq_true, if_false, if_true]
    rfl
  | @stray t hc hk =>
    have hword (keyword : String) : t.isKeyword keyword = false := by
      simp [Token.isKeyword, Token.is, hk]
    simp only [statementRound, run_bind_modifyGet, run_bind_get, leadingComment, hc,
      hword, Bool.and_false, Bool.false_eq_true, if_false]
    rfl

theorem Halts.statementRound_eq (h : s.Halts settings s') (read : SourceReader Unit) :
    statementRound settings read true s = .error .importFailed s' := by
  cases h with
  | missing h ht | tooDeep h ht | closed h ht =>
    rw [target] at ht
    rw [h.statementRound_eq]
    simp only [follow, bind_assoc, run_bind_get, ht]
    rfl

theorem statementRound_ended (h : s.skipComments.current = none) (read : SourceReader Unit)
    (atHead : Bool) : statementRound settings read atHead s = .ok (.done ()) s.ended := by
  simp only [statementRound, run_bind_modifyGet, run_bind_get, leadingComment, h]
  rfl

/-- What starts no declaration is read past. -/
theorem reads_readStatement {checks : List Check} {comment : Option Comment} {t : Token}
    (hk : t.kind ≠ .identifier) : s.Reads (s.readStatement checks comment t) := by
  have hword : (t.kind == .identifier) = false := by simpa using hk
  simp only [readStatement, hword, Bool.false_eq_true, if_false]
  split
  · exact (reads_misplaced _ _).trans (reads_shift _)
  · exact (reads_misplaced _ _).trans (reads_skipGarbage _ t)

theorem Passes.notes {atHead next : Bool} (h : Passes settings atHead s next s') :
    s.Notes s' := by
  cases h with
  | unknowable ha h ht => exact ((Notes.of_reads h.reads).report _).addImport _
  | known ha h ht => exact (Notes.of_reads h.reads).addImport _
  | brokenImport ha hc ht hi =>
    have himport : s.skipComments.Reads _ := (quiet_importStatement _ s.skipComments).of_error hi
    exact .of_reads (((reads_skipComments s).trans himport).trans (reads_recoverOutside _))
  | package ha hc ht => exact (Notes.of_reads (reads_skipComments s)).trans (Notes.readPackage _)
  | stray hc hk => exact .of_reads ((reads_skipComments s).trans (reads_readStatement hk))

theorem Halts.notes (h : s.Halts settings s') : s.Notes s' := by
  cases h with
  | missing h ht | closed h ht => exact ((Notes.of_reads h.reads).addImport _).report _
  | tooDeep h ht => exact (Notes.of_reads h.reads).report _

/-- A statement that is passed by has at least one token. -/
theorem Passes.remaining_lt {atHead next : Bool} (h : Passes settings atHead s next s') :
    s'.remaining < s.remaining := by
  have hskip : s.skipComments.remaining ≤ s.remaining := s.cursor.skipComments_rest_length_le
  have hcloses {t : Token} {keyword : String} (ht : t.isKeyword keyword = true) :
      isClosing t = false := by
    simp only [Token.isKeyword, Token.is, Bool.and_eq_true, beq_iff_eq] at ht
    simp [isClosing, Token.is, ht.1]
  cases h with
  | unknowable ha h ht | known ha h ht => exact h.remaining_lt
  | @brokenImport t e s₁ ha hc ht hi =>
    have himport : s.skipComments.Reads s₁ := (quiet_importStatement _ s.skipComments).of_error hi
    exact Nat.lt_of_lt_of_le (remaining_recoverOutside_lt hc (hcloses ht) himport.rest) hskip
  | @package t ha hc ht =>
    refine Nat.lt_of_lt_of_le ?_ hskip
    have hpackage : After Grammar.package s.skipComments _ _ := after_package
    unfold readPackage
    cases hp : Grammar.package s.skipComments with
    | ok a s' => exact (after_package_remaining s.skipComments).of_ok hp
    | error e s' => exact remaining_recoverOutside_lt hc (hcloses ht) (hpackage.of_error hp).rest
  | @stray t hc hk =>
    refine Nat.lt_of_lt_of_le ?_ hskip
    have hword : (t.kind == .identifier) = false := by simpa using hk
    have hcurrent : (s.skipComments.misplaced s.comment?).current = some t := by
      cases hcomment : s.comment? with
      | none => exact hc
      | some comment => exact hc
    have hrest : (s.skipComments.misplaced s.comment?).remaining = s.skipComments.remaining := by
      cases s.comment? <;> rfl
    simp only [readStatement, hword, Bool.false_eq_true, if_false]
    rw [← hrest]
    split
    · exact remaining_shift_lt hcurrent
    · exact Nat.lt_of_le_of_lt (List.dropWhile_suffix _).length_le (remaining_shift_lt hcurrent)

end State

/-- The invariant is kept where an import or the package is noted. -/
structure Invariant.Notes (I : Invariant) : Prop where
  addImport {s : State} (h : I.state s) (i : Import) : I.state (s.addImport i)
  package : Maintains I Grammar.package fun _ => True

namespace Invariant.Lawful

variable {I : Invariant} (hI : I.Lawful) {settings : Settings} {s s' : State}

include hI

theorem recoverOutside (h : I.state s) : I.state s.recoverOutside :=
  hI.rest (hI.recover h) (List.dropWhile_suffix _)

theorem imports {i : Import} (h : I.state s) (hi : s.Imports i s') :
    I.state s' ∧ I.location i.location :=
  (maintains_importStatement hI _ _ (hI.skipComments h)).of_ok hi.read

theorem ended (h : I.state s) : I.state s.ended :=
  hI.misplaced (hI.skipComments h) (hI.leadingComment h).2

variable (hN : I.Notes)

include hN

theorem readPackage (h : I.state s) : I.state s.readPackage := by
  have hpackage := hN.package s h
  unfold State.readPackage
  cases hp : Grammar.package s with
  | ok a s' => exact (hpackage.of_ok hp).1
  | error e s' => exact hI.recoverOutside (hpackage.of_error hp)

theorem passes {atHead next : Bool} (h : I.state s) (hp : s.Passes settings atHead next s') :
    I.state s' := by
  have hskip := hI.skipComments h
  have hcomment := (hI.leadingComment h).2
  cases hp with
  | @unknowable i s' ha hi ht =>
    obtain ⟨hs', hl⟩ := hI.imports h hi
    exact hN.addImport (hI.report (m := .of .importWithoutSourceProvider i.location) hs' hl rfl) _
  | known ha hi ht => exact hN.addImport (hI.imports h hi).1 _
  | brokenImport ha hc ht hi =>
    have himport := maintains_importStatement hI s.comment? s.skipComments hskip
    exact hI.recoverOutside (himport.of_error hi)
  | package ha hc ht => exact hI.readPackage hN hskip
  | @stray t hc hk =>
    have hmisplaced := hI.misplaced hskip hcomment
    have hword : (t.kind == .identifier) = false := by simpa using hk
    simp only [State.readStatement, hword, Bool.false_eq_true, if_false]
    split
    · exact hI.shift hmisplaced
    · have hreport := hI.report (m := .of .unexpectedToken
        ((s.skipComments.misplaced s.comment?).locationOf t) [(.token, t.text)]) hmisplaced
        (hI.locationOf hmisplaced (hI.current hskip hc)) rfl
      exact hI.rest hreport ((List.dropWhile_suffix _).trans (List.tail_suffix _))

theorem halts (h : I.state s) (hs : s.Halts settings s') : I.state s' := by
  cases hs with
  | missing hi ht | closed hi ht =>
    obtain ⟨hs', hl⟩ := hI.imports h hi
    exact hI.report (hN.addImport hs' _) hl rfl
  | tooDeep hi ht =>
    obtain ⟨hs', hl⟩ := hI.imports h hi
    exact hI.report hs' hl rfl

end Invariant.Lawful

/-- What a moment has before it. -/
inductive Moment.Next (settings : Settings) (m : Moment) : Prop where
  | declare {comment : Option Comment} {s : State} (h : m.Declares comment s)
  | pass {next : Bool} {s : State} (h : State.Passes settings m.atHead m.state next s)
  | enter {i : Import} {s : State} {id : SourceId} {text : String} (ha : m.atHead = true)
      (h : m.state.Imports i s) (hf : s.target settings i = .fresh id text)
  | halt {s : State} (ha : m.atHead = true) (h : m.state.Halts settings s)
  | ended (h : m.state.skipComments.current = none)

theorem Moment.next (settings : Settings) (m : Moment) : m.Next settings := by
  cases hc : m.state.skipComments.current with
  | none => exact .ended hc
  | some t =>
    by_cases hk : t.kind = .identifier
    · by_cases himport : m.atHead = true ∧ t.isKeyword "import" = true
      · obtain ⟨ha, ht⟩ := himport
        cases hi : importStatement m.state.comment? m.state.skipComments with
        | error e s => exact .pass (.brokenImport ha hc ht hi)
        | ok i s =>
          have h : m.state.Imports i s := ⟨⟨t, hc, ht⟩, hi⟩
          cases htarget : s.target settings i with
          | unknowable => exact .pass (.unknowable ha h htarget)
          | missing => exact .halt ha (.missing h htarget)
          | known id => exact .pass (.known ha h htarget)
          | tooDeep => exact .halt ha (.tooDeep h htarget)
          | closed => exact .halt ha (.closed h htarget)
          | fresh id text => exact .enter ha h htarget
      · by_cases hpackage : m.atHead = true ∧ t.isKeyword "package" = true
        · exact .pass (.package hpackage.1 hc hpackage.2)
        · have h : m.Declares m.state.comment? m.state.skipComments :=
            ⟨rfl, t, hc, hk, fun ha =>
              ⟨Bool.eq_false_iff.2 fun ht => himport ⟨ha, ht⟩,
                Bool.eq_false_iff.2 fun ht => hpackage ⟨ha, ht⟩⟩⟩
          exact .declare h
    · exact .pass (.stray hc hk)

end Grammar

end Idl
