import Idl.Proofs.Course.Block
import Idl.Proofs.Course.Termination
import Idl.Proofs.Grammar.Ignore

/-!
Sources next to a stray semicolon. A declaration with a body and all that stands in the body are
read with the semicolon as without it. So is every other statement, unless the reading without the
semicolon comes past the place where the other one has it.
-/

namespace Idl.Grammar

variable {x : Option Stray}

section Items

theorem itemIgnores_enumeration (id : EnumerationId) : ItemIgnores x (enumerationItem id) :=
  itemIgnores_salvage fun comment first s s' hs _ =>
    ignores_enumerationValue id comment first s s' hs

theorem ignores_enumeration (comment : Option Comment) (modifiers : List Token)
    (owner : Option StructureId) : Ignores x .clear .any (enumeration comment modifiers owner) :=
  (ignores_enumerationHeader comment modifiers owner).bind fun id =>
    (ignores_body (itemIgnores_enumeration id) (itemReadsOn_enumeration id) _).bind fun _ =>
      (ignores_modifyDocument _).bind fun _ => ignores_pure id

theorem itemIgnores_method (id : InterfaceId) (position : Nat) :
    ItemIgnores x (methodItem id position) := by
  refine itemIgnores_salvage fun comment first s s' hs hc => ?_
  split
  · rename_i harrow
    have hkind : first.kind = .arrow := beq_iff_eq.1 harrow
    exact ignores_parameter id position comment first s s'
      (hs.inner_of_current hc (isBoundary_of_kind (by simp [hkind]) (by simp [hkind])))
  · exact ignores_failAt _ _ _ s s' hs

theorem ignores_method (id : InterfaceId) (comment : Option Comment) :
    Ignores x .clear .any (method id comment) :=
  (ignores_methodHeader id comment).bind fun position =>
    ignores_items (itemIgnores_method id position) (itemReadsOn_method id position) _

theorem itemIgnores_interface (id : InterfaceId) : ItemIgnores x (interfaceItem id) := by
  refine itemIgnores_salvage fun comment first s s' hs _ => ?_
  split
  · exact ignores_method id comment s s' hs
  · exact ignores_failAt _ _ _ s s' hs

theorem ignores_interface (comment : Option Comment) :
    Ignores x .clear .any (interface comment) :=
  (ignores_interfaceHeader comment).bind fun id =>
    (ignores_body (itemIgnores_interface id) (itemReadsOn_interface id) _).bind fun _ =>
      ignores_pure id

theorem itemIgnores_factory (id : FactoryId) : ItemIgnores x (factoryItem id) := by
  refine itemIgnores_salvage fun comment first s s' hs _ => ?_
  split
  · exact ignores_filter id comment first s s' hs
  · exact ignores_failAt _ _ _ s s' hs

theorem ignores_factory (comment : Option Comment) (modifiers : List Token) :
    Ignores x .clear .any (factory comment modifiers) :=
  (ignores_factoryHeader comment modifiers).bind fun id =>
    (ignores_body (itemIgnores_factory id) (itemReadsOn_factory id) _).bind fun _ =>
      ignores_pure id

theorem ignores_member (id : StructureId) (comment : Option Comment) (first : Token) :
    Ignores x .clear .any (member id comment first) := by
  unfold member
  extract_lets dispatch
  have hdispatch : Ignores x .clear .any (dispatch ()) := by
    refine (ignores_modifiers _).bind fun taken => ignores_get fun s s' hs => ?_
    rw [hs.current]
    extract_lets t form isReference complete
    have hcomplete (nested : Option EnumerationId) : Ignores x .any .any (complete nested) :=
      (ignores_reportModifiers _).bind fun _ => ignores_pure _
    have plain {p : Parser Unit} (hp : Ignores x .clear .any p) :
        Ignores x .clear .any (do p; let nested ← pure none; complete nested) :=
      hp.bind fun _ => (ignores_pure none).bind hcomplete
    clear_value form
    cases form with
    | identification => exact plain (ignores_identification comment taken) s s' hs
    | upcopy => exact plain (ignores_upcopy comment) s s' hs
    | operator => exact plain (ignores_operator comment taken) s s' hs
    | field => exact plain (ignores_field comment taken _) s s' hs
    | enumeration => exact ((ignores_enumeration comment taken _).map.bind hcomplete) s s' hs
  split
  · exact (ignores_unexpected _ : Ignores x .clear .clear _).bind fun _ => hdispatch
  · exact hdispatch

variable {checks : List Check}

theorem acceptNested_beside {t t' : State} (ht : t.Beside x .any t') (id : StructureId)
    (nested : Option EnumerationId) :
    (acceptNested checks id nested t').1 = (acceptNested checks id nested t).1 ∧
      (acceptNested checks id nested t).2.Beside x .any (acceptNested checks id nested t').2 := by
  cases nested with
  | none => exact ⟨rfl, ht⟩
  | some e =>
    obtain ⟨hpassed, hvisit⟩ := ht.session.visit checks (.declaration (.enum e)) false
    have hstates := ht.of_session hvisit ht.pending
    simp only [acceptNested, hpassed]
    split
    · exact ⟨rfl, hstates.modifyDocument _⟩
    · exact ⟨rfl, hstates⟩

theorem itemIgnores_structure (id : StructureId) : ItemIgnores x (structureItem checks id) :=
  fun comment first s s' hs _ => hs.construct (ignores_member id comment first s s' hs)
    (fun nested _ _ ht => acceptNested_beside ht id nested)
    fun _ _ _ _ ht => (ht.rollback s.mark).recover

theorem ignores_structureDeclaration (comment : Option Comment) (modifiers : List Token) :
    Ignores x .clear .any (structureDeclaration checks comment modifiers) := by
  refine (ignores_structureHeader comment modifiers).bind fun id => ?_
  refine (ignores_body (itemIgnores_structure id) (itemReadsOn_structure checks id) _).bind
    fun _ => (ignores_modify fun s s' hs => ?_).bind fun _ => ignores_pure id
  exact hs.settle fun _ _ pending h => h.settleScope checks id pending

end Items

section Declarations

variable {checks : List Check} {comment : Option Comment} {taken : List Token}
  {form : DeclarationForm} {s s' t t' : State}

/-- How a declaration of a form is read behind its modifiers. -/
def readForm (checks : List Check) (comment : Option Comment) (taken : List Token) :
    DeclarationForm → Parser Declaration
  | .struct => .struct <$> structureDeclaration checks comment taken
  | .interface => .interface <$> interface comment
  | .enum => .enum <$> enumeration comment taken none
  | .specimen => .specimen <$> specimen comment taken
  | .identifier => .identifier <$> identifier comment taken
  | .factory => .factory <$> factory comment taken

/-- The modifiers that are left are reported when the declaration is read. -/
def readFormWith (checks : List Check) (comment : Option Comment) (taken : List Token)
    (form : DeclarationForm) : Parser Declaration := do
  let x ← readForm checks comment taken form
  reportModifiers (leftOver taken form.groups)
  return x

theorem declaration_of_form (hm : modifiers declarationModifiers s = .ok taken t)
    (hf : (t.current.bind fun t => DeclarationForm.ofKeyword? t.text) = some form) :
    declaration checks comment s = readFormWith checks comment taken form t := by
  rw [declaration, run_bind_of_ok hm, run_bind_get]
  simp only [hf]
  cases form <;> rfl

theorem nearly_readForm (form : DeclarationForm) :
    Nearly x .clear (readForm checks comment taken form) := by
  cases form with
  | struct => exact (ignores_structureDeclaration comment taken).map.nearly
  | interface => exact (ignores_interface comment).map.nearly
  | enum => exact (ignores_enumeration comment taken none).map.nearly
  | specimen => exact (nearly_specimen comment taken).map
  | identifier => exact (nearly_identifier comment taken).map
  | factory => exact (ignores_factory comment taken).map.nearly

theorem ignores_readForm (hs : form ≠ .specimen) (hi : form ≠ .identifier) :
    Ignores x .clear .any (readForm checks comment taken form) := by
  cases form with
  | struct => exact (ignores_structureDeclaration comment taken).map
  | interface => exact (ignores_interface comment).map
  | enum => exact (ignores_enumeration comment taken none).map
  | specimen => exact absurd rfl hs
  | identifier => exact absurd rfl hi
  | factory => exact (ignores_factory comment taken).map

theorem still_finish (form : DeclarationForm) (taken : List Token) (d : Declaration) :
    Still (do reportModifiers (leftOver taken form.groups); return d : Parser Declaration) :=
  (still_reportModifiers _).bind fun _ => still_pure d

theorem ignores_finish (form : DeclarationForm) (taken : List Token) (d : Declaration) :
    Ignores x .any .any
      (do reportModifiers (leftOver taken form.groups); return d : Parser Declaration) :=
  (ignores_reportModifiers _).bind fun _ => ignores_pure d

/-- A declaration fails in both readings in front of its keyword, or it is of a form that both
readings go on to read. -/
theorem ignores_or_announces (hs : s.Beside x .clear s') (comment : Option Comment) :
    IgnoresAt x (fun _ => .any) (declaration checks comment) (declaration checks comment) s s' ∨
      ∃ form taken t t', s.Announces form ∧ t.Beside x .clear t' ∧
        declaration checks comment s = readFormWith checks comment taken form t ∧
        declaration checks comment s' = readFormWith checks comment taken form t' := by
  have hmodifiers := ignores_modifiers declarationModifiers s s' hs
  cases hm : modifiers declarationModifiers s with
  | error e t =>
    obtain ⟨e', t', hm', ht⟩ := After.of_error hmodifiers hm
    left
    unfold IgnoresAt After declaration
    rw [run_bind_of_error hm]
    exact ⟨e', t', run_bind_of_error hm' _, ht⟩
  | ok taken t =>
    obtain ⟨t', hm', ht⟩ := After.of_ok hmodifiers hm
    cases hf : t.current.bind fun t => DeclarationForm.ofKeyword? t.text with
    | some form =>
      exact .inr ⟨form, taken, t, t', ⟨taken, t, hm, hf⟩, ht, declaration_of_form hm hf,
        declaration_of_form hm' (ht.current ▸ hf)⟩
    | none =>
      have hfail : IgnoresAt x (fun _ : Declaration => .any)
          (failHere .unknownStatement
            [(.context, "source"), (.options, DeclarationForm.options)]) _ t t' :=
        ignores_failHere _ _ t t' ht
      left
      refine hfail.of_eq ?_ ?_
      · simp only [declaration, run_bind_of_ok hm, run_bind_get, hf]
      · simp only [declaration, run_bind_of_ok hm', run_bind_get, ht.current, hf]

theorem nearly_declaration (comment : Option Comment) :
    Nearly x .clear (declaration checks comment) := by
  intro s s' hs
  rcases ignores_or_announces hs comment with h | ⟨form, taken, t, t', _, ht, h, h'⟩
  · exact .inl h
  · have hread : Nearly x .clear (readFormWith checks comment taken form) :=
      (nearly_readForm form).bind (ignores_finish form taken) (still_finish form taken)
    exact (hread t t' ht).of_eq h h'

/-- A declaration of a form that has items in its body. -/
def State.Itemized (s : State) : Prop :=
  ¬ s.Announces .specimen ∧ ¬ s.Announces .identifier

theorem ignores_declaration (hs : s.Beside x .clear s') (hi : s.Itemized)
    (comment : Option Comment) :
    IgnoresAt x (fun _ => .any) (declaration checks comment) (declaration checks comment) s s' := by
  rcases ignores_or_announces hs comment with h | ⟨form, taken, t, t', hform, ht, h, h'⟩
  · exact h
  · have hread : Ignores x .clear .any (readFormWith checks comment taken form) :=
      (ignores_readForm (fun hs => hi.1 (hs ▸ hform)) fun hs => hi.2 (hs ▸ hform)).bind
        (ignores_finish form taken)
    exact (hread t t' ht).of_eq h h'

theorem acceptDeclaration_beside (ht : t.Beside x .any t') (d : Declaration) :
    (t'.acceptDeclaration checks d).1 = (t.acceptDeclaration checks d).1 ∧
      (t.acceptDeclaration checks d).2.Beside x .any (t'.acceptDeclaration checks d).2 := by
  have hregister {t t' : State} (ht : t.Beside x .any t') :
      (t.register checks d).Beside x .any (t'.register checks d) := by
    have hlist := ht.modifyDocument (·.register d)
    unfold State.register
    split
    · exact hlist.settle fun _ _ pending h => h.settleRegistered checks _ pending
    · exact hlist
  obtain ⟨hpassed, hvisit⟩ := ht.session.visit checks (.declaration d) false
  have hstates := ht.of_session hvisit ht.pending
  simp only [State.acceptDeclaration, hpassed]
  split
  · exact ⟨rfl, hregister hstates⟩
  · exact ⟨rfl, hstates⟩

/-- Behind a broken statement the two readings go on at the same point, or the one without the
semicolon has skipped a closing bracket behind it. -/
theorem recoverOutside_beside (ht : t.Beside x .clear t') :
    t.recoverOutside.Beside x .any t'.recoverOutside ∨ t.recoverOutside.Outruns x := by
  obtain ⟨hm, hc⟩ := ht
  exact (hc.resumption 0).dropClosing.imp (fun hc => .intro hm hc) fun ⟨y, hy, hlt⟩ =>
    ⟨y, hy, .inl hlt⟩

theorem recoverOutside_at_end (ht : t.Beside x .clear t') (hend : t.cursor.rest = []) :
    t.recoverOutside.Beside x .any t'.recoverOutside := by
  obtain ⟨hm, hc⟩ := ht
  have hend' := hc.head?
  rw [hend, List.head?_nil, List.head?_eq_none_iff] at hend'
  refine .intro hm (.inl ?_)
  simp only [State.recoverOutside, State.recover, hend, hend', resumption, List.dropWhile_nil]
  exact .past []

/-- A declaration is taken in, taken back or skipped in both readings. -/
theorem declare_beside (hs : s.Beside x .clear s') (comment : Option Comment) :
    (s.declare checks comment).Beside x .any (s'.declare checks comment) ∨
      (s.declare checks comment).Outruns x := by
  rcases nearly_declaration comment s s' hs with hread | hrun
  · cases hp : declaration checks comment s with
    | ok d t =>
      refine .inl (hs.construct hread (fun d _ _ ht => acceptDeclaration_beside ht d) ?_)
      intro e u u' he
      cases hp.symm.trans he
    | error e t =>
      obtain ⟨e', t', hp', ht⟩ := After.of_error hread hp
      simp only [State.declare, State.construct, hp, hp', hs.mark]
      exact recoverOutside_beside (ht.rollback s.mark)
  · right
    cases hp : declaration checks comment s with
    | ok d t =>
      have hend : (s.declare checks comment).cursor = t.cursor := by
        simp only [State.declare, State.construct, hp]
        split <;> exact State.cursor_acceptDeclaration d t
      refine (After.of_ok hrun hp).mono ?_
      rw [State.remaining, hend]
      exact Nat.le_refl _
    | error e t =>
      refine (After.of_error hrun hp).mono ?_
      simp only [State.declare, State.construct, hp]
      exact (State.reads_recoverOutside (t.rollback s.mark)).rest.length_le

/-- The same of a declaration with items that is broken at the end of the source only. -/
theorem declare_itemized (hs : s.Beside x .clear s') (hi : s.Itemized)
    (hfailed : ∀ e t, declaration checks comment s = .error e t → t.cursor.rest = []) :
    (s.declare checks comment).Beside x .any (s'.declare checks comment) := by
  refine hs.construct (ignores_declaration hs hi comment)
    (fun d _ _ ht => acceptDeclaration_beside ht d) fun e t t' he ht => ?_
  exact recoverOutside_at_end (ht.rollback s.mark) (hfailed e t he)

end Declarations

section Accord

variable {α β : Type} {p q : SourceReader α} {s s' t t' : State}

/-- From two states a reader comes to states beside each other, or outruns the semicolon, or is
stopped in both readings. -/
inductive AccordsAt (x : Option Stray) (p : SourceReader α) (s s' : State) : Prop where
  | ok {a : α} {t t' : State} (h : p s = .ok a t) (h' : p s' = .ok a t')
      (ht : t.Beside x .any t')
  | outrun {a : α} {t : State} (h : p s = .ok a t) (ht : t.Outruns x)
  | stopped {e : Stopped} {t t' : State} (h : p s = .error e t) (h' : p s' = .error e t')
      (ht : t.toSession.Twin t'.toSession)

/-- What a reader comes to is what one comes to that goes on in its place. -/
theorem AccordsAt.of_eq (h : AccordsAt x q t t') (hp : p s = q t) (hp' : p s' = q t') :
    AccordsAt x p s s' := by
  cases h with
  | ok h h' ht => exact .ok (hp.trans h) (hp'.trans h') ht
  | outrun h ht => exact .outrun (hp.trans h) ht
  | stopped h h' ht => exact .stopped (hp.trans h) (hp'.trans h') ht

/-- What is done behind a reader without reading on, is done in both readings. -/
theorem AccordsAt.bind (h : AccordsAt x p s s') {f : α → SourceReader β} {b : α → β}
    {g : State → State} (hf : ∀ a t, f a t = .ok (b a) (g t))
    (hg : ∀ t t', t.Beside x .any t' → (g t).Beside x .any (g t'))
    (hr : ∀ t, (g t).cursor = t.cursor) : AccordsAt x (p >>= f) s s' := by
  cases h with
  | @ok a t t' h h' ht =>
    exact .ok ((run_bind_of_ok h f).trans (hf a t)) ((run_bind_of_ok h' f).trans (hf a t'))
      (hg t t' ht)
  | @outrun a t h ht =>
    refine .outrun ((run_bind_of_ok h f).trans (hf a t)) (ht.mono ?_)
    rw [State.remaining, hr]
    exact Nat.le_refl _
  | stopped h h' ht => exact .stopped (run_bind_of_error h f) (run_bind_of_error h' f) ht

theorem AccordsAt.then_pure (h : AccordsAt x p s s') (b : β) :
    AccordsAt x (p >>= fun _ => pure b) s s' :=
  h.bind (fun _ _ => rfl) (fun _ _ ht => ht) fun _ => rfl

/-- What looks at neither the tokens nor the messages sees the same in both readings. -/
theorem accordsAt_consult {edge : Edge} {f : State → SourceReader β}
    (hf : ∀ (s : State) messages cursor, f { s with messages, cursor } = f s)
    (hs : s.Beside x edge s') (h : AccordsAt x (f s) s s') : AccordsAt x (get >>= f) s s' := by
  have hsame : f s' = f s := by
    obtain ⟨_, _⟩ := hs
    exact hf s _ _
  exact h.of_eq (run_bind_get f) ((run_bind_get f).trans (congrFun hsame s'))

theorem accordsAt_modify {g : State → State}
    (h : (g s).Beside x .any (g s') ∨ (g s).Outruns x) : AccordsAt x (modify g) s s' := by
  rcases h with h | h
  · exact .ok rfl rfl h
  · exact .outrun rfl h

theorem accordsAt_stop (m : Message) (hs : s.toSession.Twin s'.toSession) :
    AccordsAt x (stop m) s s' :=
  .stopped rfl rfl (hs.report rfl)

end Accord

section Sources

variable {settings : Settings} {read : SourceReader Unit} {s s' : State}
  (hread : ∀ s s' : State, s.Beside none .clear s' → AccordsAt none read s s')

theorem addImport_beside (hs : s.Beside x .any s') (i : Import) :
    (s.addImport i).Beside x .any (s'.addImport i) :=
  hs.modifyDocument _

theorem takeIn_beside (hs : s.Beside x .any s') (i : Import) (id : SourceId) :
    (s.takeIn i id).Beside x .any (s'.takeIn i id) := by
  obtain ⟨hm, hc⟩ := hs
  exact .intro hm hc

theorem importRound_of_ok {comment : Option Comment} {i : Import} {t : State}
    (h : importStatement comment s = .ok i t) :
    importRound settings read comment s = follow settings read i t := by
  simp only [importRound, h]

theorem importRound_of_error {comment : Option Comment} {e : Reported} {t : State}
    (h : importStatement comment s = .error e t) :
    importRound settings read comment s = .ok () t.recoverOutside := by
  simp only [importRound, h]

theorem readPackage_beside (hs : s.Beside x .clear s') :
    s.readPackage.Beside x .any s'.readPackage ∨ s.readPackage.Outruns x := by
  have hpackage := ignores_package s s' hs
  unfold State.readPackage
  cases hp : package s with
  | ok _ t =>
    obtain ⟨t', hp', ht⟩ := After.of_ok hpackage hp
    rw [hp']
    exact .inl ht
  | error e t =>
    obtain ⟨e', t', hp', ht⟩ := After.of_error hpackage hp
    rw [hp']
    exact recoverOutside_beside ht

theorem skipGarbage_beside (hs : s.Beside x .clear s') (first : Token) :
    (s.skipGarbage first).Beside x .any (s'.skipGarbage first) := by
  have hreport : (s.report
      (.of .unexpectedToken (s.locationOf first) [(.token, first.text)])).Beside x .clear
      (s'.report (.of .unexpectedToken (s'.locationOf first) [(.token, first.text)])) :=
    hs.report (by rfl)
  refine hreport.shift.dropWhile fun t ht => ?_
  obtain ⟨hkind, _⟩ := Bool.and_eq_true_iff.1 ht
  simp [beq_iff_eq.1 hkind]

theorem readStatement_beside (hs : s.Beside x .clear s') (checks : List Check)
    (comment : Option Comment) (first : Token) :
    (s.readStatement checks comment first).Beside x .any (s'.readStatement checks comment first) ∨
      (s.readStatement checks comment first).Outruns x := by
  unfold State.readStatement
  split
  · exact .inl (hs.misplaced comment).shift
  · split
    · exact declare_beside hs comment
    · exact .inl (skipGarbage_beside (hs.misplaced comment) first)

include hread

/-- An imported source is read in between, and has no stray semicolon in it. -/
theorem within_beside (hs : s.Beside x .any s') (id : SourceId) (text : String) :
    (∃ t t', within id text read s = .ok () t ∧ within id text read s' = .ok () t' ∧
      t.Beside x .any t') ∨
    ∃ e t t', within id text read s = .error e t ∧ within id text read s' = .error e t' ∧
      t.toSession.Twin t'.toSession := by
  have henter : (s.enter id text).Beside none .clear (s'.enter id text) := by
    obtain ⟨hm, _⟩ := hs
    exact .of_rest hm rfl
  unfold within
  cases hread _ _ henter with
  | @ok a t t' h h' ht =>
    refine .inl ⟨s.leave t, s'.leave t', by rw [h], by rw [h'], ?_⟩
    exact hs.of_session ht.session (by rw [hs.pending, ht.pending])
  | outrun h ht =>
    obtain ⟨_, hy, _⟩ := ht
    cases hy
  | @stopped e t t' h h' ht =>
    exact .inr ⟨e, s.leave t, s'.leave t', by rw [h], by rw [h'], ht⟩

theorem accordsAt_follow (hs : s.Beside x .any s') (i : Import) :
    AccordsAt x (follow settings read i) s s' := by
  have hstop (m : Message) : AccordsAt x (do modify (·.addImport i); stop m) s s' :=
    (accordsAt_stop m (addImport_beside hs i).session).of_eq rfl rfl
  refine accordsAt_consult (fun _ _ _ => rfl) hs ?_
  split
  · exact accordsAt_modify (.inl (addImport_beside (hs.report (by rfl)) i))
  · exact hstop _
  · exact accordsAt_modify (.inl (addImport_beside hs _))
  · exact accordsAt_stop _ hs.session
  · exact hstop _
  · rename_i id text _
    have hrescan {t t' : State} (ht : t.Beside x .any t') :
        (t.rescan settings.checks).Beside x .any (t'.rescan settings.checks) :=
      ht.settle fun _ _ pending h => h.settleAll settings.checks false pending
    refine AccordsAt.of_eq ?_ (run_bind_modify _ _) (run_bind_modify _ _)
    rcases within_beside hread (takeIn_beside hs i id) (s.sources.register id).1 text with
      ⟨t, t', h, h', ht⟩ | ⟨e, t, t', h, h', ht⟩
    · exact .ok (run_bind_of_ok h _) (run_bind_of_ok h' _) (hrescan ht)
    · exact .stopped (run_bind_of_error h _) (run_bind_of_error h' _) ht

theorem accordsAt_importRound (hs : s.Beside x .clear s') (comment : Option Comment) :
    AccordsAt x (importRound settings read comment) s s' := by
  have himport := ignores_importStatement comment s s' hs
  cases hi : importStatement comment s with
  | ok i t =>
    obtain ⟨t', hi', ht⟩ := After.of_ok himport hi
    exact (accordsAt_follow hread ht i).of_eq (importRound_of_ok hi) (importRound_of_ok hi')
  | error e t =>
    obtain ⟨e', t', hi', ht⟩ := After.of_error himport hi
    rcases recoverOutside_beside ht with hr | hr
    · exact .ok (importRound_of_error hi) (importRound_of_error hi') hr
    · exact .outrun (importRound_of_error hi) hr

/-- A statement away from the stray semicolon. -/
theorem accordsAt_statementRound (atHead : Bool) (hs : s.Beside x .clear s') :
    AccordsAt x (statementRound settings read atHead) s s' := by
  have hskip := hs.skipComments
  have hcomment : (s'.leadingComment).1 = (s.leadingComment).1 := hs.commentOf?
  have hcurrent : (s'.leadingComment).2.current = (s.leadingComment).2.current := hskip.current
  refine AccordsAt.of_eq ?_ (run_bind_modifyGet _ _)
    ((run_bind_modifyGet _ _).trans (by rw [hcomment]))
  refine AccordsAt.of_eq ?_ (run_bind_get _) ((run_bind_get _).trans (by rw [hcurrent]))
  split
  · exact (accordsAt_modify (.inl (hskip.any.misplaced _))).then_pure _
  · rename_i first _
    split
    · exact (accordsAt_importRound hread hskip _).then_pure _
    · split
      · exact (accordsAt_modify (readPackage_beside hskip)).then_pure _
      · exact (accordsAt_modify (readStatement_beside hskip _ _ first)).then_pure _

end Sources

end Idl.Grammar
