import Idl.Proofs.Course.Specimen
import Idl.Proofs.Reading.Report

/-!
Filters of factories. A filter statement is refused for the type of a factory exactly when this
type is not known to be a structure where the statement is read. If the type is known by then, it
stays as it is; but a name that still waits is taken for no structure, whatever it is bound to
later.
-/

namespace Idl

/-- Factories are no types, so they do not matter for the meaning of a name. -/
theorem Document.findType?_of_factories (d : Document) (factories : Arena .factory Factory)
    (package : Option Package) (path : List String) (scope : Option StructureId) (name : String) :
    ({ d with factories } : Document).findType? package path scope name =
      d.findType? package path scope name := by
  unfold findType?
  induction path.reverse generalizing scope name with
  | nil => rfl
  | cons outer more ih =>
    simp only [findBehind?, ih]
    rfl

namespace Grammar

variable {checks : List Check} {others : List Binding} {comment : Option Comment}
  {taken : List Token} {first : Token} {id : FactoryId} {s s' : State}

section Awaited

variable {classifier : String} {scope : Option StructureId} {weak : Bool}

theorem after_closeTemplates_known (outer : List Template) (t : DataType) (s : State) :
    After (closeTemplates classifier scope weak outer (.known t)) s
      (fun use _ => ∃ t, use = .known t) fun _ => True := by
  induction outer generalizing t s with
  | nil => exact ⟨t, rfl⟩
  | cons template outer ih =>
    refine After.bind_of_run (fun _ s₁ _ => ?_) fun _ _ _ => trivial
    refine After.bind_of_run (fun inst s₂ _ => ?_) fun _ _ _ => trivial
    exact After.bind_of_run (fun _ s₃ _ => ih _ s₃) fun _ _ _ => trivial

/-- A type whose name is left to wait is nothing but a name that means no type. -/
theorem after_typeUse_awaited (s : State) :
    After (typeUse classifier scope weak) s
      (fun use s' => ∀ name, use = .awaited name → s.Reads s' ∧ s.find? scope name = none)
      fun _ => True := by
  refine (quiet_templates classifier).after_bind (.refl s) fun (outer, name) s₁ hr => ?_
  apply After.bind
  apply after_get
  extract_lets core
  cases outer with
  | nil =>
    intro awaited (hcore : core = _)
    refine ⟨hr, ?_⟩
    have hfind : s₁.find? scope name = s.find? scope name := by
      rw [State.find?, State.find?, hr.document, hr.package]
    simp only [core, hfind] at hcore
    cases hf : s.find? scope name with
    | some t => simp [hf] at hcore
    | none =>
      simp only [hf, TypeUse.awaited.injEq] at hcore
      exact hcore ▸ hf
  | cons template outer =>
    refine After.bind_of_run (fun _ s₂ _ => ?_) fun _ _ _ => trivial
    refine After.bind_of_run (fun inst s₃ _ => ?_) fun _ _ _ => trivial
    refine After.bind_of_run (fun _ s₄ _ => ?_) fun _ _ _ => trivial
    refine (after_closeTemplates_known _ _ s₄).mono (fun use _ h name hname => ?_) fun _ h => h
    obtain ⟨t, rfl⟩ := h
    cases hname

theorem after_typeParameter_awaited (s : State) :
    After (typeParameter classifier scope) s
      (fun use? s' => ∀ name, use? = some (.awaited name) →
        s.Reads s' ∧ s.find? scope name = none) fun _ => True := by
  unfold typeParameter
  refine (quiet_isAt _ _).after_bind (.refl s) fun opened s₁ hr₁ => ?_
  split
  · refine quiet_advance.after_bind hr₁ fun _ s₂ hr₂ => ?_
    apply After.bind
    refine (after_typeUse_awaited s₂).mono (fun use s₃ huse => ?_) fun _ h => h
    refine (quiet_expectToken .relation ">").after_bind (.refl s₃) fun _ s₄ hr₄ => ?_
    rintro name ⟨⟩
    obtain ⟨hr₃, hnone⟩ := huse name rfl
    rw [State.find?, hr₂.document, hr₂.package] at hnone
    exact ⟨hr₂.trans (hr₃.trans hr₄), hnone⟩
  · exact nofun

end Awaited

namespace State

/-- The name of the factory's type waits, and means no type. -/
def AwaitsType (s : State) (id : FactoryId) : Prop :=
  ∃ b ∈ s.pending, b.slot = .factoryParameter id ∧ b.find? s.document = none

/-- The factory is there with its type, or with a name that waits for it. -/
structure HasFactory (s : State) (id : FactoryId) (f : Factory) : Prop where
  node : s.document.factories.get? id = some f
  awaits : f.parameter = none → s.AwaitsType id

end State

theorem after_factoryHeader (s : State) :
    After (factoryHeader comment taken) s (fun id s' => ∃ f, s'.HasFactory id f)
      fun _ => True := by
  unfold factoryHeader
  refine (quiet_expectKeyword _).after_bind (.refl s) fun keyword s₁ hr₁ => ?_
  refine (quiet_factoryKind _ _).after_bind hr₁ fun kind s₂ hr₂ => ?_
  refine (quiet_factoryFunction _ _).after_bind hr₂ fun function s₃ hr₃ => ?_
  apply After.bind
  refine (after_typeParameter_awaited s₃).mono (fun use? s₄ huse => ?_) fun _ h => h
  split
  · exact (fails_failHere _ _ s₄).mono (fun _ _ h => h.elim) fun _ _ => trivial
  · rename_i parameter
    refine (quiet_expectName _).after_bind (.refl s₄) fun name s₅ hr₅ => ?_
    apply After.bind
    apply after_get
    extract_lets id header
    have hget : (s₅.document.insertFactory header).factories.get? id = some header := by
      simp [Document.insertFactory, id, Arena.get?_insert]
    cases parameter with
    | known t => exact ⟨header, hget, fun hnone => absurd hnone (Option.some_ne_none t)⟩
    | awaited name =>
      refine ⟨header, hget, fun _ => ⟨_, List.mem_append_right _ (List.mem_singleton_self _),
        rfl, ?_⟩⟩
      obtain ⟨hr₄, hnone⟩ := huse name rfl
      rw [State.find?, ← hr₄.document, ← hr₅.document, ← hr₄.package, ← hr₅.package] at hnone
      exact (s₅.document.findType?_of_factories _ _ _ _ _).trans hnone

theorem State.HasFactory.reads {f : Factory} (h : s.HasFactory id f) (hr : s.Reads s') :
    s'.HasFactory id f := by
  obtain ⟨hnode, hawaits⟩ := h
  refine ⟨hr.document ▸ hnode, fun hf => ?_⟩
  rw [AwaitsType, hr.document, hr.pending]
  exact hawaits hf

theorem after_filter {f : Factory} (h : s.HasFactory id f) :
    After (filter id comment first) s (fun _ s' => ∃ f, s'.HasFactory id f) fun _ => True := by
  unfold filter
  refine (quiet_expectKeyword _).after_bind (.refl s) fun _ s₁ hr₁ => ?_
  apply After.bind
  apply after_get
  extract_lets factory found
  have hfound (s₂ : State) (hr₂ : s.Reads s₂) :
      After (found ()) s₂ (fun _ s' => ∃ f, s'.HasFactory id f) fun _ => True := by
    simp only [found]
    split
    · exact (fails_failAt _ _ _ s₂).mono (fun _ _ h => h.elim) fun _ _ => trivial
    · refine (quiet_expectName _).after_bind hr₂ fun name s₃ hr₃ => ?_
      split
      · exact (fails_fail _ s₃).mono (fun _ _ h => h.elim) fun _ _ => trivial
      · rename_i owner field
        refine (quiet_expectKeyword _).after_bind hr₃ fun _ s₄ hr₄ => ?_
        refine (quiet_expectName _).after_bind hr₄ fun method s₅ hr₅ => ?_
        refine quiet_expectSemicolon.after_bind hr₅ fun _ s₆ hr₆ => ?_
        obtain ⟨hnode, hawaits⟩ := h.reads hr₆
        refine ⟨_, (Arena.get?_modify ..).trans (by rw [if_pos rfl, hnode]; rfl), fun hf => ?_⟩
        obtain ⟨b, hb, hslot, hnone⟩ := hawaits hf
        exact ⟨b, hb, hslot, (s₆.document.findType?_of_factories _ _ _ _ _).trans hnone⟩
  split
  · exact (quiet_failAt _ _ _).after_bind hr₁ fun _ s₂ hr₂ => hfound s₂ hr₂
  · exact hfound s₁ hr₁

/-- What holds behind an item that is read holds behind it if it also holds where nothing is. -/
theorem salvage_of_after {p : Parser Unit} {m : Mark} {P : Unit → State → Prop}
    {Q : State → Prop} (hs : s.Sound others) (h : Builds checks m s.mark p s P)
    (hok : After p s (fun _ s' => Q s') fun _ => True) (hreads : ∀ s', s.Reads s' → Q s') :
    Q (s.salvage p) := by
  cases hp : p s with
  | ok a s' =>
    have hsalvage : s.salvage p = s' := construct_of_accepted hp rfl
    exact hsalvage ▸ hok.of_ok hp
  | error e s' => exact hreads _ (reads_salvage_of_broken hs h hp)

/-- Another item of the body leaves the factory its type, or the name that waits for it. -/
theorem State.HasFactory.factoryItem {f : Factory} {m : Mark} (h : s.HasFactory id f)
    (hs : s.Ready others m) (hid : m.extent.factories ≤ id.index) (comment : Option Comment)
    (first : Token) : ∃ f, (factoryItem id comment first s).HasFactory id f := by
  have hbuilds : Builds [] m s.mark (if first.isKeyword "filter" then filter id comment first
      else unknownStatement first "factory" "filter") s _ :=
    builds_factoryItem hs.sound.ready hid comment first
  refine salvage_of_after (Q := fun s' => ∃ f, s'.HasFactory id f) hs.sound hbuilds ?_
    fun s' hr => ⟨f, h.reads hr⟩
  split
  · exact after_filter h
  · exact (fails_unknownStatement _ _ _ s).mono (fun _ _ h => h.elim) fun _ _ => trivial

/-- Another round of the body does so too. -/
theorem State.HasFactory.round {f : Factory} {m : Mark} (h : s.HasFactory id f)
    (hs : s.Ready others m) (hid : m.extent.factories ≤ id.index)
    (hr : bodyRound "factory" (Grammar.factoryItem id) s = .ok (.again ()) s') :
    ∃ f, s'.HasFactory id f := by
  have hround : After (bodyRound "factory" (Grammar.factoryItem id)) s
      (fun r s' => r = .again () → ∃ f, s'.HasFactory id f) fun _ => True := by
    refine after_bodyRound (fun _ _ _ _ h => by cases h) (fun _ _ _ hr _ _ => ⟨f, h.reads hr⟩)
      (fun comment t _ _ _ _ => ?_) fun _ _ _ _ => trivial
    have hskip := State.reads_skipComments s
    exact (h.reads hskip).factoryItem (hs.reads hskip) hid comment t
  exact hround.of_ok hr rfl

/-- What is read of a factory behind the opening bracket of its body. -/
def restOfFactory (id : FactoryId) (taken : List Token) : Parser Declaration := do
  items "factory" (factoryItem id)
  reportModifiers (leftOver taken DeclarationForm.factory.groups)
  return .factory id

theorem declaration_of_factory (checks : List Check) {s₁ s₂ : State}
    (ht : modifiers declarationModifiers s = .ok taken s₁)
    (hf : (s₁.current.bind fun t => DeclarationForm.ofKeyword? t.text) = some .factory)
    (hh : factoryHeader comment taken s₁ = .ok id s₂) (ho : openBody "factory" s₂ = .ok () s') :
    declaration checks comment s = restOfFactory id taken s' := by
  unfold declaration
  rw [run_bind_of_ok ht, run_bind_get]
  simp only [hf, factory, body, map_eq_pure_bind, bind_assoc, pure_bind]
  rw [run_bind_of_ok hh]
  exact run_bind_of_ok ho _

section Refuse

variable {kind other : Message.Kind}

/-- Parsers that fail with another kind of message report none of this kind. -/
theorem speaks_expect (h : kind ≠ other) (accept : Token → Bool)
    (params : List (Message.Param × String)) :
    Speaks (·.kind ≠ other) (expect accept kind params) := by
  intro s
  unfold After
  cases hc : s.current.filter accept with
  | some t =>
    rw [expect_of_some hc]
    exact (State.says_advance s).tells
  | none =>
    rw [expect_of_none hc]
    exact State.tells_report h

theorem speaks_expectName (h : .expectStatementName ≠ other) (statement : String) :
    Speaks (·.kind ≠ other) (expectName statement) :=
  (speaks_expect h _ _).bind fun _ => speaks_get fun _ s => .refl s

theorem speaks_expectSemicolon (h : .expectSemicolon ≠ other) :
    Speaks (·.kind ≠ other) expectSemicolon := by
  refine Speaks.bind (speaks_get fun s => ?_) fun _ =>
    speaks_modify fun s => (State.says_shift s).tells
  split
  · exact fun s => .refl s
  · exact speaks_get fun _ _ => State.tells_report h

theorem speaks_modifyDocument {g : Document → Document}
    (h : ∀ (d : Document) x, (g d).heading? x = d.heading? x) :
    Speaks (·.kind ≠ other) (modifyDocument g) :=
  fun s => (State.says_modifyDocument (.of_eq (h s.document))).tells

theorem filter_of_keyword (hc : s.current = some first) (hk : first.isKeyword "filter" = true)
    (comment : Option Comment) {f : Factory} (hf : s.document.factories.get? id = some f)
    (hkind : f.kind = .object) :
    (f.parameter.bind DataType.asStructure? = none →
      ∃ e, filter id comment first s = .error e
        (s.advance.report (.of .filterInFactoryForNonStructure (s.locationOf first)))) ∧
    (∀ owner, f.parameter.bind DataType.asStructure? = some owner →
      After (filter id comment first) s
        (fun _ => s.Tells (·.kind ≠ .filterInFactoryForNonStructure))
        (s.Tells (·.kind ≠ .filterInFactoryForNonStructure))) := by
  have hkeyword : expectKeyword "filter" s = .ok first s.advance :=
    expect_of_some (by rw [hc, Option.filter_some, if_pos hk])
  have hf' : s.advance.document.factories.get? id = some f := hf
  unfold filter
  rw [After, run_bind_of_ok hkeyword, run_bind_get]
  simp only [hf', Option.any_some, hkind, beq_self_eq_true, Bool.not_true, Bool.false_eq_true,
    if_false, Option.bind_some]
  refine ⟨fun hnone => ?_, fun owner howner => ?_⟩
  · rw [hnone]
    exact ⟨_, rfl⟩
  · rw [howner]
    refine After.mono ((?_ : Speaks (·.kind ≠ .filterInFactoryForNonStructure) _) s.advance)
      (fun _ _ h => (State.says_advance s).tells.trans h)
      fun _ h => (State.says_advance s).tells.trans h
    refine (speaks_expectName (by decide) _).bind fun name => ?_
    split
    · exact fun _ => State.tells_report fun h => by cases h
    · refine (speaks_expect (by decide) _ _).bind fun _ => ?_
      refine (speaks_expectName (by decide) _).bind fun method => ?_
      refine (speaks_expectSemicolon (by decide)).bind fun _ => speaks_get fun s => ?_
      exact speaks_modifyDocument fun _ x => Document.heading?_modifyFactory x fun _ => rfl

/-- A filter statement says nothing about the type of the factory if it is a structure; if it is
none that is known, it says nothing else. -/
theorem messages_factoryItem (hc : s.current = some first)
    (hk : first.isKeyword "filter" = true) (comment : Option Comment) {f : Factory}
    (hf : s.document.factories.get? id = some f) (hkind : f.kind = .object) :
    ∃ more, (factoryItem id comment first s).messages = s.messages ++ more ∧
      (f.parameter.bind DataType.asStructure? = none →
        more = [.of .filterInFactoryForNonStructure (s.locationOf first)]) ∧
      ((f.parameter.bind DataType.asStructure?).isSome = true →
        ∀ x ∈ more, x.kind ≠ .filterInFactoryForNonStructure) := by
  obtain ⟨hnone, hsome⟩ := filter_of_keyword hc hk comment hf hkind
  have hitem : factoryItem id comment first s = s.salvage (filter id comment first) := by
    rw [factoryItem, if_pos hk]
  rw [hitem]
  unfold State.salvage State.construct
  cases howner : f.parameter.bind DataType.asStructure? with
  | none =>
    obtain ⟨e, he⟩ := hnone howner
    rw [he]
    exact ⟨_, rfl, fun _ => rfl, nofun⟩
  | some owner =>
    have htells := hsome owner howner
    cases hp : filter id comment first s with
    | ok a s' =>
      obtain ⟨more, hmore, hsays⟩ := htells.of_ok hp
      exact ⟨more, hsays.messages, nofun, fun _ => hmore⟩
    | error e s' =>
      obtain ⟨more, hmore, hsays⟩ := htells.of_error hp
      exact ⟨more, hsays.messages, nofun, fun _ => hmore⟩

end Refuse

/-- The factory that is declared first, and the state behind the opening bracket of its body. -/
def State.opensFactory? (comment : Option Comment) (s : State) : Option (FactoryId × State) :=
  match modifiers declarationModifiers s with
  | .ok taken s₁ =>
    if (s₁.current.bind fun t => DeclarationForm.ofKeyword? t.text) == some .factory then
      match factoryHeader comment taken s₁ with
      | .ok id s₂ =>
        match openBody "factory" s₂ with
        | .ok _ s₃ => some (id, s₃)
        | .error _ _ => none
      | .error _ _ => none
    else none
  | .error _ _ => none

namespace Moment

variable {m : Moment}

theorem Declares.inside_of_opensFactory? {start : State} (hd : m.Declares comment start)
    (h : start.opensFactory? comment = some (id, s)) : m.Inside checks (.factory id) s := by
  unfold State.opensFactory? at h
  split at h
  · rename_i taken s₁ ht
    split at h
    · rename_i hform
      split at h
      · rename_i id' s₂ hh
        split at h
        · rename_i s₃ ho
          cases h
          exact .top hd ht (beq_iff_eq.1 hform) (.factory hh) ho
        · cases h
      · cases h
    · cases h
  · cases h

/-- The next statement declares a factory; its body has been read up to the state. -/
structure InFactory (checks : List Check) (m : Moment) (id : FactoryId) (comment : Option Comment)
    (start s : State) : Prop where
  declares : m.Declares comment start
  rest : ∃ taken, declaration checks comment start = restOfFactory id taken s
  factory : ∃ f, s.HasFactory id f

theorem Inside.inFactory (h : m.Inside checks (.factory id) s) (hm : m.situation.Sound) :
    ∃ comment start, m.InFactory checks id comment start s := by
  generalize hsite : Site.factory id = site at h
  induction h with
  | @top comment taken form site start s₁ s₂ s₃ hd ht hf hh ho =>
    subst hsite
    cases hh with
    | factory hh =>
      obtain ⟨f, hnode⟩ := (after_factoryHeader s₁).of_ok hh
      have hopen : s₂.Reads s₃ := (quiet_openBody _ s₂).of_ok ho
      exact ⟨comment, start, hd, ⟨taken, declaration_of_factory checks ht hf hh ho⟩,
        f, hnode.reads hopen⟩
  | nested => cases hsite
  | method => cases hsite
  | @next site s s' h hr hlt ih =>
    subst hsite
    obtain ⟨comment, start, hd, ⟨taken, hrest⟩, f, hnode⟩ := ih rfl
    rcases h.stands hm with ⟨mark, hready, hstands⟩ | hend
    · refine ⟨comment, start, hd, ⟨taken, hrest.trans ?_⟩, hnode.round hready hstands hr⟩
      have hitems : items "factory" (factoryItem id) s = items "factory" (factoryItem id) s' :=
        iterate_of_again hr hlt
      unfold restOfFactory
      simp only [Bind.bind, EStateM.bind, hitems]
    · exact absurd hr (bodyRound_ne_again hend)

/-- The type that the factory has in its body stays when the declaration is taken in. -/
theorem InFactory.slot?_declare {start : State} {m' : Mark} {t : DataType}
    (h : m.InFactory checks id comment start s) (hs : s.Ready others m')
    (hid : m'.extent.factories ≤ id.index)
    (ht : s.document.slot? (.factoryParameter id) = some (some t))
    (hfails : ¬ DeclarationFails checks comment start) :
    (start.declare checks comment).document.slot? (.factoryParameter id) = some (some t) := by
  obtain ⟨_, ⟨taken, hrest⟩, _⟩ := h
  cases hp : declaration checks comment start with
  | error e s' => exact absurd (.broken hp) hfails
  | ok x s' =>
    cases ha : (State.acceptDeclaration checks x s').1 with
    | false => exact absurd (.rejected hp ha) hfails
    | true =>
      have hread : After (restOfFactory id taken) s (fun x s' => x = .factory id ∧
          s'.document.slot? (.factoryParameter id) = some (some t)) fun _ => True := by
        unfold restOfFactory
        apply After.bind
        have hitems : Builds checks m' m' (items "factory" (factoryItem id)) s _ :=
          builds_items hs fun comment t s' hs' _ _ _ =>
            .inl (edits_factoryItem hs'.sound hid comment t)
        refine After.mono hitems (fun _ s₁ ⟨_, hg⟩ => ?_) fun _ _ => trivial
        refine (quiet_reportModifiers _).after_bind (.refl s₁) fun _ s₂ hr₂ => ⟨rfl, ?_⟩
        rw [hr₂.document]
        exact hg.filled _ t ht
      obtain ⟨rfl, hslot⟩ := hread.of_ok (hrest ▸ hp)
      have hdeclare : start.declare checks comment = _ := construct_of_accepted hp ha
      rw [hdeclare]
      simp only [State.acceptDeclaration] at ha ⊢
      split at ha
      · rename_i hpassed
        rw [if_pos hpassed]
        exact (Document.slot?_register _ (.factory id) _).trans hslot
      · cases ha

variable {settings : Settings} {root : Option SourceId} {tokens : List Token}

/-- A filter statement of an object factory is refused for the type of the factory just where
this type is no structure or not known yet. What is not known is a name that waits and means no
type; and a type that is known is the one that the factory has in the end. -/
theorem filters_need_known_structures (h : Reached settings root tokens m)
    (hi : m.Inside settings.checks (.factory id) s) (hs : s.leadingComment = (comment, s'))
    (hc : s'.current = some first) (hk : first.isKeyword "filter" = true) {f : Factory}
    (hf : s'.document.factories.get? id = some f) (hkind : f.kind = .object) :
    (∃ s'' more, bodyRound "factory" (factoryItem id) s = .ok (.again ()) s'' ∧
      s''.messages = s.messages ++ more ∧
      (f.parameter.bind DataType.asStructure? = none →
        more = [.of .filterInFactoryForNonStructure (s'.locationOf first)]) ∧
      ((f.parameter.bind DataType.asStructure?).isSome = true →
        ∀ x ∈ more, x.kind ≠ .filterInFactoryForNonStructure)) ∧
    (f.parameter = none → s'.AwaitsType id) ∧
    ∀ t, f.parameter = some t → ∀ comment start, m.Declares comment start →
      ¬ DeclarationFails settings.checks comment start →
      (settings.readTokens root tokens).document.slot? (.factoryParameter id) = some (some t) := by
  have hkind' : first.kind = .identifier := beq_iff_eq.1 (Bool.and_eq_true_iff.1 hk).1
  have hclosing : isClosing first = false := by simp [isClosing, Token.is, hkind']
  have hsemicolon : isSemicolon first = false := by simp [isSemicolon, Token.is, hkind']
  have hround : bodyRound "factory" (factoryItem id) s = _ :=
    bodyRound_item hs hc hclosing hsemicolon
  have hm := h.sound
  obtain ⟨comment', start, hin⟩ := hi.inFactory hm
  obtain ⟨g, hg⟩ := hin.factory
  cases hs
  have hskip := State.reads_skipComments s
  obtain rfl : g = f := Option.some.inj ((hg.reads hskip).node.symm.trans hf)
  refine ⟨?_, (hg.reads hskip).awaits, fun t ht comment start' hd hfails => ?_⟩
  · obtain ⟨more, hmessages, hmore⟩ := messages_factoryItem hc hk _ hf hkind
    exact ⟨_, more, hround, hmessages, hmore⟩
  · rcases hi.stands hm with ⟨mark, hready, hstands⟩ | hend
    · cases hin.declares.state.symm.trans hd.state
      have hslot : s.document.slot? (.factoryParameter id) = some (some t) := by
        rw [Document.slot?, hg.node, Option.map_some, ht]
      have hdeclared := hin.slot?_declare hready hstands hslot hfails
      obtain ⟨levels, importers, atHead, s₀⟩ := m
      exact Reached.slot?_readTokens (.tail h (Move.declare hd).step) hdeclared
    · rw [State.current_of_end hend] at hc
      cases hc

/-- The type of this factory is known, and it is no structure. -/
theorem filters_need_known_structures_integer :
    let settings : Settings := {}
    let tokens := Token.tokenize "object factory<integer> F \x7b filter a with b; \x7d"
    let start := (Moment.start settings none tokens).state
    ∃ s s' x, start.skipComments.opensFactory? start.comment? = some (⟨0⟩, s) ∧
      bodyRound "factory" (factoryItem ⟨0⟩) s = .ok (.again ()) s' ∧
      s'.messages = s.messages ++ [x] ∧ x.kind = .filterInFactoryForNonStructure ∧
      (settings.readTokens none tokens).document.slot? (.factoryParameter ⟨0⟩) =
        some (some (.builtin .integer)) := by
  intro settings tokens start
  have hword : (start.skipComments.current.any fun t =>
      t.kind == .identifier && !t.isKeyword "import" && !t.isKeyword "package") = true := by
    decide +kernel
  obtain ⟨t, ht, hkind⟩ := (Option.any_eq_true _ _).1 hword
  simp only [Bool.and_eq_true, beq_iff_eq, Bool.not_eq_true'] at hkind
  have hd : (Moment.start settings none tokens).Declares start.comment? start.skipComments :=
    ⟨rfl, t, ht, hkind.1.1, fun _ => ⟨hkind.1.2, hkind.2⟩⟩
  have hfails : ¬ DeclarationFails settings.checks start.comment? start.skipComments := by
    have haccepted : (match declaration settings.checks start.comment? start.skipComments with
      | .ok x s => (State.acceptDeclaration settings.checks x s).1
      | .error _ _ => false) = true := by decide +kernel
    rintro (⟨h⟩ | ⟨h, ha⟩)
    · simp [h] at haccepted
    · simp [h, ha] at haccepted
  have hopened : ((start.skipComments.opensFactory? start.comment?).any fun (id, s) =>
      id == ⟨0⟩ && s.skipComments.current.any (·.isKeyword "filter") &&
      (s.skipComments.document.factories.get? ⟨0⟩).any fun f =>
        f.kind == .object && f.parameter == some (.builtin .integer)) = true := by decide +kernel
  obtain ⟨⟨id, s⟩, hs, hopened⟩ := (Option.any_eq_true _ _).1 hopened
  simp only [Bool.and_eq_true, beq_iff_eq] at hopened
  obtain ⟨⟨rfl, hkeyword⟩, hfactory⟩ := hopened
  obtain ⟨first, hc, hk⟩ := (Option.any_eq_true _ _).1 hkeyword
  obtain ⟨f, hf, hobject⟩ := (Option.any_eq_true _ _).1 hfactory
  simp only [Bool.and_eq_true, beq_iff_eq] at hobject
  obtain ⟨⟨s', more, hround, hmessages, hnone, _⟩, _, hlast⟩ :=
    filters_need_known_structures (.refl : Reached settings none tokens _)
      (hd.inside_of_opensFactory? hs) rfl hc hk hf hobject.1
  have hmore := hnone (by rw [hobject.2]; rfl)
  subst hmore
  exact ⟨s, s', _, hs, hround, hmessages, rfl, hlast _ hobject.2 _ _ hd hfails⟩

/-- The structure is declared behind the factory, so the filter of its field is refused; and yet
the factory has the structure as its type in the end. -/
theorem filter_refused_before_structure :
    let outcome := ({} : Settings).readTokens none (Token.tokenize
      "object factory<S> F \x7b filter id with byId; \x7d structure S \x7b integer id; \x7d")
    outcome.messages = [.of .filterInFactoryForNonStructure ⟨none, 1, 23⟩] ∧ outcome.ok = false ∧
      outcome.document.declarations = [.factory ⟨0⟩, .struct ⟨0⟩] ∧
      outcome.document.slot? (.factoryParameter ⟨0⟩) = some (some (.struct ⟨0⟩)) ∧
      (outcome.document.findField? ⟨0⟩ "id").isSome = true := by
  decide +kernel

end Moment

end Grammar

end Idl
