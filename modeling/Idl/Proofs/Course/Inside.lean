import Idl.Proofs.Course.Moment

/-!
Inside of declarations. Wherever the items of a body are read, the reading can be taken back to
the start of the item: what stands there is sound, and what the item adds lies above. A construct
that fails therefore leaves nothing but its messages.
-/

namespace Idl.Grammar

/-- The bodies whose items are read, with what they belong to. -/
inductive Site where
  | struct (id : StructureId)
  | enumeration (id : EnumerationId)
  | interface (id : InterfaceId)
  | method (id : InterfaceId) (position : Nat)
  | factory (id : FactoryId)

namespace Site

def statement : Site → String
  | struct _ => "structure"
  | enumeration _ => "enumeration"
  | interface _ => "interface"
  | method _ _ => "method"
  | factory _ => "factory"

def item (checks : List Check) : Site → Item
  | struct id => structureItem checks id
  | enumeration id => enumerationItem id
  | interface id => interfaceItem id
  | method id position => methodItem id position
  | factory id => factoryItem id

/-- The node of the body is there, above the mark. -/
def Stands (m : Mark) (d : Document) : Site → Prop
  | struct id => m.extent.structures ≤ id.index ∧ id.index < d.structures.size
  | enumeration id => m.extent.enumerations ≤ id.index
  | interface id => m.extent.interfaces ≤ id.index ∧ id.index < d.interfaces.size
  | method id position => m.extent.interfaces ≤ id.index ∧ HoldsMethod d id position
  | factory id => m.extent.factories ≤ id.index

theorem Stands.mono {m : Mark} {d d' : Document} {site : Site} (h : site.Stands m d)
    (g : d.Grows d') : site.Stands m d' := by
  cases site with
  | struct id => exact ⟨h.1, Nat.lt_of_lt_of_le h.2 g.extent.1⟩
  | interface id => exact ⟨h.1, Nat.lt_of_lt_of_le h.2 g.extent.2.2.2.2.1⟩
  | method id position => exact ⟨h.1, h.2.mono g⟩
  | enumeration id | factory id => exact h

theorem edited_item {checks : List Check} {others : List Binding} {m : Mark} {s : State}
    {site : Site} (hs : s.Ready others m) (h : site.Stands m s.document)
    (comment : Option Comment) (first : Token) :
    Edited checks m s (site.item checks comment first s) := by
  cases site with
  | struct id => exact .inl (edits_structureItem hs.sound hs.mark h.1 h.2 comment first)
  | enumeration id => exact .inl (edits_enumerationItem hs.sound hs.mark h comment first)
  | interface id => exact edited_interfaceItem hs h.1 h.2 comment first
  | method id position => exact .inl (edits_methodItem hs.sound hs.mark h.1 h.2 comment first)
  | factory id => exact .inl (edits_factoryItem hs.sound h comment first)

/-- A round of a body behind which another one follows edits the state, if it does not break off
at the end of the source. -/
theorem edited_round {checks : List Check} {others : List Binding} {m : Mark} {s s' : State}
    {site : Site} (hs : s.Ready others m) (h : site.Stands m s.document)
    (hr : bodyRound site.statement (site.item checks) s = .ok (.again ()) s') :
    Edited checks m s s' := by
  have hround : After (bodyRound site.statement (site.item checks)) s
      (fun r s' => r = .again () → Edited checks m s s') fun _ => True := by
    refine after_bodyRound (fun _ _ _ _ h => by cases h) (fun _ _ _ hr _ _ => .inl (.read hr))
      (fun comment t hc _ _ _ => ?_) fun _ _ _ _ => trivial
    have hskip := State.reads_skipComments s
    rw [← hskip.document] at h
    exact (Edits.read hskip).edited hs (edited_item (hs.reads hskip) h comment t)
  exact hround.of_ok hr rfl

/-- An item that cannot be read, or is read and then rejected. -/
inductive Fails (checks : List Check) (comment : Option Comment) (first : Token) (s : State) :
    Site → Prop where
  | member {id : StructureId} {e : Reported} {s' : State}
      (h : Grammar.member id comment first s = .error e s') :
      Fails checks comment first s (.struct id)
  | nested {id : StructureId} {e : Option EnumerationId} {s' : State}
      (h : Grammar.member id comment first s = .ok e s')
      (ha : (acceptNested checks id e s').1 = false) : Fails checks comment first s (.struct id)
  | value {id : EnumerationId} {e : Reported} {s' : State}
      (h : enumerationValue id comment first s = .error e s') :
      Fails checks comment first s (.enumeration id)
  | parameter {id : InterfaceId} {position : Nat} {e : Reported} {s' : State}
      (hk : first.kind = .arrow)
      (h : Grammar.parameter id position comment first s = .error e s') :
      Fails checks comment first s (.method id position)
  | filter {id : FactoryId} {e : Reported} {s' : State} (hk : first.isKeyword "filter" = true)
      (h : Grammar.filter id comment first s = .error e s') :
      Fails checks comment first s (.factory id)

theorem Fails.reads_item {checks : List Check} {others : List Binding} {m : Mark} {s : State}
    {site : Site} {comment : Option Comment} {first : Token}
    (hf : site.Fails checks comment first s) (hs : s.Ready others m)
    (h : site.Stands m s.document) : s.Reads (site.item checks comment first s) := by
  cases hf with
  | member hp => exact reads_structureItem_of_broken hs.sound hs.mark h.1 h.2 hp
  | nested hp ha => exact reads_structureItem_of_rejected hs.sound hs.mark h.1 h.2 hp ha
  | value hp =>
    have hvalue : Builds checks m s.mark (enumerationValue _ comment first) s _ :=
      builds_enumerationValue hs.sound.ready hs.mark h comment first
    exact reads_salvage_of_broken hs.sound hvalue hp
  | @parameter id position e s' hk hp =>
    have hitem : Builds checks m s.mark _ s _ :=
      builds_methodItem hs.sound.ready hs.mark h.1 h.2 comment first
    have hbroken : (if first.kind == .arrow then Grammar.parameter id position comment first
        else unknownStatement first "method" "-->, <-- or <->") s = .error e s' := by
      simpa only [hk, beq_self_eq_true, if_true] using hp
    exact reads_salvage_of_broken hs.sound hitem hbroken
  | @filter id e s' hk hp =>
    have hitem : Builds checks m s.mark _ s _ :=
      builds_factoryItem hs.sound.ready h comment first
    have hbroken : (if first.isKeyword "filter" then Grammar.filter id comment first
        else unknownStatement first "factory" "filter") s = .error e s' := by
      simpa only [hk, if_true] using hp
    exact reads_salvage_of_broken hs.sound hitem hbroken

end Site

/-- The header of a declaration of a form is read up to its body. -/
inductive Header (comment : Option Comment) (taken : List Token) (s : State) :
    DeclarationForm → Site → State → Prop where
  | struct {id : StructureId} {s' : State} (h : structureHeader comment taken s = .ok id s') :
      Header comment taken s .struct (.struct id) s'
  | enum {id : EnumerationId} {s' : State}
      (h : enumerationHeader comment taken none s = .ok id s') :
      Header comment taken s .enum (.enumeration id) s'
  | interface {id : InterfaceId} {s' : State} (h : interfaceHeader comment s = .ok id s') :
      Header comment taken s .interface (.interface id) s'
  | factory {id : FactoryId} {s' : State} (h : factoryHeader comment taken s = .ok id s') :
      Header comment taken s .factory (.factory id) s'

theorem Header.edits {checks : List Check} {others : List Binding} {m : Mark}
    {comment : Option Comment} {taken : List Token} {s s' : State} {form : DeclarationForm}
    {site : Site} (h : Header comment taken s form site s') (hs : s.Ready others m) :
    Edits checks m s s' ∧ site.Stands m s'.document := by
  cases h with
  | struct h => exact After.of_ok (builds_structureHeader hs comment taken) h
  | enum h =>
    obtain ⟨he, hid, _⟩ :=
      After.of_ok (builds_enumerationHeader hs s.hasScope_none comment taken) h
    exact ⟨he, hid⟩
  | interface h => exact After.of_ok (builds_interfaceHeader hs comment) h
  | factory h =>
    obtain ⟨he, hid, _⟩ := After.of_ok (builds_factoryHeader hs comment taken) h
    exact ⟨he, hid⟩

namespace Moment

/-- The next statement of the source is read as a declaration, from the state `s` on. -/
structure Declares (m : Moment) (comment : Option Comment) (s : State) : Prop where
  state : m.state.leadingComment = (comment, s)
  first : ∃ t, s.current = some t ∧ t.kind = .identifier ∧
    (m.atHead = true → t.isKeyword "import" = false ∧ t.isKeyword "package" = false)

theorem Declares.sound {m : Moment} {comment : Option Comment} {s : State}
    (hd : m.Declares comment s) (hm : m.situation.Sound) : s.Sound (waitingIn m.importers) := by
  cases hd.state
  exact State.Sound.reads hm (State.reads_skipComments m.state)

/-- The source has come to the state `s`, which lies between two items of a body. -/
inductive Inside (checks : List Check) (m : Moment) : Site → State → Prop where
  | top {comment : Option Comment} {taken : List Token} {form : DeclarationForm} {site : Site}
      {s s₁ s₂ s₃ : State} (hd : m.Declares comment s)
      (ht : modifiers declarationModifiers s = .ok taken s₁)
      (hf : (s₁.current.bind fun t => DeclarationForm.ofKeyword? t.text) = some form)
      (hh : Header comment taken s₁ form site s₂) (ho : openBody site.statement s₂ = .ok () s₃) :
      Inside checks m site s₃
  | nested {id : StructureId} {comment : Option Comment} {t : Token} {taken : List Token}
      {e : EnumerationId} {s s₀ s₁ s₂ s₃ : State} (h : Inside checks m (.struct id) s)
      (hs : s.leadingComment = (comment, s₀)) (hc : s₀.current = some t)
      (hk : t.kind = .identifier) (ht : modifiers memberModifiers s₀ = .ok taken s₁)
      (hf : MemberForm.ofToken s₁.current = .enumeration)
      (hh : enumerationHeader comment taken (some id) s₁ = .ok e s₂)
      (ho : openBody "enumeration" s₂ = .ok () s₃) : Inside checks m (.enumeration e) s₃
  | method {id : InterfaceId} {comment : Option Comment} {t : Token} {position : Nat}
      {s s₀ s₁ : State} (h : Inside checks m (.interface id) s)
      (hs : s.leadingComment = (comment, s₀)) (hc : s₀.current = some t)
      (hk : t.isKeyword "method" = true) (hh : methodHeader id comment s₀ = .ok position s₁) :
      Inside checks m (.method id position) s₁
  | next {site : Site} {s s' : State} (h : Inside checks m site s)
      (hr : bodyRound site.statement (site.item checks) s = .ok (.again ()) s')
      (hlt : s'.remaining < s.remaining) : Inside checks m site s'

/-- No round follows where the source has ended. -/
theorem bodyRound_ne_again {statement : String} {item : Item} {s s' : State}
    (hend : s.cursor.rest = []) : bodyRound statement item s ≠ .ok (.again ()) s' := by
  intro hr
  have hround : After (bodyRound statement item) s (fun _ _ => False) fun _ => True := by
    have hnone := State.current_of_end hend
    refine after_bodyRound (fun t _ hc _ => ?_) (fun t _ hc _ _ => ?_)
      (fun _ t hc _ _ => ?_) fun _ _ _ _ => trivial
    all_goals
      rw [hnone] at hc
      cases hc
  exact hround.of_ok hr

/-- Between two items of a body the document is sound, and all that was read since the body
was opened lies above a mark; or the source has ended. -/
theorem Inside.stands {checks : List Check} {m : Moment} {site : Site} {s : State}
    (h : m.Inside checks site s) (hm : m.situation.Sound) :
    (∃ mark, s.Ready (waitingIn m.importers) mark ∧ site.Stands mark s.document) ∨
      s.cursor.rest = [] := by
  induction h with
  | @top comment taken form site s s₁ s₂ s₃ hd ht hf hh ho =>
    have hs := hd.sound hm
    have hs₁ := hs.ready.reads ((quiet_modifiers _ _).of_ok ht)
    obtain ⟨he, hstands⟩ : Edits checks _ s₁ s₂ ∧ _ := hh.edits hs₁
    have hopen : s₂.Reads s₃ := (quiet_openBody _ s₂).of_ok ho
    rw [← hopen.document] at hstands
    exact .inl ⟨_, (he.ready hs₁).reads hopen, hstands⟩
  | @nested id comment t taken e s s₀ s₁ s₂ s₃ h hs hc hk ht hf hh ho ih =>
    cases hs
    rcases ih with ⟨mark, hready, hstands⟩ | hend
    · have hr := State.reads_skipComments s
      have hready₀ := (hready.reads hr).sound.ready
      have hr₁ : s.skipComments.Reads s₁ := (quiet_modifiers _ _).of_ok ht
      have hscope : s₁.HasScope (some id) := by
        rintro _ ⟨⟩
        rw [(hr.trans hr₁).document]
        exact hstands.2
      have hs₁ := hready₀.reads hr₁
      obtain ⟨he, hid, _⟩ : Edits checks _ s₁ s₂ ∧ _ :=
        After.of_ok (builds_enumerationHeader hs₁ hscope _ taken) hh
      have hopen : s₂.Reads s₃ := (quiet_openBody _ s₂).of_ok ho
      exact .inl ⟨_, (he.ready hs₁).reads hopen, hid⟩
    · rw [State.current_of_end hend] at hc
      cases hc
  | @method id comment t position s s₀ s₁ h hs hc hk hh ih =>
    cases hs
    rcases ih with ⟨mark, hready, hstands⟩ | hend
    · have hready₀ := hready.reads (State.reads_skipComments s)
      obtain ⟨he, hholds⟩ : Edits checks mark _ s₁ ∧ _ :=
        After.of_ok (builds_methodHeader hready₀ hstands.1 hstands.2 _) hh
      exact .inl ⟨mark, he.ready hready₀, hstands.1, hholds⟩
    · rw [State.current_of_end hend] at hc
      cases hc
  | @next site s s' h hr hlt ih =>
    rcases ih with ⟨mark, hready, hstands⟩ | hend
    · rcases Site.edited_round hready hstands hr with he | hb
      · exact .inl ⟨mark, he.ready hready, hstands.mono (he.grows hready)⟩
      · exact .inr hb.2
    · exact absurd hr (bodyRound_ne_again hend)

/-- A declaration that cannot be read, or is read and then rejected. -/
inductive DeclarationFails (checks : List Check) (comment : Option Comment) (s : State) : Prop where
  | broken {e : Reported} {s' : State} (h : declaration checks comment s = .error e s')
  | rejected {x : Declaration} {s' : State} (h : declaration checks comment s = .ok x s')
      (ha : (State.acceptDeclaration checks x s').1 = false)

theorem Declares.statementRound_eq {m : Moment} {comment : Option Comment} {s : State}
    (hd : m.Declares comment s) (settings : Settings) (read : SourceReader Unit) :
    statementRound settings read m.atHead m.state =
      .ok (.again false) (s.declare settings.checks comment) := by
  obtain ⟨t, hc, hk, hhead⟩ := hd.first
  have hsemicolon : isSemicolon t = false := by simp [isSemicolon, Token.is, hk]
  have himport : (m.atHead && t.isKeyword "import") = false := by
    cases h : m.atHead with
    | false => rfl
    | true => exact (hhead h).1
  have hpackage : (m.atHead && t.isKeyword "package") = false := by
    cases h : m.atHead with
    | false => rfl
    | true => exact (hhead h).2
  simp only [statementRound, run_bind_modifyGet, run_bind_get, hd.state, hc, himport, hpackage,
    Bool.false_eq_true, if_false, run_bind_modify, State.readStatement, hsemicolon, hk,
    beq_self_eq_true, if_true]
  rfl

theorem bodyRound_item {statement : String} {item : Item} {comment : Option Comment}
    {first : Token} {s s₀ : State} (hs : s.leadingComment = (comment, s₀))
    (hc : s₀.current = some first) (hclosing : isClosing first = false)
    (hsemicolon : isSemicolon first = false) :
    bodyRound statement item s = .ok (.again ()) (item comment first s₀) := by
  simp only [bodyRound, run_bind_modifyGet, run_bind_get, hs, hc, hclosing, hsemicolon,
    Bool.false_eq_true, if_false, run_bind_modify]
  rfl

variable {settings : Settings} {root : Option SourceId} {tokens : List Token} {m : Moment}

/-- A declaration or an item of a body that fails leaves nothing but messages: the document and
the names that wait are as they were before it. -/
theorem failed_constructs_leave_messages (h : Reached settings root tokens m) :
    (∀ comment s, m.Declares comment s → DeclarationFails settings.checks comment s →
      ∃ s', statementRound settings (source settings m.levels) m.atHead m.state =
        .ok (.again false) s' ∧ s.Reads s') ∧
    (∀ site s comment s₀ first, m.Inside settings.checks site s →
      s.leadingComment = (comment, s₀) → s₀.current = some first → isClosing first = false →
      isSemicolon first = false → site.Fails settings.checks comment first s₀ →
      ∃ s', bodyRound site.statement (site.item settings.checks) s = .ok (.again ()) s' ∧
        s₀.Reads s') := by
  have hm := h.sound
  refine ⟨fun comment s hd hf => ?_,
    fun site s comment s₀ first hi hs hc hclosing hsemicolon hf => ?_⟩
  · refine ⟨_, hd.statementRound_eq settings _, ?_⟩
    have hs : s.Sound (waitingIn m.importers) := hd.sound hm
    cases hf with
    | broken hp => exact State.reads_declare_of_broken hs hp
    | rejected hp ha => exact State.reads_declare_of_rejected hs hp ha
  · refine ⟨_, bodyRound_item hs hc hclosing hsemicolon, ?_⟩
    cases hs
    rcases hi.stands hm with ⟨mark, hready, hstands⟩ | hend
    · have hskip := State.reads_skipComments s
      rw [← hskip.document] at hstands
      exact hf.reads_item (hready.reads hskip) hstands
    · rw [State.current_of_end hend] at hc
      cases hc

/-- The statement where the source ends inside of a structure with a field whose type waits. -/
theorem failed_constructs_leave_messages_unclosed :
    ∃ s', statementRound {} (source {} 65) true
        (.root none (Token.tokenize "structure A \x7b B b;")) = .ok (.again false) s' ∧
      s'.document.extent = ⟨0, 0, 0, 0, 0, 0, 0⟩ ∧ s'.pending = [] := by
  let s : State := .root none (Token.tokenize "structure A \x7b B b;")
  have hword : (s.skipComments.current.any fun t =>
      t.kind == .identifier && !t.isKeyword "import" && !t.isKeyword "package") = true := by
    decide +kernel
  obtain ⟨t, ht, hkind⟩ := (Option.any_eq_true _ _).1 hword
  simp only [Bool.and_eq_true, beq_iff_eq, Bool.not_eq_true'] at hkind
  have hbroken : (match declaration Check.standard (s.commentOf? s.cursor.rest) s.skipComments with
    | .error _ _ => true
    | .ok _ _ => false) = true := by decide +kernel
  split at hbroken
  · rename_i e s₁ hp
    obtain ⟨s', hround, hreads⟩ := (failed_constructs_leave_messages
      (.refl : Reached {} none (Token.tokenize "structure A \x7b B b;") _)).1 _ s.skipComments
        ⟨rfl, t, ht, hkind.1.1, fun _ => ⟨hkind.1.2, hkind.2⟩⟩ (.broken hp)
    exact ⟨s', hround, by rw [hreads.document]; rfl, hreads.pending⟩
  · cases hbroken

end Moment

end Idl.Grammar
