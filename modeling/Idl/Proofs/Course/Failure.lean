import Idl.Proofs.Course.Statement
import Idl.Proofs.Grammar.Progress

/-!
What a failure means. A routine of the grammar that fails has reported an error. One that reads no
body whose items are salvaged has then reported this error and nothing else, and no error if it
succeeds. Messages are only ever added, also where a construct is taken back and in sources that
are read in between.
-/

namespace Idl.Grammar

variable {α β : Type} {p : Parser α} {f : α → Parser β} {s s' s'' : State}

/-- Messages were added, and an error is among them. -/
def State.Alarms (s s' : State) : Prop :=
  ∃ more, Message.hasError more = true ∧ s'.messages = s.messages ++ more

/-- A parser that fails with an error, and forgets no message. -/
def Alerts (p : Parser α) : Prop :=
  ∀ s, After p s (fun _ s' => s.messages <+: s'.messages) s.Alarms

/-- A parser that fails with one message, an error, and succeeds without an error. -/
def Exact (p : Parser α) : Prop :=
  ∀ s, After p s
    (fun _ s' => ∃ more, Message.hasError more = false ∧ s'.messages = s.messages ++ more)
    fun s' => ∃ m : Message, m.severity = .error ∧ s'.messages = s.messages ++ [m]

theorem hasError_singleton {m : Message} (h : m.severity = .error) :
    Message.hasError [m] = true := by
  simp [Message.hasError, h]

theorem Exact.alerts (h : Exact p) : Alerts p :=
  fun s => After.mono (h s) (fun _ _ ⟨more, _, hm⟩ => ⟨more, hm.symm⟩)
    fun _ ⟨m, he, hm⟩ => ⟨[m], hasError_singleton he, hm⟩

theorem Brief.exact (h : Brief p) : Exact p :=
  fun s => After.mono (h s) (fun _ _ h => ⟨[], rfl, h.messages⟩)
    fun _ ⟨m, _, he, h⟩ => ⟨m, he, h.messages⟩

theorem Brief.alerts (h : Brief p) : Alerts p :=
  h.exact.alerts

theorem Brief.bind_exact (hp : Brief p) (hf : ∀ a, Exact (f a)) : Exact (p >>= f) := by
  intro s
  apply After.bind
  refine After.mono (hp s) (fun a s' h => ?_) fun _ ⟨m, _, he, h⟩ => ⟨m, he, h.messages⟩
  have hmessages : s'.messages = s.messages := h.messages.trans (List.append_nil _)
  rw [← hmessages]
  exact hf a s'

/-- Behind a parser that may warn stands what is silent and cannot fail. -/
theorem Exact.bind_silent (hp : Exact p)
    (hf : ∀ a s, After (f a) s (fun _ s' => s'.messages = s.messages) fun _ => False) :
    Exact (p >>= f) := by
  intro s
  apply After.bind
  refine After.mono (hp s) (fun a s' ⟨more, hok, hm⟩ => ?_) fun _ h => h
  exact After.mono (hf a s') (fun _ _ h => ⟨more, hok, h.trans hm⟩) fun _ h => h.elim

namespace State

theorem Tells.messages {P : Message → Prop} (h : s.Tells P s') : s.messages <+: s'.messages := by
  obtain ⟨more, _, h⟩ := h
  exact ⟨more, h.messages.symm⟩

variable (checks : List Check) (s : State)

theorem messages_settle {find : Session → Binding → Option DataType} (pending : List Binding) :
    s.messages <+: (s.toSession.settle checks find pending).1.messages := by
  have htells : s.Tells (fun _ => True)
      { s with toSession := (s.toSession.settle checks find pending).1, pending := [] } :=
    tells_settle (fun _ _ => trivial) (Check.forall_speaks checks) s pending
  exact htells.messages

theorem messages_register (x : Declaration) : s.messages <+: (s.register checks x).messages :=
  (tells_register (fun _ _ => trivial) (Check.forall_speaks checks) x s).messages

theorem messages_declare (comment : Option Comment) :
    s.messages <+: (s.declare checks comment).messages :=
  (tells_declare (fun _ _ => trivial) (Check.forall_speaks checks) comment s).messages

end State

section Alerts

theorem State.Alarms.behind (h : s.messages <+: s'.messages) (h' : s'.Alarms s'') :
    s.Alarms s'' := by
  obtain ⟨front, hfront⟩ := h
  obtain ⟨more, he, hmore⟩ := h'
  refine ⟨front ++ more, ?_, ?_⟩
  · rw [Message.hasError_append, he, Bool.or_true]
  · rw [hmore, ← hfront, List.append_assoc]

theorem Alerts.bind (hp : Alerts p) (hf : ∀ a, Alerts (f a)) : Alerts (p >>= f) := by
  intro s
  apply After.bind
  refine After.mono (hp s) (fun a s' h => ?_) fun _ h => h
  exact After.mono (hf a s') (fun _ _ h' => h.trans h') fun _ h' => h'.behind h

theorem alerts_pure (a : α) : Alerts (pure a : Parser α) :=
  fun _ => List.prefix_rfl

theorem alerts_get {f : State → Parser β} (h : ∀ s, Alerts (f s)) : Alerts (get >>= f) :=
  fun s => h s s

theorem alerts_modify {g : State → State} (h : ∀ s : State, s.messages <+: (g s).messages) :
    Alerts (modify g) :=
  h

/-- The rounds read on, so none is broken off without an error. -/
theorem alerts_iterate {round : α → Parser (Round α β)} (h : ∀ a, Alerts (round a))
    (ha : Progresses round) (a : α) : Alerts (iterate round a) := by
  intro s
  refine after_iterate (I := fun _ s' => s.messages <+: s'.messages) (fun a s' hs => ?_)
    List.prefix_rfl
  refine ((h a s').and (ha a s')).mono (fun r s'' ⟨h', _, hlt⟩ => ?_) fun _ ⟨h', _⟩ =>
    h'.behind hs
  cases r with
  | again a' => exact ⟨hs.trans h', .inl (hlt a' rfl)⟩
  | done b => exact hs.trans h'

section Bodies

variable {statement : String} {item : Item}
  (ht : ∀ comment first (s : State), s.Tells (fun _ => True) (item comment first s))

include ht

theorem alerts_bodyRound : Alerts (bodyRound statement item) := by
  have hshift (comment : Option Comment) (s : State) :
      s.messages <+: (s.misplaced comment).shift.messages :=
    ((State.reads_misplaced s comment).trans (State.reads_shift _)).messages
  refine Alerts.bind (fun s => (State.reads_skipComments s).messages) fun comment => ?_
  refine alerts_get fun s => ?_
  split
  · exact (brief_failHere (fun _ => ⟨rfl, rfl⟩) rfl).alerts
  · rename_i t _
    split
    · exact (alerts_modify (hshift comment)).bind fun _ => alerts_pure _
    · split
      · exact (alerts_modify (hshift comment)).bind fun _ => alerts_pure _
      · exact (alerts_modify fun s => (ht comment t s).messages).bind fun _ => alerts_pure _

theorem alerts_items (hi : ItemReadsOn item) : Alerts (items statement item) :=
  alerts_iterate (fun _ => alerts_bodyRound ht) (progresses_bodyRound hi statement) ()

theorem alerts_body (hi : ItemReadsOn item) : Alerts (body statement item) :=
  (brief_openBody statement).alerts.bind fun _ => alerts_items ht hi

end Bodies

end Alerts

section Sites

theorem Site.itemReadsOn (checks : List Check) (site : Site) : ItemReadsOn (site.item checks) := by
  cases site with
  | struct id => exact itemReadsOn_structure checks id
  | enumeration id => exact itemReadsOn_enumeration id
  | interface id => exact itemReadsOn_interface id
  | method id position => exact itemReadsOn_method id position
  | factory id => exact itemReadsOn_factory id

theorem Site.tells_item (checks : List Check) (site : Site) (comment : Option Comment)
    (first : Token) (s : State) :
    s.Tells (fun _ => True) (site.item checks comment first s) := by
  have hP : ∀ m : Message, m.Ordinary → True := fun _ _ => trivial
  cases site with
  | struct id => exact tells_structureItem hP (Check.forall_speaks checks) id comment first s
  | enumeration id => exact tells_enumerationItem hP id comment first s
  | interface id => exact tells_interfaceItem hP id comment first s
  | method id position => exact tells_methodItem hP id position comment first s
  | factory id => exact tells_factoryItem hP id comment first s

theorem alerts_siteItems (checks : List Check) (site : Site) :
    Alerts (items site.statement (site.item checks)) :=
  alerts_items (site.tells_item checks) (site.itemReadsOn checks)

theorem alerts_siteBody (checks : List Check) (site : Site) :
    Alerts (body site.statement (site.item checks)) :=
  alerts_body (site.tells_item checks) (site.itemReadsOn checks)

end Sites

section Routines

/-- The routines that read no body whose items are salvaged. -/
inductive Bodyless : {α : Type} → Parser α → Prop where
  | unexpected {α : Type} (statement : String) :
      Bodyless (Grammar.unexpected statement : Parser α)
  | unknownStatement {α : Type} (t : Token) (context options : String) :
      Bodyless (Grammar.unknownStatement t context options : Parser α)
  | expectKeyword (keyword : String) : Bodyless (Grammar.expectKeyword keyword)
  | expectToken (kind : Token.Kind) (text : String) : Bodyless (Grammar.expectToken kind text)
  | expectName (statement : String) : Bodyless (Grammar.expectName statement)
  | expectSemicolon : Bodyless Grammar.expectSemicolon
  | openBody (statement : String) : Bodyless (Grammar.openBody statement)
  | emptyBody (statement : String) : Bodyless (Grammar.emptyBody statement)
  | typeName (classifier : String) : Bodyless (Grammar.typeName classifier)
  | declaredType (classifier : String) : Bodyless (Grammar.declaredType classifier)
  | typeUse (classifier : String) (scope : Option StructureId) (weak : Bool) :
      Bodyless (Grammar.typeUse classifier scope weak)
  | typeParameter (classifier : String) (scope : Option StructureId) :
      Bodyless (Grammar.typeParameter classifier scope)
  | defaultValue (statement : String) : Bodyless (Grammar.defaultValue statement)
  | checkDefault (t : Option DataType) (default : Default) (statement : String) :
      Bodyless (Grammar.checkDefault t default statement)
  | structureBase : Bodyless Grammar.structureBase
  | alters (id base : StructureId) : Bodyless (Grammar.alters id base)
  | identification (id : StructureId) (comment : Option Comment) (modifiers : List Token) :
      Bodyless (Grammar.identification id comment modifiers)
  | upcopy (id : StructureId) (comment : Option Comment) : Bodyless (Grammar.upcopy id comment)
  | operator (id : StructureId) (comment : Option Comment) (modifiers : List Token) :
      Bodyless (Grammar.operator id comment modifiers)
  | field (id : StructureId) (comment : Option Comment) (modifiers : List Token) (weak : Bool) :
      Bodyless (Grammar.field id comment modifiers weak)
  | overriddenField (id : StructureId) (keyword : Token) (name : String) :
      Bodyless (Grammar.overriddenField id keyword name)
  | filter (id : FactoryId) (comment : Option Comment) (keyword : Token) :
      Bodyless (Grammar.filter id comment keyword)
  | parameter (id : InterfaceId) (method : Nat) (comment : Option Comment) (arrow : Token) :
      Bodyless (Grammar.parameter id method comment arrow)
  | enumerationValue (id : EnumerationId) (comment : Option Comment) (first : Token) :
      Bodyless (Grammar.enumerationValue id comment first)
  | identifier (comment : Option Comment) (modifiers : List Token) :
      Bodyless (Grammar.identifier comment modifiers)
  | specimen (comment : Option Comment) (modifiers : List Token) :
      Bodyless (Grammar.specimen comment modifiers)
  | importStatement (comment : Option Comment) : Bodyless (Grammar.importStatement comment)
  | packagePath : Bodyless Grammar.packagePath
  | package : Bodyless Grammar.package

/-- The routines of the grammar. -/
inductive Routine (checks : List Check) : {α : Type} → Parser α → Prop where
  | bodyless {α : Type} {p : Parser α} (h : Bodyless p) : Routine checks p
  | bodyRound (site : Site) :
      Routine checks (Grammar.bodyRound site.statement (site.item checks))
  | items (site : Site) : Routine checks (Grammar.items site.statement (site.item checks))
  | body (site : Site) : Routine checks (Grammar.body site.statement (site.item checks))
  | enumeration (comment : Option Comment) (modifiers : List Token)
      (owner : Option StructureId) : Routine checks (Grammar.enumeration comment modifiers owner)
  | member (id : StructureId) (comment : Option Comment) (first : Token) :
      Routine checks (Grammar.member id comment first)
  | structureDeclaration (comment : Option Comment) (modifiers : List Token) :
      Routine checks (Grammar.structureDeclaration checks comment modifiers)
  | method (id : InterfaceId) (comment : Option Comment) :
      Routine checks (Grammar.method id comment)
  | interface (comment : Option Comment) : Routine checks (Grammar.interface comment)
  | factory (comment : Option Comment) (modifiers : List Token) :
      Routine checks (Grammar.factory comment modifiers)
  | declaration (comment : Option Comment) :
      Routine checks (Grammar.declaration checks comment)

theorem exact_emptyBody (statement : String) : Exact (emptyBody statement) := by
  refine (brief_openBody _).bind_exact fun _ => ?_
  refine (brief_modifyGet State.says_skipComments).bind_exact fun comment => ?_
  refine (brief_demand (fun _ => ⟨rfl, rfl⟩) rfl _).bind_exact fun _ s => ?_
  cases comment with
  | none => exact ⟨[], rfl, (List.append_nil _).symm⟩
  | some comment => exact ⟨[.of .misplacedComment comment.location], rfl, rfl⟩

/-- A declaration is made behind its body, where nothing fails any more. -/
theorem silent_await (name : Option TypeName) (classifier : String) (scope : Option StructureId)
    (slot : Slot) (a : α) (s : State) :
    After (do await name classifier scope slot; return a) s
      (fun _ s' => s'.messages = s.messages) fun _ => False := by
  cases name <;> exact rfl

theorem exact_identifier (comment : Option Comment) (modifiers : List Token) :
    Exact (identifier comment modifiers) := by
  refine (brief_expectKeyword _).bind_exact fun keyword => ?_
  refine (brief_typeParameter _ _).bind_exact fun use? => ?_
  extract_lets parameter
  refine (brief_expectName _).bind_exact fun name => ?_
  exact (exact_emptyBody _).bind_silent fun _ _ => silent_await _ _ _ _ _ _

theorem exact_specimen (comment : Option Comment) (modifiers : List Token) :
    Exact (specimen comment modifiers) := by
  refine (brief_expectKeyword _).bind_exact fun keyword => ?_
  refine (brief_typeParameter _ _).bind_exact fun use? => ?_
  refine (brief_expectName _).bind_exact fun name => ?_
  refine (brief_isAt _ _).bind_exact fun found => ?_
  extract_lets complete
  have hcomplete (base : Option SpecimenId) : Exact (complete base) :=
    (exact_emptyBody _).bind_silent fun _ _ => silent_await _ _ _ _ _ _
  split
  · refine brief_advance.bind_exact fun _ => Brief.bind_exact ?_ hcomplete
    exact brief_specimenBase.bind fun base => brief_pure (some base)
  · exact (brief_pure none).bind_exact hcomplete

/-- A body that has to be empty may warn of a comment; all else is brief. -/
theorem Bodyless.exact_forward (h : Bodyless p) : Exact p ∧ Forward p := by
  have plain {α : Type} {p : Parser α} (h : Brief p) : Exact p ∧ Forward p := ⟨h.exact, h.forward⟩
  have hP : ∀ m : Message, m.Ordinary → True := fun _ _ => trivial
  cases h with
  | unexpected statement => exact plain (brief_unexpected statement)
  | unknownStatement t context options => exact plain (brief_unknownStatement t context options)
  | expectKeyword keyword => exact plain (brief_expectKeyword keyword)
  | expectToken kind text => exact plain (brief_expectToken kind text)
  | expectName statement => exact plain (brief_expectName statement)
  | expectSemicolon => exact plain brief_expectSemicolon
  | openBody statement => exact plain (brief_openBody statement)
  | emptyBody statement =>
    exact ⟨exact_emptyBody statement, (speaks_emptyBody hP statement).forward⟩
  | typeName classifier => exact plain (brief_typeName classifier)
  | declaredType classifier => exact plain (brief_declaredType classifier)
  | typeUse classifier scope weak => exact plain (brief_typeUse classifier scope weak)
  | typeParameter classifier scope => exact plain (brief_typeParameter classifier scope)
  | defaultValue statement => exact plain (brief_defaultValue statement)
  | checkDefault t default statement => exact plain (brief_checkDefault t default statement)
  | structureBase => exact plain brief_structureBase
  | alters id base => exact plain (brief_alters base)
  | identification id comment modifiers => exact plain (brief_identification comment modifiers)
  | upcopy id comment => exact plain (brief_upcopy comment)
  | operator id comment modifiers => exact plain (brief_operator comment modifiers)
  | field id comment modifiers weak => exact plain (brief_field comment modifiers weak)
  | overriddenField id keyword name => exact plain (brief_overriddenField keyword name)
  | filter id comment keyword => exact plain (brief_filter id comment keyword)
  | parameter id method comment arrow => exact plain (brief_parameter id method comment arrow)
  | enumerationValue id comment first => exact plain (brief_enumerationValue id comment first)
  | identifier comment modifiers =>
    exact ⟨exact_identifier comment modifiers, (speaks_identifier hP comment modifiers).forward⟩
  | specimen comment modifiers =>
    exact ⟨exact_specimen comment modifiers, (speaks_specimen hP comment modifiers).forward⟩
  | importStatement comment => exact plain (brief_importStatement comment)
  | packagePath => exact plain brief_packagePath
  | package => exact plain brief_package

theorem alerts_enumeration (comment : Option Comment) (modifiers : List Token)
    (owner : Option StructureId) : Alerts (enumeration comment modifiers owner) :=
  (brief_enumerationHeader _ _ _).alerts.bind fun id =>
    (alerts_siteBody [] (.enumeration id)).bind fun _ =>
      (alerts_modify fun _ => List.prefix_rfl).bind fun _ => alerts_pure id

theorem alerts_method (id : InterfaceId) (comment : Option Comment) :
    Alerts (method id comment) :=
  (brief_methodHeader id comment).alerts.bind fun position =>
    alerts_siteItems [] (.method id position)

theorem alerts_interface (comment : Option Comment) : Alerts (interface comment) :=
  (brief_interfaceHeader comment).alerts.bind fun id =>
    (alerts_siteBody [] (.interface id)).bind fun _ => alerts_pure id

theorem alerts_factory (comment : Option Comment) (modifiers : List Token) :
    Alerts (factory comment modifiers) :=
  (brief_factoryHeader comment modifiers).alerts.bind fun id =>
    (alerts_siteBody [] (.factory id)).bind fun _ => alerts_pure id

theorem alerts_structureDeclaration (checks : List Check) (comment : Option Comment)
    (modifiers : List Token) : Alerts (structureDeclaration checks comment modifiers) :=
  (brief_structureHeader comment modifiers).alerts.bind fun id =>
    (alerts_siteBody checks (.struct id)).bind fun _ =>
      (alerts_modify fun s => s.messages_settle checks _).bind fun _ => alerts_pure id

theorem alerts_reportModifiers (modifiers : List Token) : Alerts (reportModifiers modifiers) := by
  refine alerts_modify fun s => ?_
  induction modifiers generalizing s with
  | nil => exact List.prefix_rfl
  | cons t modifiers ih => exact (State.reads_report s _).messages.trans (ih _)

theorem alerts_member (id : StructureId) (comment : Option Comment) (first : Token) :
    Alerts (member id comment first) := by
  unfold member
  extract_lets dispatch
  have hdispatch : Alerts (dispatch ()) := by
    refine (brief_modifiers _).alerts.bind fun taken => alerts_get fun s => ?_
    extract_lets t form isReference complete
    have hcomplete (nested : Option EnumerationId) : Alerts (complete nested) :=
      (alerts_reportModifiers _).bind fun _ => alerts_pure _
    have plain {p : Parser Unit} (hp : Brief p) :
        Alerts (do p; let nested ← pure none; complete nested) :=
      hp.alerts.bind fun _ => (alerts_pure _).bind hcomplete
    clear_value form
    cases form with
    | identification => exact plain (brief_identification comment taken)
    | upcopy => exact plain (brief_upcopy comment)
    | operator => exact plain (brief_operator comment taken)
    | field => exact plain (brief_field comment taken _)
    | enumeration =>
      refine Alerts.bind ?_ hcomplete
      exact (alerts_enumeration comment taken _).bind fun _ => alerts_pure _
  split
  · exact (brief_unexpected _).alerts.bind fun _ => hdispatch
  · exact hdispatch

theorem alerts_declaration (checks : List Check) (comment : Option Comment) :
    Alerts (declaration checks comment) := by
  refine (brief_modifiers _).alerts.bind fun taken => alerts_get fun s => ?_
  split
  · exact (brief_failHere (fun _ => ⟨rfl, rfl⟩) rfl).alerts
  · rename_i form _
    extract_lets finish
    have hfinish {α : Type} {p : Parser α} (node : α → Declaration) (hp : Alerts p) :
        Alerts (do let x ← node <$> p; finish x) := by
      refine Alerts.bind (hp.bind fun _ => alerts_pure _) fun x => ?_
      exact (alerts_reportModifiers _).bind fun _ => alerts_pure x
    cases form with
    | struct => exact hfinish _ (alerts_structureDeclaration checks comment taken)
    | interface => exact hfinish _ (alerts_interface comment)
    | enum => exact hfinish _ (alerts_enumeration comment taken none)
    | specimen => exact hfinish _ (exact_specimen comment taken).alerts
    | identifier => exact hfinish _ (exact_identifier comment taken).alerts
    | factory => exact hfinish _ (alerts_factory comment taken)

theorem Routine.alerts {checks : List Check} (h : Routine checks p) : Alerts p := by
  cases h with
  | bodyless h => exact h.exact_forward.1.alerts
  | bodyRound site => exact alerts_bodyRound (site.tells_item checks)
  | items site => exact alerts_siteItems checks site
  | body site => exact alerts_siteBody checks site
  | enumeration comment modifiers owner => exact alerts_enumeration comment modifiers owner
  | member id comment first => exact alerts_member id comment first
  | structureDeclaration comment modifiers =>
    exact alerts_structureDeclaration checks comment modifiers
  | method id comment => exact alerts_method id comment
  | interface comment => exact alerts_interface comment
  | factory comment modifiers => exact alerts_factory comment modifiers
  | declaration comment => exact alerts_declaration checks comment

theorem Routine.forward {checks : List Check} (h : Routine checks p) : Forward p := by
  have hP : ∀ m : Message, m.Ordinary → True := fun _ _ => trivial
  have hc := Check.forall_speaks checks
  cases h with
  | bodyless h => exact h.exact_forward.2
  | bodyRound site =>
    intro s
    exact After.mono (progresses_bodyRound (site.itemReadsOn checks) site.statement () s)
      (fun _ _ h => h.1) fun _ h => h
  | items site => exact (speaks_items hP (site.tells_item checks)).forward
  | body site => exact (speaks_body hP (site.tells_item checks)).forward
  | enumeration comment modifiers owner =>
    exact (speaks_enumeration hP comment modifiers owner).forward
  | member id comment first => exact (speaks_member hP id comment first).forward
  | structureDeclaration comment modifiers =>
    exact (speaks_structureDeclaration hP hc comment modifiers).forward
  | method id comment => exact (speaks_method id comment).forward
  | interface comment => exact (speaks_interface hP comment).forward
  | factory comment modifiers => exact (speaks_factory hP comment modifiers).forward
  | declaration comment => exact (speaks_declaration hP hc comment).forward

end Routines

section Messages

/-- A reader that forgets no message, whether it succeeds or stops. -/
def Remembers {ε : Type} (p : EStateM ε State α) : Prop :=
  ∀ s, After p s (fun _ s' => s.messages <+: s'.messages) fun s' => s.messages <+: s'.messages

variable {ε : Type} {q : EStateM ε State α} {g : α → EStateM ε State β}

theorem Remembers.bind (hq : Remembers q) (hg : ∀ a, Remembers (g a)) : Remembers (q >>= g) := by
  intro s
  apply After.bind
  refine After.mono (hq s) (fun a s' h => ?_) fun _ h => h
  exact After.mono (hg a s') (fun _ _ h' => h.trans h') fun _ h' => h.trans h'

theorem remembers_get {g : State → EStateM ε State β} (h : ∀ s, Remembers (g s)) :
    Remembers (get >>= g) :=
  fun s => h s s

theorem remembers_pure (a : α) : Remembers (pure a : EStateM ε State α) :=
  fun _ => List.prefix_rfl

theorem remembers_modify {g : State → State} (h : ∀ s : State, s.messages <+: (g s).messages) :
    Remembers (modify g : EStateM ε State PUnit) :=
  h

theorem remembers_iterate [Inhabited ε] {round : α → EStateM ε State (Round α β)}
    (h : ∀ a, Remembers (round a)) (a : α) : Remembers (iterate round a) := by
  intro s
  refine after_iterate (I := fun _ s' => s.messages <+: s'.messages) (fun a s' hs => ?_)
    List.prefix_rfl
  refine After.mono (h a s') (fun r s'' h' => ?_) fun _ h' => hs.trans h'
  cases r with
  | again a' => exact ⟨hs.trans h', .inr (hs.trans h')⟩
  | done b => exact hs.trans h'

theorem remembers_stop (m : Message) : Remembers (stop m) :=
  (remembers_modify fun s => (State.reads_report s m).messages).bind fun _ _ => List.prefix_rfl

variable {read : SourceReader Unit} (settings : Settings) (hread : Remembers read)

include hread

theorem remembers_within (id : SourceId) (text : String) : Remembers (within id text read) := by
  intro s
  have h := hread (s.enter id text)
  unfold After within
  cases hr : read (s.enter id text) with
  | ok a inner =>
    have hinner : (s.enter id text).messages <+: inner.messages := h.of_ok hr
    exact hinner
  | error e inner =>
    have hinner : (s.enter id text).messages <+: inner.messages := h.of_error hr
    exact hinner

theorem remembers_follow (i : Import) : Remembers (follow settings read i) := by
  refine remembers_get fun s => ?_
  split
  · exact remembers_modify fun s => (State.reads_report s _).messages
  · exact (remembers_modify fun _ => List.prefix_rfl).bind fun _ => remembers_stop _
  · exact remembers_modify fun _ => List.prefix_rfl
  · exact remembers_stop _
  · exact (remembers_modify fun _ => List.prefix_rfl).bind fun _ => remembers_stop _
  · rename_i id text _
    have htake : Remembers (modify (·.takeIn i id) : SourceReader PUnit) :=
      remembers_modify fun _ => List.prefix_rfl
    refine htake.bind fun _ => (remembers_within hread _ text).bind fun _ => ?_
    exact remembers_modify fun s => s.messages_settle settings.checks s.pending

theorem remembers_statementRound (atHead : Bool) :
    Remembers (statementRound settings read atHead) := by
  have himport (comment : Option Comment) : Remembers (importRound settings read comment) := by
    intro s
    have h := quiet_importStatement comment s
    unfold After importRound
    cases hi : importStatement comment s with
    | ok i s' =>
      exact After.mono (remembers_follow settings hread i s')
        (fun _ _ h' => (h.of_ok hi).messages.trans h') fun _ h' => (h.of_ok hi).messages.trans h'
    | error e s' => exact (h.of_error hi).messages
  have hpackage (s : State) : s.messages <+: s.readPackage.messages :=
    (State.Notes.readPackage s).messages
  have hstatement (comment : Option Comment) (first : Token) (s : State) :
      s.messages <+: (s.readStatement settings.checks comment first).messages := by
    have hmisplaced := (State.reads_misplaced s comment).messages
    unfold State.readStatement
    split
    · exact hmisplaced
    · split
      · exact s.messages_declare settings.checks comment
      · exact hmisplaced.trans (State.reads_skipGarbage _ first).messages
  refine Remembers.bind (fun s => (State.reads_skipComments s).messages) fun comment => ?_
  refine remembers_get fun s => ?_
  split
  · exact (remembers_modify fun s => (State.reads_misplaced s comment).messages).bind
      fun _ => remembers_pure _
  · split
    · exact (himport comment).bind fun _ => remembers_pure _
    · split
      · exact (remembers_modify hpackage).bind fun _ => remembers_pure _
      · exact (remembers_modify (hstatement comment _)).bind fun _ => remembers_pure _

omit hread in
theorem remembers_source (levels : Nat) : Remembers (source settings levels) := by
  induction levels with
  | zero => exact fun _ => List.prefix_rfl
  | succ levels ih => exact remembers_iterate (remembers_statementRound settings ih) true

end Messages

/-- A routine that fails has reported an error, and the ones without a body exactly one message;
those report no error when they succeed. No message is changed or lost, from whatever state on. -/
theorem failures_are_reported (settings : Settings) :
    (∀ {α : Type} {p : Parser α}, Routine settings.checks p → Alerts p) ∧
    (∀ {α : Type} {p : Parser α}, Bodyless p → Exact p) ∧
    (∀ comment (s : State), s.messages <+: (s.declare settings.checks comment).messages) ∧
    ∀ levels, Remembers (source settings levels) :=
  ⟨Routine.alerts, fun h => h.exact_forward.1,
    fun comment s => s.messages_declare settings.checks comment, remembers_source settings⟩

end Idl.Grammar
