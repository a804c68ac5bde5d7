import Idl.Proofs.Document.Write
import Idl.Proofs.Reading.Run

/-!
Invariants of reading. An invariant speaks of the states in which a source is read, of the tokens
that are read there, of the locations at which something is reported or written down, of the
headings that are written, and of the names that may wait. If it obeys a few laws, one for each
thing that a routine of the grammar does to a state, all routines maintain it.
-/

namespace Idl.Grammar

/-- What holds while a source is read. -/
structure Invariant where
  state : State → Prop
  token : Token → Prop
  location : Location → Prop
  heading : Heading → Prop
  name : TypeName → Prop

namespace Invariant

/-- The invariant holds of all that is read and written in a state of which it holds. -/
structure Lawful (I : Invariant) : Prop where
  rest {s : State} {rest : List Token} (h : I.state s) (hr : rest <:+ s.cursor.rest) :
    I.state { s with cursor := { s.cursor with rest } }
  token {s : State} {t : Token} (h : I.state s) (ht : t ∈ s.cursor.rest) : I.token t
  locationOf {s : State} {t : Token} (h : I.state s) (ht : I.token t) :
    I.location (s.locationOf t)
  heading {s : State} {x : Heading} (h : I.state s) (hl : I.location x.location)
    (hn : I.location x.name.location) (hp : x.package = s.package) : I.heading x
  ending {s : State} (h : I.state s) (he : s.cursor.rest = []) : I.location s.here
  report {s : State} {m : Message} (h : I.state s) (hm : I.location m.location)
    (hk : m.kind.isFinding = false) : I.state (s.report m)
  unknown {s : State} {scope : Option StructureId} {name : TypeName} (h : I.state s)
    (ht : I.token name.first) (hn : s.find? scope name = none) : I.name name
  await {s : State} {name : TypeName} (h : I.state s) (hn : I.name name) (classifier : String)
    (scope : Option StructureId) (slot : Slot) : I.state (s.await name classifier scope slot)
  write {s : State} {d : Document} (h : I.state s) (hd : s.document.Write I.location I.heading d) :
    I.state (s.modifyDocument fun _ => d)
  ask {s : State} (h : I.state s) (t : Option DataType) (defaults : List Default) :
    I.state (s.ask t defaults)
  rollback {s s' : State} (h : I.state s) (h' : I.state s') : I.state (s'.rollback s.mark)

variable {I : Invariant} (hI : I.Lawful) {s : State} {t : Token}

include hI

namespace Lawful

theorem shift (h : I.state s) : I.state s.shift :=
  hI.rest h (List.tail_suffix _)

theorem skipComments (h : I.state s) : I.state s.skipComments :=
  hI.rest h (List.dropWhile_suffix _)

theorem advance (h : I.state s) : I.state s.advance :=
  hI.skipComments (hI.shift h)

theorem recover (h : I.state s) : I.state s.recover :=
  hI.rest h (resumption_suffix 0 _)

theorem current (h : I.state s) (hc : s.current = some t) : I.token t :=
  hI.token h (List.mem_of_mem_head? hc)

/-- The location of the current token, or of the end of the source. -/
theorem here (h : I.state s) : I.location s.here := by
  cases hc : s.current with
  | none => exact hI.ending h (List.head?_eq_none_iff.1 hc)
  | some t =>
    have hlocation : s.here = s.locationOf t := by
      have hposition : s.cursor.position = (t.line, t.column) := by
        rw [Cursor.position, show s.cursor.current = some t from hc]
      rw [State.here, hposition]
      rfl
    exact hlocation ▸ hI.locationOf h (hI.current h hc)

theorem misplaced (h : I.state s) {comment : Option Comment}
    (hc : ∀ c, comment = some c → I.location c.location) : I.state (s.misplaced comment) := by
  cases comment with
  | none => exact h
  | some c => exact hI.report h (hc c rfl) rfl

theorem leadingComment (h : I.state s) :
    I.state s.leadingComment.2 ∧ ∀ c, s.leadingComment.1 = some c → I.location c.location := by
  refine ⟨hI.skipComments h, fun c hc => ?_⟩
  obtain ⟨first, hfirst, rfl⟩ := Option.map_eq_some_iff.1 hc
  have hmem := (List.takeWhile_prefix Token.isComment).mem (List.mem_of_mem_head? hfirst)
  exact hI.locationOf h (hI.token h hmem)

end Lawful

end Invariant

/-- A parser that maintains an invariant; its results satisfy `Q`. -/
def Maintains {α : Type} (I : Invariant) (p : Parser α) (Q : α → Prop) : Prop :=
  ∀ s, I.state s → After p s (fun a s' => I.state s' ∧ Q a) I.state

section Rules

variable {α β : Type} {I : Invariant} {p : Parser α} {f : α → Parser β} {P : α → Prop}
  {Q : β → Prop}

theorem Maintains.bind (hp : Maintains I p P) (hf : ∀ a, P a → Maintains I (f a) Q) :
    Maintains I (p >>= f) Q := by
  intro s hs
  apply After.bind
  exact After.mono (hp s hs) (fun a s' ⟨h, ha⟩ => hf a ha s' h) fun _ h => h

theorem maintains_pure {a : α} (h : P a) : Maintains I (pure a) P :=
  fun _ hs => ⟨hs, h⟩

theorem maintains_get {f : State → Parser β} (h : ∀ s, I.state s → Maintains I (f s) Q) :
    Maintains I (get >>= f) Q :=
  fun s hs => h s hs s hs

theorem maintains_modify {g : State → State} (h : ∀ s, I.state s → I.state (g s)) :
    Maintains I (modify g) fun _ => True :=
  fun s hs => ⟨h s hs, trivial⟩

theorem maintains_modifyGet {g : State → α × State}
    (h : ∀ s, I.state s → I.state (g s).2 ∧ P (g s).1) : Maintains I (modifyGet g) P :=
  h

theorem maintains_iterate {round : α → Parser (Round α β)}
    (h : ∀ a, P a → Maintains I (round a) fun r =>
      match r with
      | .again a' => P a'
      | .done b => Q b) {a : α} (ha : P a) : Maintains I (iterate round a) Q := by
  intro s hs
  refine after_iterate (I := fun a s' => P a ∧ I.state s') (fun a s' ⟨ha, hs'⟩ => ?_) ⟨ha, hs⟩
  refine After.mono (h a ha s' hs') (fun r s'' ⟨h, hr⟩ => ?_) fun _ h => h
  cases r with
  | again a' => exact ⟨⟨hr, h⟩, .inr h⟩
  | done b => exact ⟨h, hr⟩

end Rules

section Primitives

variable {α : Type} {I : Invariant} (hI : I.Lawful) {P : α → Prop}

include hI

theorem maintains_fail {m : Message} (hm : I.location m.location)
    (hk : m.kind.isFinding = false) : Maintains I (fail m : Parser α) P :=
  fun _ hs => hI.report hs hm hk

theorem maintains_failHere {kind : Message.Kind} (hk : kind.isFinding = false)
    (params : List (Message.Param × String)) :
    Maintains I (failHere kind params : Parser α) P :=
  maintains_get fun _ hs => maintains_fail hI (hI.here hs) hk

theorem maintains_failAt {t : Token} (ht : I.token t) {kind : Message.Kind}
    (hk : kind.isFinding = false) (params : List (Message.Param × String)) :
    Maintains I (failAt t kind params : Parser α) P :=
  maintains_get fun _ hs => maintains_fail hI (hI.locationOf hs ht) hk

omit hI in
theorem maintains_isAt (kind : Token.Kind) (text : String) :
    Maintains I (isAt kind text) fun _ => True :=
  maintains_get fun _ _ => maintains_pure trivial

theorem maintains_advance : Maintains I advance fun _ => True :=
  maintains_modify fun _ => hI.advance

theorem maintains_demand_of {accept : Token → Bool} {Q : Token → Prop}
    (h : ∀ t, I.token t → accept t = true → Q t) {kind : Message.Kind}
    (hk : kind.isFinding = false) (params : List (Message.Param × String)) :
    Maintains I (demand accept kind params) Q := by
  refine maintains_get fun s hs => ?_
  split
  · rename_i t ht
    obtain ⟨hcurrent, haccept⟩ := Option.filter_eq_some_iff.1 ht
    exact maintains_pure (h t (hI.current hs hcurrent) haccept)
  · exact maintains_failHere hI hk _

theorem maintains_demand (accept : Token → Bool) {kind : Message.Kind}
    (hk : kind.isFinding = false) (params : List (Message.Param × String)) :
    Maintains I (demand accept kind params) I.token :=
  maintains_demand_of hI (fun _ ht _ => ht) hk _

theorem maintains_expect_of {accept : Token → Bool} {Q : Token → Prop}
    (h : ∀ t, I.token t → accept t = true → Q t) {kind : Message.Kind}
    (hk : kind.isFinding = false) (params : List (Message.Param × String)) :
    Maintains I (expect accept kind params) Q :=
  (maintains_demand_of hI h hk _).bind fun _ ht =>
    (maintains_advance hI).bind fun _ _ => maintains_pure ht

theorem maintains_expect (accept : Token → Bool) {kind : Message.Kind}
    (hk : kind.isFinding = false) (params : List (Message.Param × String)) :
    Maintains I (expect accept kind params) I.token :=
  maintains_expect_of hI (fun _ ht _ => ht) hk _

theorem maintains_expectKeyword (keyword : String) :
    Maintains I (expectKeyword keyword) I.token :=
  maintains_expect hI _ rfl _

theorem maintains_expectToken (kind : Token.Kind) (text : String) :
    Maintains I (expectToken kind text) I.token :=
  maintains_expect hI _ rfl _

theorem maintains_expectName (statement : String) :
    Maintains I (expectName statement) fun name => I.location name.location :=
  (maintains_expect hI _ rfl _).bind fun _ ht =>
    maintains_get fun _ hs => maintains_pure (hI.locationOf hs ht)

theorem maintains_expectSemicolon : Maintains I expectSemicolon fun _ => True :=
  (maintains_demand hI _ rfl _).bind fun _ _ => maintains_modify fun _ => hI.shift

theorem maintains_openBody (statement : String) :
    Maintains I (openBody statement) fun _ => True :=
  (maintains_demand hI _ rfl _).bind fun _ _ => maintains_modify fun _ => hI.shift

theorem maintains_unexpected (statement : String) :
    Maintains I (unexpected statement : Parser α) P := by
  refine maintains_get fun s hs => ?_
  split
  · rename_i t ht
    exact maintains_failAt hI (hI.current hs ht) rfl _
  · exact maintains_failHere hI rfl _

theorem maintains_modifyDocument {f : Document → Document}
    (h : ∀ d, Document.Write I.location I.heading d (f d)) :
    Maintains I (modifyDocument f) fun _ => True :=
  maintains_modify fun s hs => hI.write hs (h s.document)

theorem maintains_await {name : Option TypeName} (hn : ∀ n, name = some n → I.name n)
    (classifier : String) (scope : Option StructureId) (slot : Slot) :
    Maintains I (await name classifier scope slot) fun _ => True := by
  cases name with
  | none => exact maintains_pure trivial
  | some name => exact maintains_modify fun _ hs => hI.await hs (hn name rfl) _ _ _

/-- A construct that is given up is taken back to a state of which the invariant holds. -/
theorem Invariant.Lawful.construct {read : Parser α} {accept : α → State → Bool × State}
    {resume : State → State} {s : State} (hs : I.state s) (hread : Maintains I read P)
    (ha : ∀ a s', P a → I.state s' → I.state (accept a s').2)
    (hr : ∀ s', I.state s' → I.state (resume s')) : I.state (s.construct read accept resume) := by
  have hafter := hread s hs
  unfold State.construct
  cases hp : read s with
  | ok a s' =>
    obtain ⟨hs', hp⟩ := hafter.of_ok hp
    have haccept := ha a s' hp hs'
    simp only
    split
    · exact haccept
    · exact hI.rollback hs haccept
  | error e s' => exact hr _ (hI.rollback hs (hafter.of_error hp))

theorem Invariant.Lawful.salvage {read : Parser Unit} {s : State} (hs : I.state s)
    (hread : Maintains I read fun _ => True) : I.state (s.salvage read) :=
  hI.construct hs hread (fun _ _ _ h => h) fun _ => hI.recover

theorem maintains_leadingComment :
    Maintains I (modifyGet State.leadingComment) fun comment =>
      ∀ c, comment = some c → I.location c.location :=
  fun _ => hI.leadingComment

section Items

variable {statement : String} {item : Item}
  (hi : ∀ comment first s, I.state s → I.token first → I.state (item comment first s))

include hi

theorem maintains_bodyRound : Maintains I (bodyRound statement item) fun _ => True := by
  refine (maintains_leadingComment hI).bind fun comment hcomment => ?_
  refine maintains_get fun s hs => ?_
  split
  · exact maintains_failHere hI rfl _
  · rename_i t ht
    have hmisplaced : Maintains I (modify fun s : State => (s.misplaced comment).shift)
        fun _ => True :=
      maintains_modify fun _ hs => hI.shift (hI.misplaced hs hcomment)
    split
    · exact hmisplaced.bind fun _ _ => maintains_pure trivial
    · split
      · exact hmisplaced.bind fun _ _ => maintains_pure trivial
      · have hitem : Maintains I (modify (item comment t)) fun _ => True :=
          maintains_modify fun s' hs' => hi comment t s' hs' (hI.current hs ht)
        exact hitem.bind fun _ _ => maintains_pure trivial

/-- The items of a body maintain the invariant if each item does. -/
theorem maintains_items : Maintains I (items statement item) fun _ => True :=
  maintains_iterate (P := fun _ => True)
    (fun _ _ s hs => (maintains_bodyRound hI hi s hs).mono
      (fun r _ h => ⟨h.1, by cases r <;> trivial⟩) fun _ h => h) trivial

theorem maintains_body : Maintains I (body statement item) fun _ => True :=
  (maintains_openBody hI _).bind fun _ _ => maintains_items hI hi

end Items

theorem maintains_emptyBody (statement : String) :
    Maintains I (emptyBody statement) fun _ => True := by
  refine (maintains_openBody hI _).bind fun _ _ => ?_
  refine (maintains_leadingComment hI).bind fun comment hcomment => ?_
  refine (maintains_demand hI _ rfl _).bind fun _ _ => ?_
  exact maintains_modify fun _ hs => hI.shift (hI.misplaced hs hcomment)

end Primitives

end Idl.Grammar
