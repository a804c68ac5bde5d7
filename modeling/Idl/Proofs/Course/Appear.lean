import Idl.Proofs.Course.Move
import Idl.Proofs.Grammar.Invariant

/-!
The documents that appear in a session: between two statements, between two items of a body,
behind a declaration, be it broken, and in the end. What is kept by all that is done to a document
while a source is read, by taking back and by settling names, holds of all of them.
-/

namespace Idl.Grammar

/-- What holds of a document goes on to hold, whatever is done to it. Only open slots are
filled. -/
structure Upheld (P : Document → Prop) : Prop where
  write {d d' : Document} (h : P d) (hw : d.Write (fun _ => True) (fun _ => True) d') : P d'
  restore {d : Document} (h : P d) (e : Document.Extent) : P (d.restore e)
  fill {d : Document} (h : P d) {slot : Slot} (hopen : d.IsOpen slot) (t : DataType) :
    P (d.fill slot t)
  shed {d d' : Document} (h : P d) (hs : d.Sheds d') : P d'
  register {d : Document} (h : P d) (x : Declaration) : P (d.register x)
  note {d : Document} (h : P d) (imports : List Import) (package : Option Package) :
    P (d.note imports package)

def Invariant.ofDocument (P : Document → Prop) : Invariant where
  state s := P s.document
  token _ := True
  location _ := True
  heading _ := True
  name _ := True

namespace Upheld

variable {P : Document → Prop} (hP : Upheld P) {checks : List Check} {others : List Binding}
  {s : State}

include hP

section Reading

theorem lawful : (Invariant.ofDocument P).Lawful where
  rest h _ := h
  token _ _ := trivial
  locationOf _ _ := trivial
  heading _ _ _ _ := trivial
  ending _ _ := trivial
  report h _ _ := h
  unknown _ _ _ := trivial
  await h _ _ _ _ := h
  write h hd := hP.write h hd
  ask h _ _ := h
  rollback _ h' := hP.restore h' _

theorem notes : (Invariant.ofDocument P).Notes where
  addImport h _ := hP.note h _ _
  package := maintains_package_of_any hP.lawful fun _ _ h => ⟨h, hP.note h _ _⟩

omit hP in
/-- In the items of a body no name is settled. -/
theorem admits (checks : List Check) :
    (Invariant.ofDocument P).Admits checks fun _ => True where
  visit h _ := h
  weaken _ := trivial
  settleScope _ _ := trivial
  report _ _ := trivial

theorem header {comment : Option Comment} {taken : List Token} {form : DeclarationForm}
    {site : Site} {s' : State} (h : P s.document) (hh : Header comment taken s form site s') :
    P s'.document := by
  have hI := hP.lawful
  have hs : (Invariant.ofDocument P).state s := h
  have hm : ∀ t ∈ taken, (Invariant.ofDocument P).token t := fun _ _ => trivial
  cases hh with
  | struct hp => exact ((maintains_structureHeader hI comment taken s hs).of_ok hp).1
  | enum hp => exact ((maintains_enumerationHeader hI comment taken none s hs).of_ok hp).1
  | interface hp => exact ((maintains_interfaceHeader hI comment s hs).of_ok hp).1
  | factory hp => exact ((maintains_factoryHeader hI comment hm s hs).of_ok hp).1

theorem item (site : Site) (comment : Option Comment) (first : Token) (h : P s.document) :
    P (site.item checks comment first s).document := by
  have hI := hP.lawful
  have hs : (Invariant.ofDocument P).state s := h
  cases site with
  | struct id => exact hI.structureItem (admits checks) hs
  | enumeration id => exact hI.salvage hs (maintains_enumerationValue hI id comment first)
  | interface id => exact hI.interfaceItem hs trivial
  | method id position => exact hI.methodItem hs trivial
  | factory id => exact hI.factoryItem hs trivial

theorem round {site : Site} {r : Round Unit Unit} {s' : State} (h : P s.document)
    (hr : bodyRound site.statement (site.item checks) s = .ok r s') : P s'.document := by
  have hitem (comment : Option Comment) (first : Token) (s : State)
      (hs : (Invariant.ofDocument P).state s) (_ : (Invariant.ofDocument P).token first) :
      (Invariant.ofDocument P).state (site.item checks comment first s) :=
    hP.item site comment first hs
  exact ((maintains_bodyRound hP.lawful hitem s h).of_ok hr).1

end Reading

section Settle

variable {session : Session} {pending : List Binding}

theorem bind {b : Binding} {ws : List Binding} (hs : session.document.Sound (b :: ws))
    (h : P session.document) (t : DataType) : P (session.bind checks b t).document :=
  hP.shed (hP.fill h ((hs.waiting.slots b.slot).1 List.mem_cons_self) t)
    (session.sheds_bind checks b t)

theorem settleAll (checks : List Check) (last : Bool)
    (hs : session.document.Sound (others ++ pending)) (h : P session.document) :
    P (session.settleAll checks last pending).1.document :=
  Session.settleAll_named (I := fun s _ => P s.document) (fun _ h => h)
    (fun hs _ h => hP.bind hs h _) last hs h

theorem settleScope {scope : StructureId} (hs : session.document.Sound (others ++ pending))
    (h : P session.document) : P (session.settleScope checks scope pending).1.document :=
  Session.settleScope_named (I := fun s _ => P s.document) (fun _ h => h)
    (fun hs _ h => hP.bind hs h _) hs h

end Settle

section Declarations

theorem structureDeclaration (hs : s.Sound others) (h : P s.document) (comment : Option Comment)
    (modifiers : List Token) :
    After (structureDeclaration checks comment modifiers) s (fun _ s' => P s'.document)
      fun s' => P s'.document := by
  have hready := hs.ready
  have hheader : Builds checks _ _ (structureHeader comment modifiers) s _ :=
    builds_structureHeader hready comment modifiers
  apply After.bind
  refine (hheader.and (maintains_structureHeader hP.lawful comment modifiers s h)).mono
    (fun id s₁ ⟨⟨he, hid, hlt⟩, h₁, _⟩ => ?_) fun _ h => h.2
  have hs₁ := he.ready hready
  have hbody : Builds checks _ _ (body "structure" (structureItem checks id)) s₁ _ :=
    builds_body hs₁ fun comment t s' hs' g _ _ => .inl (edits_structureItem hs'.sound hs'.mark
      hid (Nat.lt_of_lt_of_le hlt g.extent.1) comment t)
  apply After.bind
  refine (hbody.and (maintains_structureBody hP.lawful (admits checks) id s₁ h₁)).mono
    (fun _ s₂ ⟨⟨he₂, _⟩, h₂, _⟩ => ?_) fun _ h => h.2
  apply After.bind
  apply after_modify
  exact after_pure (hP.settleScope (he₂.ready hs₁).sound h₂)

theorem declaration (hs : s.Sound others) (h : P s.document) (comment : Option Comment) :
    After (declaration checks comment) s (fun _ s' => P s'.document) fun s' => P s'.document :=
  after_declaration_of_structure hP.lawful (J := fun s' => P s'.document)
    (E := fun s' => P s'.document) (fun h _ => h) comment h
    (fun hd h₁ => hP.structureDeclaration
      (hs.reads ((quiet_modifiers _ _).of_ok hd.modifiers)) h₁ comment _)
    fun _ _ h => ⟨h, h⟩

theorem declare (hs : s.Sound others) (h : P s.document) (comment : Option Comment) :
    P (s.declare checks comment).document := by
  rcases State.declare_cases hs comment with hr | ⟨x, s', hp, _, heq⟩
  · rw [hr.document]
    exact h
  · have h' : P s'.document := (hP.declaration hs h comment).of_ok hp
    obtain ⟨he, _, hbelow⟩ := After.of_ok (builds_declaration hs.ready comment) hp
    have hs' : State.Sound others
        { s' with toSession := (s'.toSession.visit checks (.declaration x) false).2 } :=
      (he.ready hs.ready).sound
    rw [heq]
    exact State.settled_register hs' hbelow (fun hs _ h => hP.bind hs h _) (hP.register h' x)

end Declarations

end Upheld

namespace Moment

variable {settings : Settings} {root : Option SourceId} {tokens : List Token} {m m' : Moment}
  {d : Document}

/-- The document appears in the session that reads a root. -/
inductive Appears (settings : Settings) (root : Option SourceId) (tokens : List Token) :
    Document → Prop where
  | between {m : Moment} (hm : Reached settings root tokens m) :
      Appears settings root tokens m.document
  | inside {m : Moment} {site : Site} {s : State} (hm : Reached settings root tokens m)
      (hi : m.Inside settings.checks site s) : Appears settings root tokens s.document
  | behind {m : Moment} {comment : Option Comment} {x : Declaration} {s s' : State}
      (hm : Reached settings root tokens m) (hd : m.Declares comment s)
      (hp : declaration settings.checks comment s = .ok x s') :
      Appears settings root tokens s'.document
  /-- A declaration is broken, and what it has left is not yet taken away. -/
  | broken {m : Moment} {comment : Option Comment} {e : Reported} {s s' : State}
      (hm : Reached settings root tokens m) (hd : m.Declares comment s)
      (hp : declaration settings.checks comment s = .error e s') :
      Appears settings root tokens s'.document
  | outcome : Appears settings root tokens (settings.readTokens root tokens).document

variable {P : Document → Prop} (hP : Upheld P)

include hP

theorem Move.upheld (hmove : Move settings m m') (hs : m.situation.Sound) (h : P m.document) :
    P m'.document := by
  cases hmove with
  | declare hd =>
    have hdeclares := hd.sound hs
    cases hd.state
    exact hP.declare hdeclares h _
  | pass hp => exact hP.lawful.passes hP.notes h hp
  | @into levels importers s s' i id text hi ht =>
    have hread : P s'.document := (hP.lawful.imports h hi).1
    exact hP.note hread _ _
  | @out levels importer importers atHead s he =>
    have hended : P s.ended.document := hP.lawful.ended h
    have hs' : s.ended.Sound (waitingIn importers ++ importer.pending) :=
      State.Sound.reads hs s.reads_ended
    rw [State.Sound, List.append_assoc] at hs'
    exact hP.settleAll settings.checks false hs' hended

theorem Moves.upheld (hmoves : Moves settings m m') (hs : m.situation.Sound) (h : P m.document) :
    P m'.document := by
  induction hmoves with
  | refl => exact h
  | tail hmoves hmove ih => exact hmove.upheld hP (Moves.sound hmoves hs) ih

theorem Inside.upheld {site : Site} {s : State} (hi : m.Inside settings.checks site s)
    (h : P m.document) : P s.document := by
  have hI := hP.lawful
  induction hi with
  | @top comment taken form site s s₁ s₂ s₃ hd ht hf hh ho =>
    cases hd.state
    have h₁ : P s₁.document := ((maintains_modifiers hI _ _ (hI.skipComments h)).of_ok ht).1
    exact ((maintains_openBody hI _ _ (hP.header h₁ hh)).of_ok ho).1
  | nested _ hs _ _ ht _ hh ho ih =>
    cases hs
    have h₁ := ((maintains_modifiers hI _ _ (hI.skipComments ih)).of_ok ht).1
    have h₂ := ((maintains_enumerationHeader hI _ _ _ _ h₁).of_ok hh).1
    exact ((maintains_openBody hI _ _ h₂).of_ok ho).1
  | method _ hs _ _ hh ih =>
    cases hs
    exact ((maintains_methodHeader hI _ _ (hI.skipComments ih)).of_ok hh).1
  | next _ hr _ ih => exact hP.round ih hr

theorem Appears.upheld (hstart : ∀ source, P (.setMain {} source))
    (hd : Appears settings root tokens d) : P d := by
  have hfirst : P (start settings root tokens).document := by
    cases root with
    | none => exact hstart none
    | some id => exact hstart _
  have hbetween {m : Moment} (hm : Reached settings root tokens m) : P m.document :=
    hm.moves.upheld hP (sound_start settings root tokens) hfirst
  have hdeclares {m : Moment} {comment : Option Comment} {s : State}
      (hm : Reached settings root tokens m) (hd : m.Declares comment s) :
      After (declaration settings.checks comment) s (fun _ s' => P s'.document)
        fun s' => P s'.document := by
    have hs := hd.sound hm.sound
    cases hd.state
    exact hP.declaration hs (hbetween hm) _
  cases hd with
  | between hm => exact hbetween hm
  | inside hm hi => exact hi.upheld hP (hbetween hm)
  | behind hm hd hp => exact (hdeclares hm hd).of_ok hp
  | broken hm hd hp => exact (hdeclares hm hd).of_error hp
  | outcome =>
    obtain ⟨m, outcome, hmoves, hconcludes⟩ := Reached.exists_conclusion
      (.refl : Reached settings root tokens (start settings root tokens))
    have hm : Reached settings root tokens m := hmoves.steps
    rw [hm.readTokens_eq hconcludes]
    cases hconcludes with
    | ended hi hend =>
      have hs : m.state.ended.Sound (waitingIn m.importers) :=
        State.Sound.reads hm.sound m.state.reads_ended
      have hended : P m.state.ended.document := hP.lawful.ended (hbetween hm)
      rw [Session.document_finish]
      exact hP.settleAll settings.checks true hs hended
    | halted ha hh => exact hP.lawful.halts hP.notes (hbetween hm) hh

end Moment

end Idl.Grammar
