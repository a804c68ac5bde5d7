import Idl.Proofs.Document.Meaning
import Idl.Proofs.Reading.Body

/-!
Names that are deferred. Besides reading on, a construct lets names wait, behind those that wait
already; an unqualified one among them meant nothing when it was read. What is registered stays
as it is meanwhile, so none of them means a registered type by the end of the construct either.
-/

namespace Idl

namespace Grammar

namespace State

/-- Since `s` the reading has gone on, and names have been deferred in a scope. -/
structure Defers (scope : Option StructureId) (s s' : State) : Prop where
  rest : s'.cursor.rest <:+ s.cursor.rest
  source : s'.source = s.source
  package : s'.package = s.package
  typeNames : s'.document.typeNames = s.document.typeNames
  pending : ∃ new, s'.pending = s.pending ++ new ∧ ∀ b ∈ new,
    b.scope = scope ∧ b.package = s.package ∧ b.name.Unknown s.document.typeNames

namespace Defers

variable {scope : Option StructureId} {s s' s'' : State}

theorem of_reads (h : s.Reads s') : s.Defers scope s' where
  rest := h.rest
  source := h.source
  package := h.package
  typeNames := by rw [h.document]
  pending := ⟨[], by simp [h.pending], fun _ hb => absurd hb List.not_mem_nil⟩

theorem trans (h : s.Defers scope s') (h' : s'.Defers scope s'') : s.Defers scope s'' where
  rest := h'.rest.trans h.rest
  source := h'.source.trans h.source
  package := h'.package.trans h.package
  typeNames := h'.typeNames.trans h.typeNames
  pending := by
    obtain ⟨new, hp, hnew⟩ := h.pending
    obtain ⟨new', hp', hnew'⟩ := h'.pending
    refine ⟨new ++ new', by rw [hp', hp, List.append_assoc], fun b hb => ?_⟩
    rcases List.mem_append.1 hb with hb | hb
    · exact hnew b hb
    · rw [← h.package, ← h.typeNames]
      exact hnew' b hb

theorem remaining_le (h : s.Defers scope s') : s'.remaining ≤ s.remaining :=
  h.rest.length_le

/-- What was deferred is forgotten when the construct is taken back. -/
theorem rollback (h : s.Defers scope s') : s.Defers scope (s'.rollback s.mark) where
  rest := h.rest
  source := h.source
  package := h.package
  typeNames := h.typeNames
  pending := by
    obtain ⟨new, hp, _⟩ := h.pending
    refine ⟨[], ?_, fun _ hb => absurd hb List.not_mem_nil⟩
    simp [State.rollback, State.mark, hp]

theorem modifyDocument (h : s.Defers scope s') {f : Document → Document}
    (hf : (f s'.document).typeNames = s'.document.typeNames) :
    s.Defers scope (s'.modifyDocument f) where
  rest := h.rest
  source := h.source
  package := h.package
  typeNames := hf.trans h.typeNames
  pending := h.pending

/-- A construct that is given up has deferred nothing. -/
theorem construct {α : Type} {read : Parser α} {accept : α → State → Bool × State}
    {resume : State → State} (hread : After read s (fun _ => s.Defers scope) (s.Defers scope))
    (haccept : ∀ a (s' : State), s'.Defers scope (accept a s').2)
    (hresume : ∀ s' : State, s'.Reads (resume s')) :
    s.Defers scope (s.construct read accept resume) := by
  unfold State.construct
  cases hp : read s with
  | error e s' => exact (hread.of_error hp).rollback.trans (.of_reads (hresume _))
  | ok a s' =>
    have h := (hread.of_ok hp).trans (haccept a s')
    simp only
    split
    · exact h
    · exact h.rollback

theorem salvage {p : Parser Unit} (hp : After p s (fun _ => s.Defers scope) (s.Defers scope)) :
    s.Defers scope (s.salvage p) :=
  construct hp (fun _ s' => of_reads (Reads.refl s')) reads_recover

end Defers

end State

/-- A parser that defers names in a scope while `names` are registered. It reads at least some
tokens if it succeeds, and its result is as `Q` says. -/
def Defers {α : Type} (names : List (String × DataType)) (scope : Option StructureId)
    (least : Nat) (p : Parser α) (Q : α → Prop) : Prop :=
  ∀ s : State, s.document.typeNames = names →
    After p s (fun a s' => s.Defers scope s' ∧ s'.remaining + least ≤ s.remaining ∧ Q a)
      (s.Defers scope)

section Rules

variable {α β : Type} {names : List (String × DataType)} {scope : Option StructureId}
  {least : Nat} {p : Parser α} {f : α → Parser β} {P : α → Prop} {Q : β → Prop}

theorem Defers.bind {more : Nat} (hp : Defers names scope least p P)
    (hf : ∀ a, P a → Defers names scope more (f a) Q) :
    Defers names scope (least + more) (p >>= f) Q := by
  intro s hs
  apply After.bind
  refine After.mono (hp s hs) (fun a s' ⟨hd, hl, ha⟩ => ?_) fun _ hd => hd
  refine After.mono (hf a ha s' (hd.typeNames.trans hs)) (fun b s'' ⟨hd', hl', hb⟩ => ?_)
    fun _ hd' => hd.trans hd'
  exact ⟨hd.trans hd', by omega, hb⟩

/-- What is read first counts. -/
theorem Defers.bind_left (hp : Defers names scope least p P)
    (hf : ∀ a, P a → Defers names scope 0 (f a) Q) : Defers names scope least (p >>= f) Q :=
  hp.bind hf

theorem Quiet.defers (hp : Quiet p) : Defers names scope 0 p fun _ => True :=
  fun s _ => After.mono (hp s)
    (fun _ _ hr => ⟨.of_reads hr, hr.rest.length_le, trivial⟩) fun _ hr => .of_reads hr

theorem Quiet.defers_bind (hp : Quiet p) (hf : ∀ a, Defers names scope least (f a) Q) :
    Defers names scope least (p >>= f) Q := by
  have hquiet : Defers names scope 0 p fun _ => True := hp.defers
  have h := hquiet.bind fun a _ => hf a
  rwa [Nat.zero_add] at h

theorem Fails.defers {R : α → Prop} (hp : Fails p) : Defers names scope least p R :=
  fun s _ => After.mono (hp s) (fun _ _ h => h.elim) fun _ hr => .of_reads hr

theorem defers_pure {a : α} (h : P a) : Defers names scope 0 (pure a) P :=
  fun s _ => ⟨.of_reads (State.Reads.refl s), Nat.le_refl _, h⟩

theorem defers_get {f : State → Parser β}
    (h : ∀ s : State, s.document.typeNames = names → Defers names scope least (f s) Q) :
    Defers names scope least (get >>= f) Q :=
  fun s hs => h s hs s hs

theorem defers_modify {g : State → State} (h : ∀ s : State, s.Defers scope (g s)) :
    Defers names scope 0 (modify g) fun _ => True :=
  fun s _ => ⟨h s, (h s).remaining_le, trivial⟩

theorem defers_modifyGet {g : State → α × State} (h : ∀ s : State, s.Defers scope (g s).2) :
    Defers names scope 0 (modifyGet g) fun _ => True :=
  fun s _ => ⟨h s, (h s).remaining_le, trivial⟩

theorem defers_modifyDocument {f : Document → Document} (h : ∀ d, (f d).typeNames = d.typeNames) :
    Defers names scope 0 (modifyDocument f) fun _ => True :=
  defers_modify fun s => (State.Defers.of_reads (State.Reads.refl s)).modifyDocument (h s.document)

theorem defers_await {name : Option TypeName} (h : ∀ n, name = some n → n.Unknown names)
    (classifier : String) (slot : Slot) :
    Defers names scope 0 (await name classifier scope slot) fun _ => True := by
  cases name with
  | none => exact (quiet_pure _).defers
  | some name =>
    intro s hs
    refine ⟨⟨List.suffix_rfl, rfl, rfl, rfl, _, rfl, fun b hb => ?_⟩, Nat.le_refl _, trivial⟩
    rw [List.mem_singleton.1 hb]
    exact ⟨rfl, rfl, hs ▸ h name rfl⟩

theorem defers_expect (accept : Token → Bool) (kind : Message.Kind)
    (params : List (Message.Param × String)) :
    Defers names scope 1 (expect accept kind params) fun _ => True :=
  fun s _ => After.mono (After.and (quiet_expect accept kind params s)
    (after_expect_remaining accept kind params s))
    (fun _ _ ⟨hr, hlt⟩ => ⟨.of_reads hr, hlt, trivial⟩) fun _ ⟨hr, _⟩ => .of_reads hr

theorem defers_expectKeyword (keyword : String) :
    Defers names scope 1 (expectKeyword keyword) fun _ => True :=
  defers_expect _ _ _

theorem defers_iterate {round : α → Parser (Round α β)}
    (h : ∀ a, Defers names scope 0 (round a) fun _ => True) (a : α) :
    Defers names scope 0 (iterate round a) fun _ => True := by
  intro s hs
  refine after_iterate (I := fun _ s' => s.Defers scope s') (fun a s' hd => ?_)
    (.of_reads (State.Reads.refl s))
  refine After.mono (h a s' (hd.typeNames.trans hs)) (fun r s'' ⟨hd', _, _⟩ => ?_)
    fun _ hd' => hd.trans hd'
  cases r with
  | again a' => exact ⟨hd.trans hd', .inr (hd.trans hd')⟩
  | done b => exact ⟨hd.trans hd', (hd.trans hd').remaining_le, trivial⟩

theorem defers_items {statement : String} {item : Item}
    (hitem : ∀ comment t (s : State), s.document.typeNames = names →
      s.Defers scope (item comment t s)) :
    Defers names scope 0 (items statement item) fun _ => True := by
  refine defers_iterate (fun _ => ?_) ()
  refine (quiet_modifyGet State.reads_skipComments).defers_bind fun comment => ?_
  refine quiet_get.defers_bind fun s₁ => ?_
  split
  · exact (fails_failHere _ _).defers
  · have hshift : Quiet (modify fun s : State => (s.misplaced comment).shift) :=
      quiet_modify fun s => (State.reads_misplaced s comment).trans (State.reads_shift _)
    split
    · exact hshift.defers_bind fun _ => (quiet_pure _).defers
    · split
      · exact hshift.defers_bind fun _ => (quiet_pure _).defers
      · refine Defers.bind_left (P := fun _ => True) (fun s hs => ?_) fun _ _ =>
          (quiet_pure _).defers
        exact ⟨hitem comment _ s hs, (hitem comment _ s hs).remaining_le, trivial⟩

theorem defers_body {statement : String} {item : Item}
    (hitem : ∀ comment t (s : State), s.document.typeNames = names →
      s.Defers scope (item comment t s)) :
    Defers names scope 0 (body statement item) fun _ => True :=
  (quiet_openBody statement).defers_bind fun _ => defers_items hitem

end Rules

end Grammar

end Idl
