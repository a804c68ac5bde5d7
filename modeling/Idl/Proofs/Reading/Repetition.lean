import Idl.Proofs.Reading.Report

/-!
Repetitions that end by themselves. A round that reads a token whenever another one follows can be
repeated without asking whether it has: the repetition ends in any case, as it would if nobody
asked. The rounds of a body are such, if its items read on, and those that are salvaged do: behind
one that is broken, recovery skips its first token at least.
-/

namespace Idl.Grammar

section Repetition

variable {ε α β : Type}

/-- A round that never reads back, and that reads a token if another round follows. -/
def Progresses (round : α → EStateM ε State (Round α β)) : Prop :=
  ∀ a s, After (round a) s
    (fun r s' => s'.cursor.rest <:+ s.cursor.rest ∧
      ∀ a', r = .again a' → s'.remaining < s.remaining)
    fun s' => s'.cursor.rest <:+ s.cursor.rest

/-- How a repetition ends whose rounds follow one another without any condition. -/
inductive Repeats (round : α → EStateM ε State (Round α β)) :
    α → State → EStateM.Result ε State β → Prop where
  | failed {a : α} {s s' : State} {e : ε} (h : round a s = .error e s') :
      Repeats round a s (.error e s')
  | done {a : α} {b : β} {s s' : State} (h : round a s = .ok (.done b) s') :
      Repeats round a s (.ok b s')
  | again {a a' : α} {s s' : State} {result : EStateM.Result ε State β}
      (h : round a s = .ok (.again a') s') (hr : Repeats round a' s' result) :
      Repeats round a s result

/-- A repetition of such rounds ends, and the condition that is put on them changes nothing. -/
theorem Progresses.repeats [Inhabited ε] {round : α → EStateM ε State (Round α β)}
    (h : Progresses round) (a : α) (s : State) : Repeats round a s (iterate round a s) := by
  induction hn : s.remaining using Nat.strongRecOn generalizing a s with
  | ind n ih =>
    cases hr : round a s with
    | error e s' => exact iterate_of_error hr ▸ .failed hr
    | ok r s' =>
      cases r with
      | done b => exact iterate_of_done hr ▸ .done hr
      | again a' =>
        have hlt : s'.remaining < s.remaining := ((h a s).of_ok hr).2 a' rfl
        rw [iterate_of_again hr hlt]
        exact .again hr (ih s'.remaining (hn ▸ hlt) a' s' rfl)

/-- A repetition that ends by itself. -/
def Terminates [Inhabited ε] (round : α → EStateM ε State (Round α β)) : Prop :=
  Progresses round ∧ ∀ a s, Repeats round a s (iterate round a s)

theorem Progresses.terminates [Inhabited ε] {round : α → EStateM ε State (Round α β)}
    (h : Progresses round) : Terminates round :=
  ⟨h, h.repeats⟩

theorem progresses_of_isRound {round : α → Parser (Round α β)} (h : ∀ a, IsRound (round a)) :
    Progresses round :=
  fun a s => (After.and ((h a).2 s) ((h a).1.forward s)).mono
    (fun _ _ h => ⟨h.2, fun _ _ => h.1⟩) fun _ h => h.2

end Repetition

section Items

variable {α : Type} {s : State}

/-- An item that reads its first token at least. -/
def ItemReadsOn (item : Item) : Prop :=
  ∀ comment first (s : State), s.current = some first → isClosing first = false →
    (item comment first s).cursor.rest <:+ s.cursor.rest ∧
      (item comment first s).remaining < s.remaining

theorem State.Tells.rest {P : Message → Prop} {s' : State} (h : s.Tells P s') :
    s'.cursor.rest <:+ s.cursor.rest := by
  obtain ⟨_, _, h⟩ := h
  exact h.rest

theorem Speaks.forward {P : Message → Prop} {p : Parser α} (h : Speaks P p) : Forward p :=
  fun s => After.mono (h s) (fun _ _ h => h.rest) fun _ h => h.rest

theorem readsOn_get {f : State → Parser α} (h : ∀ s, ReadsOn (f s)) : ReadsOn (get >>= f) :=
  fun s => h s s

/-- A construct makes progress as an item does that is salvaged. -/
theorem remaining_construct_lt {read : Parser α} {accept : α → State → Bool × State} {t : Token}
    (ht : s.current = some t) (hc : isClosing t = false)
    (ha : ∀ a s', (accept a s').2.cursor = s'.cursor) (hread : ReadsOn read)
    (hforward : Forward read) :
    (s.construct read accept State.recover).remaining < s.remaining := by
  unfold State.construct
  cases hp : read s with
  | ok a s' =>
    have hlt := (hread s).of_ok hp
    have hcursor : (if (accept a s').1 = true then (accept a s').2
        else (accept a s').2.rollback s.mark).cursor = s'.cursor := by
      split <;> exact ha a s'
    simpa only [State.remaining, hcursor] using hlt
  | error e s' =>
    obtain ⟨rest, hrest⟩ := List.head?_eq_some_iff.1 ht
    have hs := (hforward s).of_error hp
    rw [hrest] at hs
    have hlt := length_resumption_lt_of_suffix hs hc
    rwa [← hrest] at hlt

theorem itemReadsOn_salvage {read : Option Comment → Token → Parser Unit}
    (hread : ∀ comment first (s : State), s.current = some first →
      After (read comment first) s (fun _ s' => s'.remaining < s.remaining) fun _ => True)
    (hforward : ∀ comment first, Speaks (fun _ => True) (read comment first)) :
    ItemReadsOn fun comment first s => s.salvage (read comment first) := by
  intro comment first s ht hc
  refine ⟨State.Tells.rest (tells_salvage (hforward comment first)), remaining_salvage_lt ht hc ?_⟩
  refine ((hread comment first s ht).and ((hforward comment first).forward s)).mono
    (fun _ _ h => h.1) fun _ h => h.2

theorem progresses_bodyRound {item : Item} (hi : ItemReadsOn item) (statement : String) :
    Progresses fun _ : Unit => bodyRound statement item := by
  intro _ s
  refine after_bodyRound (fun _ s' _ hr => ⟨hr.rest, nofun⟩)
    (fun _ s' _ hr hlt => ⟨hr.rest, fun _ _ => hlt⟩) (fun comment t ht hc _ => ?_)
    fun s' _ hr _ => hr.rest
  obtain ⟨hrest, hlt⟩ := hi comment t s.skipComments ht hc
  have hskip := (State.reads_skipComments s).rest
  exact ⟨hrest.trans hskip, fun _ _ => Nat.lt_of_lt_of_le hlt hskip.length_le⟩

end Items

end Idl.Grammar
