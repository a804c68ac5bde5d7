import Idl.Proofs.Reading.Run

/-!
Progress. No parser reads back, whether it succeeds or fails. What is skipped behind a broken
item is at least its first token, so an item that has read a token when it succeeds always
leaves fewer tokens than it found.
-/

namespace Idl.Grammar

variable {α β : Type}

/-- A parser that never reads back. -/
def Forward (p : Parser α) : Prop :=
  ∀ s, After p s (fun _ s' => s'.cursor.rest <:+ s.cursor.rest) fun s' =>
    s'.cursor.rest <:+ s.cursor.rest

theorem Quiet.forward {p : Parser α} (h : Quiet p) : Forward p :=
  fun s => (h s).mono (fun _ _ hr => hr.rest) fun _ hr => hr.rest

theorem Forward.bind {p : Parser α} {f : α → Parser β} (hp : Forward p)
    (hf : ∀ a, Forward (f a)) : Forward (p >>= f) := by
  intro s
  apply After.bind
  refine (hp s).mono (fun a s' h => ?_) fun _ h => h
  exact (hf a s').mono (fun _ _ h' => h'.trans h) fun _ h' => h'.trans h

theorem forward_modify {g : State → State} (h : ∀ s, (g s).cursor = s.cursor) :
    Forward (modify g) :=
  fun s => after_modify (by simp only [h, List.suffix_rfl])

theorem forward_modifyDocument (f : Document → Document) : Forward (modifyDocument f) :=
  forward_modify fun _ => rfl

theorem forward_modifyGet {g : State → α × State} (h : ∀ s, (g s).2.cursor = s.cursor) :
    Forward (modifyGet g) :=
  fun s => after_modifyGet (by simp only [h, List.suffix_rfl])

theorem forward_await (name : Option TypeName) (classifier : String)
    (scope : Option StructureId) (slot : Slot) : Forward (await name classifier scope slot) := by
  cases name with
  | none => exact (quiet_pure _).forward
  | some name => exact forward_modify fun _ => rfl

theorem State.remaining_shift_lt {s : State} {t : Token} (h : s.current = some t) :
    s.shift.remaining < s.remaining := by
  obtain ⟨rest, hrest⟩ := List.head?_eq_some_iff.1 h
  simp [remaining, shift, Cursor.shift, hrest]

theorem State.remaining_advance_lt {s : State} {t : Token} (h : s.current = some t) :
    s.advance.remaining < s.remaining :=
  Nat.lt_of_le_of_lt s.shift.cursor.skipComments_rest_length_le (remaining_shift_lt h)

/-- What was expected and found is behind the cursor. -/
theorem after_expect_remaining (accept : Token → Bool) (kind : Message.Kind)
    (params : List (Message.Param × String)) (s : State) :
    After (expect accept kind params) s (fun _ s' => s'.remaining < s.remaining)
      fun _ => True := by
  apply After.bind
  apply After.bind
  apply after_get
  split
  · rename_i t ht
    have hc : s.current = some t := (Option.filter_eq_some_iff.1 ht).1
    apply after_pure
    apply After.bind
    apply after_modify
    exact after_pure (State.remaining_advance_lt hc)
  · trivial

theorem after_bind_remaining {p : Parser α} {f : α → Parser β} {s : State}
    (hp : After p s (fun _ s' => s'.remaining < s.remaining) fun _ => True)
    (hf : ∀ a, Forward (f a)) :
    After (p >>= f) s (fun _ s' => s'.remaining < s.remaining) fun _ => True := by
  apply After.bind
  refine hp.mono (fun a s₁ hlt => ?_) fun _ h => h
  exact (hf a s₁).mono (fun _ _ hr => Nat.lt_of_le_of_lt hr.length_le hlt) fun _ _ => trivial

/-- Behind a token that closes nothing, the skipping leaves fewer tokens. -/
theorem length_resumption_lt_of_suffix {t : Token} {rest left : List Token}
    (h : left <:+ t :: rest) (ht : isClosing t = false) :
    (resumption 0 left).length < (t :: rest).length := by
  rcases List.suffix_cons_iff.1 h with rfl | h
  · exact length_resumption_lt rest ht
  · exact Nat.lt_succ_of_le ((resumption_suffix 0 left).trans h).length_le

/-- An item that has read a token when it succeeds makes progress in any case. -/
theorem remaining_salvage_lt {p : Parser Unit} {s : State} {t : Token}
    (ht : s.current = some t) (hc : isClosing t = false)
    (h : After p s (fun _ s' => s'.remaining < s.remaining) fun s' =>
      s'.cursor.rest <:+ s.cursor.rest) :
    (s.salvage p).remaining < s.remaining := by
  unfold State.salvage State.construct
  cases hp : p s with
  | ok a s' => exact h.of_ok hp
  | error e s' =>
    obtain ⟨rest, hrest⟩ := List.head?_eq_some_iff.1 ht
    have hs := h.of_error hp
    rw [hrest] at hs
    have hlt := length_resumption_lt_of_suffix hs hc
    rw [← hrest] at hlt
    exact hlt

end Idl.Grammar
