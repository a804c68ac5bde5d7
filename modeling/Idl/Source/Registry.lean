import Idl.Source.Id

/-!
The sources of one session, in the order of their registration. The first identity of a value
stays; to register the value again changes nothing.
-/

namespace Idl

structure Registry where
  sources : List SourceId := []
  deriving DecidableEq, Repr, Inhabited

namespace Registry

def get? (r : Registry) (value : String) : Option SourceId :=
  r.sources.find? (·.value == value)

def contains (r : Registry) (value : String) : Bool :=
  (r.get? value).isSome

/-- The registered identity of the value, which is `id` where the value is new. -/
def register (r : Registry) (id : SourceId) : SourceId × Registry :=
  match r.get? id.value with
  | some known => (known, r)
  | none => (id, ⟨r.sources ++ [id]⟩)

theorem get?_eq_none_iff {r : Registry} {value : String} :
    r.get? value = none ↔ value ∉ r.sources.map (·.value) := by
  simp [get?, List.find?_eq_none]

theorem get?_register_self (r : Registry) (id : SourceId) :
    (r.register id).2.get? id.value = some (r.register id).1 := by
  unfold register
  split
  · assumption
  · rename_i h
    rw [get?] at h
    rw [get?, List.find?_append, h]
    simp

theorem get?_register_of_ne (r : Registry) (id : SourceId) {value : String}
    (h : id.value ≠ value) : (r.register id).2.get? value = r.get? value := by
  unfold register
  split
  · rfl
  · simp [get?, List.find?_append, h]

end Registry

end Idl
