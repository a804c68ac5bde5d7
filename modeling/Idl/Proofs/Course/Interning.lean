import Idl.Proofs.Course.Appear
import Idl.Proofs.Document.Interning

/-!
Instances that are given out again over a whole session. All instances are asked for while a
source is read, and a name that waits for an argument waits for that of an instance that was made
without one. So in every document that appears the instances that were made with an argument are
those that are shared.
-/

namespace Idl

namespace Document

variable {d d' : Document} {made : List Instance}

theorem made_setMain (source : Option SourceId) : (setMain {} source).Made [] :=
  ⟨setMain {} source, rfl, rfl, .refl⟩

/-- What is written changes the instances only where one is made. -/
theorem Made.write (h : d.Made made) {L : Location → Prop} {H : Heading → Prop}
    (hw : d.Write L H d') : ∃ made', d'.Made made' := by
  cases hw with
  | «instance» i hlacks =>
    have hinstance := h.evolves (.instantiate .refl i)
    rw [instantiate_of_lacks hlacks] at hinstance
    exact ⟨_, hinstance⟩
  | _ => exact ⟨made, h.evolves (.elsewhere .refl rfl rfl)⟩

end Document

namespace Grammar

open Document

theorem upheld_made : Upheld fun d => ∃ made, d.Made made where
  write := fun ⟨_, h⟩ hw => h.write hw
  restore := fun ⟨made, h⟩ e => ⟨made.take e.templates, h.evolves (.restore .refl (Nat.zero_le _))⟩
  fill := fun ⟨made, h⟩ _ hopen t => ⟨made, h.evolves (.fill .refl hopen t)⟩
  shed := fun ⟨made, h⟩ hs => ⟨made, h.evolves (.elsewhere .refl hs.templates hs.shared)⟩
  register := fun ⟨made, h⟩ _ => ⟨made, h.evolves (.elsewhere .refl rfl rfl)⟩
  note := fun ⟨made, h⟩ _ _ => ⟨made, h.evolves (.elsewhere .refl rfl rfl)⟩

namespace Moment

variable {settings : Settings} {root : Option SourceId} {tokens : List Token} {d : Document}

/-- The documents of a session have come about by asking for instances, filling open slots and
taking back. Of every document that has, in whatever order, it is known what its instances were
made as; since then they have at most got an argument. What is shared is an instance with this
template, this argument and this weakness. No two instances were made alike with an argument, all
that were made with one are shared, and none that was made without. So, as long as an instance
that was asked for with an argument is not taken away, it is given out if and only if the same is
asked for. -/
theorem template_instances_are_shared :
    (∀ d, Appears settings root tokens d → ∃ made, d.Made made) ∧
    ∀ (d : Document) (made : List Instance), d.Made made →
      (∀ made', d.Made made' → made' = made) ∧
      (d.templates.size = made.length ∧ ∀ id i, d.templates.get? id = some i →
        ∃ c, made[id.index]? = some c ∧ i.template = c.template ∧ i.weak = c.weak ∧
          ∀ t, c.argument = some t → i.argument = some t) ∧
      (∀ template t weak id, ((template, t, weak), id) ∈ d.shared →
        d.templates.get? id = some ⟨template, some t, weak⟩) ∧
      (∀ (i j : Nat) (c : Instance), made[i]? = some c → made[j]? = some c →
        c.argument ≠ none → i = j) ∧
      (∀ (i : Nat) template t weak, made[i]? = some ⟨template, some t, weak⟩ →
        d.shared.lookup (template, t, weak) = some ⟨i⟩) ∧
      (∀ (i : Nat) (c : Instance), made[i]? = some c → c.argument = none →
        ∀ entry ∈ d.shared, entry.2 ≠ ⟨i⟩) ∧
      ∀ template t weak made' made'' d'',
        let (id, d') := d.instantiate template (some t) weak
        d'.Made made' → Evolves (id.index + 1) made' d' made'' d'' →
        ∀ template' t' weak', (d''.instantiate template' (some t') weak').1 = id ↔
          (template', t', weak') = (template, t, weak) := by
  refine ⟨fun d hd => hd.upheld upheld_made fun source => ⟨[], made_setMain source⟩,
    fun d made hmade => ?_⟩
  have h := hmade.interned
  refine ⟨fun made' h' => h.unique h'.interned, ⟨h.size, h.origin⟩,
    fun template t weak id => h.get?_of_mem_shared, fun i j c => h.eq_of_getElem?,
    fun i template t weak hi => h.lookup_eq_some_iff.2 hi, fun i c hi hc entry hentry hid => ?_,
    fun template t weak made' made'' d'' hmade' he template' t' weak' =>
      hmade'.interned.instantiate_eq_iff he⟩
  obtain ⟨⟨template, t, weak⟩, id⟩ := entry
  cases hid
  cases hi.symm.trans ((h.shared template t weak ⟨i⟩).1 hentry)
  cases hc

/-- The vector of `B` was made before `B` was known. It is a vector of `B` in the end, but it is
not shared: another one would be made. -/
theorem template_instances_are_shared_late :
    let d := (({} : Settings).readTokens none (Token.tokenize
      "structure A \x7b vector<integer> x; vector<integer> y; vector<B> z; \x7d
      structure B \x7b \x7d")).document
    d.templates.nodes = #[⟨.vector, some (.builtin .integer), false⟩,
        ⟨.vector, some (.struct ⟨1⟩), false⟩] ∧
      d.Made [⟨.vector, some (.builtin .integer), false⟩, ⟨.vector, none, false⟩] ∧
      (d.instantiate .vector (some (.builtin .integer)) false).1 = ⟨0⟩ ∧
      (d.instantiate .vector (some (.struct ⟨1⟩)) false).1 = ⟨2⟩ := by
  intro d
  have hnodes : d.templates.nodes = #[⟨.vector, some (.builtin .integer), false⟩,
      ⟨.vector, some (.struct ⟨1⟩), false⟩] := by decide +kernel
  have hshared : d.shared = [((.vector, .builtin .integer, false), ⟨0⟩)] := by decide +kernel
  refine ⟨hnodes, ?_, by decide +kernel, by decide +kernel⟩
  obtain ⟨happears, hshares⟩ := @template_instances_are_shared {} none (Token.tokenize _)
  obtain ⟨made, hmade⟩ := happears d .outcome
  obtain ⟨_, ⟨hsize, horigin⟩, _, _, hcached, hpending, _⟩ := hshares d made hmade
  have hlength : made.length = 2 := by
    rw [← hsize, Arena.size, hnodes]
    rfl
  obtain ⟨first, second, rfl⟩ := List.length_eq_two.1 hlength
  have hfirst : d.templates.get? ⟨0⟩ = some ⟨.vector, some (.builtin .integer), false⟩ := by
    simp [Arena.get?, hnodes]
  have hsecond : d.templates.get? ⟨1⟩ = some ⟨.vector, some (.struct ⟨1⟩), false⟩ := by
    simp [Arena.get?, hnodes]
  obtain ⟨⟨_, argument, _⟩, hc, rfl, rfl, hargument⟩ := horigin ⟨0⟩ _ hfirst
  obtain ⟨⟨_, argument', _⟩, hc', rfl, rfl, hargument'⟩ := horigin ⟨1⟩ _ hsecond
  cases hc
  cases hc'
  cases argument with
  | none => exact absurd rfl (hpending 0 _ rfl rfl _ (hshared ▸ List.mem_singleton_self _))
  | some t =>
    cases hargument t rfl
    cases argument' with
    | none => exact hmade
    | some t' =>
      have hlookup := hcached 1 _ t' _ rfl
      cases hargument' t' rfl
      rw [hshared] at hlookup
      cases hlookup

end Moment

end Grammar

end Idl
