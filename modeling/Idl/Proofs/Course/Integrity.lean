import Idl.Proofs.Course.Moment
import Idl.Proofs.Document.Field

/-!
Referential integrity over a whole session. At every moment each link leads to a node or a field
that is there, and so does the slot of each name that waits. The bases of a structure come to an
end, and to inherit is a partial order.
-/

namespace Idl.Grammar.Moment

variable {settings : Settings} {root : Option SourceId} {tokens : List Token} {m : Moment}

theorem links_lead_to_nodes (h : Reached settings root tokens m) :
    m.document.Linked ∧
    (∀ b ∈ m.waiting, (m.document.slot? b.slot).isSome ∧
      ∀ id, b.scope = some id → id.index < m.document.structures.size) ∧
    (WellFounded fun base id => m.document.HasBase id base) ∧
    (∀ id base, m.document.inherits id base = true ↔
      Relation.ReflTransGen m.document.HasBase id base) ∧
    IsPartialOrder StructureId fun id base => m.document.inherits id base = true := by
  have hs : m.document.Sound m.waiting := h.sound
  refine ⟨hs.linked, fun b hb => ⟨?_, hs.scopes b hb⟩, hs.linked.wellFounded_hasBase,
    fun _ _ => hs.linked.inherits_iff, hs.linked.isPartialOrder_inherits⟩
  have hopen : m.document.IsOpen b.slot :=
    (hs.waiting.slots b.slot).1 (List.mem_map_of_mem hb)
  exact hopen.isSome

/-- The statement at a moment at which a name waits inside of a template. -/
theorem links_lead_to_nodes_behind_structure :
    ∃ m, Reached {} none (Token.tokenize "structure A \x7b vector<B> b; \x7d") m ∧
      m.waiting.length = 1 ∧ m.document.Linked ∧
      (∀ b ∈ m.waiting, (m.document.slot? b.slot).isSome ∧
        ∀ id, b.scope = some id → id.index < m.document.structures.size) ∧
      (WellFounded fun base id => m.document.HasBase id base) ∧
      (∀ id base, m.document.inherits id base = true ↔
        Relation.ReflTransGen m.document.HasBase id base) ∧
      IsPartialOrder StructureId fun id base => m.document.inherits id base = true := by
  have hround : (match statementRound {} (source {} 65) true
      (.root none (Token.tokenize "structure A \x7b vector<B> b; \x7d")) with
    | .ok (.again _) s => s.remaining == 0 && s.pending.length == 1
    | _ => false) = true := by decide +kernel
  split at hround
  · rename_i next s hr
    simp only [Bool.and_eq_true, beq_iff_eq] at hround
    have hreached : Reached {} none _ ⟨65, [], next, s⟩ :=
      .single (.past hr (by rw [hround.1]; decide +kernel))
    exact ⟨_, hreached, hround.2, links_lead_to_nodes hreached⟩
  · cases hround

end Idl.Grammar.Moment
