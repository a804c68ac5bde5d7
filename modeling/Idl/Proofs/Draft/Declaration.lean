import Idl.Grammar.Declaration
import Idl.Proofs.Draft.Enumeration
import Idl.Proofs.Draft.Interface
import Idl.Proofs.Draft.Structure

/-!
Declarations that are read as they were drafted. The word behind the modifiers says which of the
three forms is read, and no modifier is left over.
-/

namespace Idl.Grammar

open Document

variable {s : State} {tokens front rest : List Token} {d : Document} {ws : List Binding} {t : Token}
  {x : Draft}

/-- Behind its modifiers a declaration starts with the word of its form. -/
theorem run_front (form : DeclarationForm) (s : State) (d : Document) (ws : List Binding)
    (hfront : ∀ t ∈ front, t.kind = .identifier ∧ t.text ∈ declarationModifiers)
    (ht : t.is .identifier form.keyword = true) (hclear : Clear tokens)
    (htokens : tokens = front ++ t :: rest) :
    modifiers declarationModifiers (s.facing tokens d ws) =
        .ok front (s.facing (t :: rest) d ws) ∧
      (s.facing (t :: rest) d ws).current.bind
        (fun t => DeclarationForm.ofKeyword? t.text) = some form := by
  subst htokens
  simp only [Token.is, Bool.and_eq_true, beq_iff_eq] at ht
  have hstop : declarationModifiers.contains form.keyword = false := by cases form <;> decide
  have hword : DeclarationForm.ofKeyword? form.keyword = some form := by cases form <;> decide
  refine ⟨run_modifiers hfront ?_ hclear, ?_⟩
  · rw [ht.2, hstop, Bool.and_false]
  · rw [← hword, ← ht.2]
    rfl

/-- A form that takes all modifiers is all that is read. -/
theorem run_form {α : Type} {p : Parser α} {a : α} {s' : State} {left : List Token}
    (node : α → Declaration) (hp : p s = .ok a s') (hleft : left = []) :
    (do let x ← node <$> p; reportModifiers left; return x) s = .ok (node a) s' := by
  subst hleft
  have hnode : (node <$> p) s = .ok (node a) s' := run_bind_of_ok hp _
  rw [run_bind_of_ok hnode]
  rfl

/-- An enumeration is declared with the words in front of it, all of which it takes. -/
theorem run_enumDeclaration {front : Draft.Front} {taken : List Token} {id : EnumerationId}
    {s' : State} (checks : List Check) (htaken : Spell taken (front.words.map .word))
    (ht : t.is .identifier "enum" = true) (hclear : Clear (taken ++ t :: rest))
    (hrun : enumeration none taken none (s.facing (t :: rest) d ws) = .ok id s') :
    declaration checks none (s.facing (taken ++ t :: rest) d ws) = .ok (.enum id) s' := by
  obtain ⟨htexts, hkinds⟩ := texts_of_spell htaken
  have hwords : ∀ w ∈ front.words, w ∈ declarationModifiers := by
    rcases front with ⟨_ | ⟨_ | _⟩, _ | _, _ | _⟩ <;> decide
  have hfront : ∀ t ∈ taken, t.kind = .identifier ∧ t.text ∈ declarationModifiers :=
    fun t h => ⟨hkinds t h, hwords _ (htexts ▸ List.mem_map_of_mem h)⟩
  obtain ⟨hmodifiers, hform⟩ := run_front .enum s d ws hfront ht hclear rfl
  simp only [declaration, run_bind_of_ok hmodifiers, run_bind_get, hform]
  exact run_form .enum hrun (front_of_spell htaken).2.2

theorem exists_declaration (checks : List Check) (hd : d.IsPlain) (hpackage : s.package = none)
    (hscopes : ∀ b ∈ ws, ∀ i, b.scope = some i → i.index < d.structures.size) (hx : x.IsPlain)
    (htokens : Spell tokens x.pieces) (hclear : Clear (tokens ++ rest)) :
    ∃ y scope d' ws', declaration checks none (s.facing (tokens ++ rest) d ws) =
        .ok y (s.facing rest d' ws') ∧ s.Drafted scope x.pieces tokens d ws x y d' ws' := by
  have hnone : ∀ t ∈ ([] : List Token), t.kind = .identifier ∧ t.text ∈ declarationModifiers := by
    simp
  cases x with
  | struct name fields =>
    obtain ⟨d', ws', hrun, hdrafted⟩ :=
      exists_structureDeclaration checks hd hpackage hscopes hx.2 htokens hclear
    refine ⟨_, _, d', ws', ?_, hdrafted⟩
    obtain ⟨t, tokens, rfl, ht, -⟩ := spell_cons.1 htokens
    obtain ⟨hmodifiers, hform⟩ := run_front .struct s d ws hnone ht hclear rfl
    simp only [declaration, run_bind_of_ok hmodifiers, run_bind_get, hform]
    exact run_form .struct hrun (leftOver_nil _)
  | interface name methods =>
    obtain ⟨d', ws', hrun, hdrafted⟩ :=
      exists_interfaceDeclaration hd hpackage hx htokens hclear
    refine ⟨_, _, d', ws', ?_, hdrafted⟩
    obtain ⟨t, tokens, rfl, ht, -⟩ := spell_cons.1 htokens
    obtain ⟨hmodifiers, hform⟩ := run_front .interface s d ws hnone ht hclear rfl
    simp only [declaration, run_bind_of_ok hmodifiers, run_bind_get, hform]
    exact run_form .interface hrun (leftOver_nil _)
  | enum front name behind values =>
    obtain ⟨taken, tokens, rfl, htaken, htokens⟩ := spell_append.1 htokens
    rw [List.append_assoc] at hclear ⊢
    obtain ⟨d', ws', hrun, hdrafted⟩ :=
      exists_draftedEnumeration ws hd hpackage hx htaken htokens (clear_append.1 hclear).2
    refine ⟨_, _, d', ws', ?_, hdrafted⟩
    obtain ⟨t, tokens, rfl, ht, -⟩ := spell_cons.1 htokens
    exact run_enumDeclaration checks htaken ht hclear hrun

end Idl.Grammar
