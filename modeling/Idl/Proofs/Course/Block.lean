import Idl.Proofs.Course.Recovery
import Idl.Proofs.Grammar.Block

/-!
Broken declarations at the top of a source, written as a header and a block. A structure, an
interface, an enumeration or a factory is left behind its block whatever is wrong with it. So is
a specimen or an identifier with a broken header; but one with anything in its block is left
behind the first item there, and what follows in the block is read as declarations of the source.
-/

namespace Idl

namespace Grammar

variable {checks : List Check} {comment : Option Comment} {s s' : State} {outside : List Token}

/-- The form of declaration that the tokens ahead announce behind their modifiers. -/
def State.Announces (s : State) (form : DeclarationForm) : Prop :=
  ∃ taken s', modifiers declarationModifiers s = .ok taken s' ∧
    (s'.current.bind fun t => DeclarationForm.ofKeyword? t.text) = some form

/-- A declaration fails in front of its block, or behind the opening bracket of one that has to
be empty. -/
theorem after_declaration_before (b : Block) (hs : Before (b.andThen outside) s.cursor.rest) :
    After (declaration checks comment) s (fun _ _ => True) fun s' =>
      Before (b.andThen outside) s'.cursor.rest ∨
        ((s.Announces .specimen ∨ s.Announces .identifier) ∧
          s'.cursor.rest = b.behindComments outside) := by
  have hmodifiers := takes_modifiers declarationModifiers s
  unfold After declaration
  cases hm : modifiers declarationModifiers s with
  | error e s₁ =>
    rw [run_bind_of_error hm]
    exact .inl ((hmodifiers.of_error hm).beforeBlock b hs)
  | ok taken s₁ =>
    rw [run_bind_of_ok hm, run_bind_get]
    have hs₁ := (hmodifiers.of_ok hm).beforeBlock b hs
    change After _ s₁ (fun _ _ => True) _
    split
    · exact .inl hs₁
    · rename_i form hform
      extract_lets finish
      have hfinish (x : Declaration) : Still (finish x) :=
        (still_reportModifiers _).bind fun _ => still_pure _
      have hannounced : s.Announces form := ⟨taken, s₁, hm, hform⟩
      have hread {α : Type} {p : Parser α} {enters : Bool} (node : α → Declaration)
          (hp : Shuns enters p)
          (hform : enters = true → s.Announces .specimen ∨ s.Announces .identifier) :
          After (do let x ← node <$> p; finish x) s₁ (fun _ _ => True) fun s' =>
            Before (b.andThen outside) s'.cursor.rest ∨
              ((s.Announces .specimen ∨ s.Announces .identifier) ∧
                s'.cursor.rest = b.behindComments outside) := by
        refine After.mono (hp.map.bind_still hfinish s₁ b outside hs₁) (fun _ _ h => h)
          fun _ h => ?_
        exact h.imp_right fun ⟨henters, h⟩ => ⟨hform henters, h⟩
      cases form with
      | struct => exact hread .struct (shuns_structureDeclaration comment taken) nofun
      | interface => exact hread .interface (shuns_interface comment) nofun
      | enum => exact hread .enum (shuns_enumeration comment taken none) nofun
      | factory => exact hread .factory (shuns_factory comment taken) nofun
      | specimen => exact hread .specimen (shuns_specimen comment taken) fun _ => .inl hannounced
      | identifier =>
        exact hread .identifier (shuns_identifier comment taken) fun _ => .inr hannounced

/-- A declaration with a block that cannot be read leaves nothing but messages. The reading goes
on behind the block, and behind the closing brackets that follow it; but for a specimen or an
identifier with something in the block, behind the first item there. -/
theorem broken_declarations_leave_their_block (header : List Token) (b : Block)
    (hheader : ∀ t ∈ header, isPlain false t = true)
    (hs : s.cursor.rest = header ++ b.andThen outside) {e : Reported}
    (hp : declaration checks comment s = .error e s') :
    (∀ others, s.Sound others → s.Reads (s.declare checks comment)) ∧
      ((s.declare checks comment).cursor.rest = outside.dropWhile isClosing ∨
        ((s.Announces .specimen ∨ s.Announces .identifier) ∧
          s'.cursor.rest = b.behindComments outside ∧
          (s.declare checks comment).cursor.rest =
            (resumption 0 (b.inside.dropWhile Token.isComment) ++ b.closing :: outside).dropWhile
              isClosing)) := by
  refine ⟨fun others hsound => State.reads_declare_of_broken hsound hp, ?_⟩
  have hrest : (s.declare checks comment).cursor.rest =
      (resumption 0 s'.cursor.rest).dropWhile isClosing := by
    simp only [State.declare, State.construct, hp]
    rfl
  rcases (after_declaration_before b ⟨header, hheader, hs⟩).of_error hp with
    hbefore | ⟨hform, hinside⟩
  · exact .inl (by rw [hrest, resumption_of_before_block b hbefore])
  · exact .inr ⟨hform, hinside, by rw [hrest, hinside, resumption_behindComments]⟩

/-- A factory of no kind, with a block inside of its block and a closing bracket behind it. -/
theorem broken_declarations_leave_their_block_factory :
    let header := Token.tokenize "factory<S> F"
    let b : Block :=
      { opening := ⟨.bracket, "\x7b", {}⟩
        inside := Token.tokenize "filter a with \x7b b; \x7d c"
        closing := ⟨.bracket, "\x7d", {}⟩
        opens := rfl
        balanced := by decide +kernel
        ends := rfl }
    let outside := Token.tokenize "\x7d structure S \x7b \x7d"
    let s : State := .root none (header ++ b.andThen outside)
    s.Reads (s.declare Check.standard none) ∧
      (s.declare Check.standard none).cursor.rest = outside.dropWhile isClosing := by
  intro header b outside s
  have hbroken : (match declaration Check.standard none s with
    | .error _ s' => s'.cursor.rest.length == s.cursor.rest.length - 1
    | .ok _ _ => false) = true := by decide +kernel
  split at hbroken
  · rename_i e s' hp
    obtain ⟨hreads, hrest⟩ := broken_declarations_leave_their_block header b (by decide +kernel)
      (Cursor.rest_ofTokens _) hp
    refine ⟨hreads _ (Moment.sound_start {} none _), hrest.resolve_right fun ⟨_, hinside, _⟩ => ?_⟩
    rw [hinside] at hbroken
    revert hbroken
    decide +kernel
  · cases hbroken

/-- What stands in the block of an identifier is read as declarations of the source: `Y` becomes
a structure, and the bracket at the end of the block is a second mistake. -/
theorem identifier_leaks_its_block :
    let header := Token.tokenize "identifier X"
    let b : Block :=
      { opening := ⟨.bracket, "\x7b", {}⟩
        inside := Token.tokenize "a; structure Y \x7b \x7d"
        closing := ⟨.bracket, "\x7d", {}⟩
        opens := rfl
        balanced := by decide +kernel
        ends := rfl }
    let s : State := .root none (header ++ b.andThen [])
    let outcome := ({} : Settings).readTokens none (header ++ b.andThen [])
    (∀ t ∈ header, isPlain false t = true) ∧
      (match declaration Check.standard none s with
        | .error _ _ => true
        | .ok _ _ => false) = true ∧
      (s.declare Check.standard none).cursor.rest =
        Token.tokenize "   structure Y \x7b \x7d" ++ [b.closing] ∧
      (s.declare Check.standard none).cursor.rest ≠ [].dropWhile isClosing ∧
      outcome.document.declarations = [.struct ⟨0⟩] ∧ outcome.messages.length = 2 := by
  decide +kernel

end Grammar

end Idl
