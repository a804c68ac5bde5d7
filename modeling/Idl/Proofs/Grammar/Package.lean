import Idl.Grammar.Package
import Idl.Proofs.Reading.Progress

/-!
The package of a source is read and then noted; nothing else is done for it.
-/

namespace Idl.Grammar

variable {s : State}

theorem quiet_packageElement (position : Nat) : Quiet (packageElement position) := by
  refine (quiet_expect _ _ _).bind fun t => quiet_get.bind fun s => ?_
  split
  · split
    · exact quiet_pure _
    · exact quiet_failAt _ _ _
  · exact quiet_pure _

/-- An asterisk is read as the directory at its position, or refused where there is none. -/
theorem packageElement_of_asterisk {t : Token} (ht : s.current = some t)
    (hkind : t.kind = .asterisk) (position : Nat) :
    packageElement position s =
      match inheritedElement? s position with
      | some value => .ok ⟨value, s.locationOf t, true⟩ s.advance
      | none => .error .reported (s.advance.report
          (.of .unresolvedPackageElement (s.locationOf t) [(.position, toString (position + 1))])) := by
  have hcurrent : s.current.filter isPackageElement = some t := by
    rw [ht, Option.filter_some, if_pos (by simp [isPackageElement, hkind])]
  have hexpect : expect isPackageElement .expectPackageElement [] s = .ok t s.advance := by
    have hdemand : demand isPackageElement .expectPackageElement [] s = .ok t s := by
      simp only [demand, run_bind_get, hcurrent]
      rfl
    rw [expect, run_bind_of_ok hdemand]
    rfl
  have hinherited : inheritedElement? s.advance position = inheritedElement? s position := rfl
  rw [packageElement, run_bind_of_ok hexpect, run_bind_get, if_pos (beq_iff_eq.2 hkind), hinherited]
  cases inheritedElement? s position <;> rfl

theorem quiet_packagePath : Quiet packagePath := by
  refine quiet_iterate (fun elements => ?_) _
  refine (quiet_packageElement _).bind fun e => (quiet_isAt _ _).bind fun dot => ?_
  split
  · exact quiet_advance.bind fun _ => quiet_pure _
  · exact quiet_pure _

/-- The package has been read and noted. -/
def State.NotesPackage (s s' : State) : Prop :=
  ∃ s₀ : State, s.Reads s₀ ∧ ∃ package : Package, s' =
    let s₁ := { s₀ with package := some package }
    if s₁.isMain then s₁.modifyDocument fun d => { d with package := some package } else s₁

theorem after_package : After package s (fun _ s' => s.NotesPackage s') s.Reads := by
  have hread {α : Type} {p : Parser α} {f : α → Parser Unit} (hp : Quiet p)
      (hf : ∀ a s', s.Reads s' → After (f a) s' (fun _ s'' => s.NotesPackage s'') s.Reads)
      (s' : State) (hr : s.Reads s') :
      After (p >>= f) s' (fun _ s'' => s.NotesPackage s'') s.Reads := by
    apply After.bind
    exact (hp s').mono (fun a s'' h => hf a s'' (hr.trans h)) fun _ h => hr.trans h
  refine hread (quiet_expectKeyword _) (fun keyword => ?_) s (State.Reads.refl s)
  refine hread quiet_packagePath fun short => ?_
  refine hread (quiet_isAt _ _) fun bar s₁ hr₁ => ?_
  extract_lets finish
  have hfinish (full : List PackageElement) (s₂ : State) (hr₂ : s.Reads s₂) :
      After (finish full) s₂ (fun _ s'' => s.NotesPackage s'') s.Reads := by
    refine hread quiet_expectSemicolon (fun _ s₃ hr₃ => ?_) s₂ hr₂
    exact after_modify ⟨s₃, hr₃, _, rfl⟩
  split
  · refine hread quiet_advance (fun _ => ?_) s₁ hr₁
    exact hread quiet_packagePath hfinish
  · exact hfinish short s₁ hr₁

/-- A package is at least its keyword. -/
theorem after_package_remaining (s : State) :
    After package s (fun _ s' => s'.remaining < s.remaining) fun _ => True := by
  refine after_bind_remaining (after_expect_remaining _ _ _ s) fun keyword => ?_
  refine quiet_packagePath.forward.bind fun short => ?_
  refine (quiet_isAt _ _).forward.bind fun bar => ?_
  extract_lets finish
  have hfinish (full : List PackageElement) : Forward (finish full) := by
    refine quiet_expectSemicolon.forward.bind fun _ => forward_modify fun s => ?_
    simp only
    split <;> rfl
  split
  · exact (quiet_advance.bind fun _ => quiet_packagePath).forward.bind hfinish
  · exact hfinish short

end Idl.Grammar
