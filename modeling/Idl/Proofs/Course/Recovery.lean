import Idl.Proofs.Course.Inside
import Idl.Proofs.Grammar.Bracket

/-!
Recovery in the bodies of all constructs. A body is left behind its closing bracket, whatever
stands in it, and a broken item without a block is left behind its semicolon.
-/

namespace Idl.Grammar

namespace Site

/-- How an item of a body is read that starts with the token `first`. -/
def read (comment : Option Comment) (first : Token) : Site → Parser Unit
  | struct id => do let _ ← member id comment first
  | enumeration id => enumerationValue id comment first
  | interface id =>
    if first.isKeyword "method" then Grammar.method id comment
    else unknownStatement first "interface" "method"
  | method id position =>
    if first.kind == .arrow then parameter id position comment first
    else unknownStatement first "method" "-->, <-- or <->"
  | factory id =>
    if first.isKeyword "filter" then filter id comment first
    else unknownStatement first "factory" "filter"

theorem itemStays (checks : List Check) (site : Site) : ItemStays (site.item checks) := by
  cases site with
  | struct id => exact itemStays_structure checks id
  | enumeration id => exact itemStays_enumeration id
  | interface id => exact itemStays_interface id
  | method id position => exact itemStays_method id position
  | factory id => exact itemStays_factory id

theorem sparesAt_read (site : Site) (comment : Option Comment) {first : Token} {s : State}
    (hc : s.current = some first) : SparesAt (site.read comment first) s := by
  cases site with
  | struct id => exact (spares_member comment first).bind_still (fun _ => still_pure _) s
  | enumeration id => exact (takes_enumerationValue id comment first).spares s
  | interface id =>
    simp only [read]
    split
    · exact spares_method id comment s
    · exact (takes_unknownStatement _ _ _ : Takes 0 false _).spares s
  | method id position => exact (takesAt_methodRead id position comment hc).sparesAt
  | factory id => exact (takes_factoryRead id comment first).spares s

/-- An item that cannot be read is taken back and skipped. -/
theorem item_of_error {checks : List Check} {site : Site} {comment : Option Comment}
    {first : Token} {s s' : State} {e : Reported} (h : site.read comment first s = .error e s') :
    site.item checks comment first s = (s'.rollback s.mark).recover := by
  cases site with
  | struct id =>
    have hmember : member id comment first s = .error e s' := by
      cases hp : member id comment first s with
      | ok a s₁ =>
        have hok : Site.read comment first (.struct id) s = .ok () s₁ := by
          simp only [read, bind, EStateM.bind, hp]
          rfl
        rw [hok] at h
        cases h
      | error e' s₁ =>
        simp only [read, bind, EStateM.bind, hp] at h
        cases h
        rfl
    simp only [item, structureItem, State.construct, hmember]
  | enumeration id | interface id | method id position | factory id =>
    simp only [read] at h
    simp only [item, enumerationItem, interfaceItem, methodItem, factoryItem, State.salvage,
      State.construct, h]

end Site

/-- The items of a body are read up to the closing bracket that belongs to it and no further,
however ill-formed they are. A broken item that holds no bracket and no semicolon before its last
token is left right behind this token. -/
theorem bodies_recover_exactly (checks : List Check) (site : Site) (s : State) :
    (∀ inside closing outside, closes 0 inside = true → isClosing closing = true →
      s.cursor.rest = inside ++ closing :: outside →
      ∃ s', items site.statement (site.item checks) s = .ok () s' ∧ s'.cursor.rest = outside) ∧
    (∀ comment s₀ first inside semicolon outside e s₁,
      (∀ t ∈ first :: inside, isBracket t = false ∧ isSemicolon t = false) →
      isSemicolon semicolon = true → s.leadingComment = (comment, s₀) →
      s₀.cursor.rest = first :: inside ++ semicolon :: outside →
      site.read comment first s₀ = .error e s₁ →
      ∃ s', bodyRound site.statement (site.item checks) s = .ok (.again ()) s' ∧
        s'.cursor.rest = outside) := by
  refine ⟨fun inside closing outside hin hclosing hrest => ?_,
    fun comment s₀ first inside semicolon outside e s₁ hplain hsemicolon hs hrest hp => ?_⟩
  · have hleaves : Leaves (items site.statement (site.item checks)) :=
      leaves_items (site.itemStays checks)
    have hafter := hleaves s closing outside hclosing ⟨inside, hin, hrest⟩
    cases hrun : items site.statement (site.item checks) s with
    | ok _ s' => exact ⟨s', rfl, hafter.of_ok hrun⟩
    | error e s' => exact (hafter.of_error hrun).elim
  · have hcurrent : s₀.current = some first := congrArg List.head? hrest
    obtain ⟨hbracket, hother⟩ := hplain first List.mem_cons_self
    refine ⟨_, Moment.bodyRound_item hs hcurrent (Bool.or_eq_false_iff.1 hbracket).2 hother, ?_⟩
    rw [Site.item_of_error hp]
    have hbefore : Before (semicolon :: outside) s₀.cursor.rest :=
      ⟨first :: inside, fun t ht => by simp [isPlain, hplain t ht], hrest⟩
    have hspared : Before (semicolon :: outside) s₁.cursor.rest :=
      (site.sparesAt_read comment hcurrent _ _ hsemicolon hbefore).of_error hp
    exact resumption_of_before hsemicolon hspared

/-- In an enumeration, a value with a block in the place of its parts, and one with nothing
there. -/
theorem bodies_recover_exactly_enumeration :
    let site : Site := .enumeration ⟨0⟩
    let inside := Token.tokenize "a = \x7b b \x7d c; d = ; e;"
    let closing : Token := ⟨.bracket, "\x7d", {}⟩
    let semicolon : Token := ⟨.delimiter, ";", {}⟩
    let value : List Token := [⟨.identifier, "d", {}⟩, ⟨.operator, "=", {}⟩]
    (∃ s', items site.statement (site.item [])
        (.root none (inside ++ closing :: Token.tokenize "f")) = .ok () s' ∧
      s'.cursor.rest = Token.tokenize "f") ∧
    ∃ s', bodyRound site.statement (site.item [])
        (.root none (value ++ semicolon :: Token.tokenize "e;")) = .ok (.again ()) s' ∧
      s'.cursor.rest = Token.tokenize "e;" := by
  intro site inside closing semicolon value
  refine ⟨(bodies_recover_exactly [] site _).1 inside closing _
    (by decide +kernel) rfl (Cursor.rest_ofTokens _), ?_⟩
  let s : State := .root none (value ++ semicolon :: Token.tokenize "e;")
  have hbroken : (match site.read none ⟨.identifier, "d", {}⟩ s with
    | .error _ _ => true
    | .ok _ _ => false) = true := by decide +kernel
  split at hbroken
  · rename_i e s₁ hp
    exact (bodies_recover_exactly [] site s).2 none s _ _ _ _ e s₁ (by decide) rfl rfl rfl hp
  · cases hbroken

end Idl.Grammar
