import Idl.Proofs.Check.Stable
import Idl.Proofs.Course.Ending

/-!
Validity over a whole session. A declaration that is registered has passed the checks, and it
passes them in every document that follows. A declaration that is read later does not touch it;
a name that is bound is seen only by the declaration that owns it, which is checked again and
withdrawn if it fails.
-/

namespace Idl

/-- Every declaration that can be found is valid. -/
def Document.Valid (d : Document) : Prop :=
  ∀ x ∈ d.declarations, d.IsValid x

namespace Session

open Document

variable {s : Session} {x : Declaration}

theorem visit_passed_iff :
    (s.visit Check.standard (.declaration x) true).1 = true ↔ s.document.TypesAllowed x :=
  Check.passed_late_iff

theorem isChecked_of_mem (h : x ∈ s.document.declarations) : s.isChecked x = true := by
  unfold isChecked
  rw [isRegistered, List.contains_iff_mem.2 h, Bool.true_or]

/-- A session in which only the types in one declaration are in doubt is valid when this
declaration has been checked again. -/
theorem valid_recheck (hd : s.document.Linked)
    (hn : ∀ y ∈ s.document.declarations, s.document.NamesDistinct y)
    (ht : ∀ y ∈ s.document.declarations, y ≠ x → s.document.TypesAllowed y) :
    (s.recheck Check.standard x).document.Valid := by
  intro y hy
  have hsheds := s.sheds_recheck Check.standard x
  have hmem := hsheds.declarations y hy
  have hbelow := hd.declarations y hmem
  refine ⟨hsheds.namesDistinct hd hbelow (hn y hmem), hsheds.typesAllowed hd hbelow ?_⟩
  by_cases hyx : y = x
  · -- it is still registered, so it has passed
    subst hyx
    rw [recheck, if_pos (isChecked_of_mem hmem)] at hy
    cases hp : (s.visit Check.standard (.declaration y) true).1 with
    | true => exact visit_passed_iff.1 hp
    | false =>
      simp only [hp] at hy
      exact absurd rfl (bne_iff_ne.1 (List.mem_filter.1 hy).2)
  · exact ht y hmem hyx

/-- Binding a name leaves nothing visible that is not valid. -/
theorem valid_bind {b : Binding} {ws : List Binding} {t : DataType}
    (hs : s.document.Sound (b :: ws)) (ht : t.Named s.document.extent)
    (hv : s.document.Valid) : (s.bind Check.standard b t).document.Valid := by
  let filled := s.modifyDocument (·.fill b.slot t)
  let checked := filled.recheckSlot b.slot
  have hfilled : filled.document.Linked := (hs.fill ht).linked
  have hsheds : filled.document.Sheds checked.document := sheds_recheckSlot filled b.slot
  have hlinked : checked.document.Linked := (hsheds.linksInto hfilled).mono hsheds.grows
  have hold (x : Declaration) (hx : x ∈ checked.document.declarations) :
      x ∈ s.document.declarations := by
    rw [← declarations_fill s.document b.slot t]
    exact hsheds.declarations x hx
  have hbelow (x : Declaration) (hx : x ∈ checked.document.declarations) :
      x.Below s.document.extent ∧ x.Below filled.document.extent := by
    have hx' := hs.linked.declarations x (hold x hx)
    exact ⟨hx', (extent_fill s.document b.slot t).symm ▸ hx'⟩
  have hnames (x : Declaration) (hx : x ∈ checked.document.declarations) :
      checked.document.NamesDistinct x :=
    hsheds.namesDistinct hfilled (hbelow x hx).2
      ((hv x (hold x hx)).names.fill hs.linked (hbelow x hx).1 b.slot t)
  have htypes (x : Declaration) (hx : x ∈ checked.document.declarations)
      (hb : b.owner? ≠ some x) : checked.document.TypesAllowed x :=
    hsheds.typesAllowed hfilled (hbelow x hx).2
      ((hv x (hold x hx)).types.fill hs (hbelow x hx).1 hb t)
  rw [bind_eq]
  cases howner : b.owner? with
  | none => exact fun x hx => ⟨hnames x hx, htypes x hx (by simp [howner])⟩
  | some owner =>
    refine valid_recheck hlinked hnames fun x hx hne => htypes x hx ?_
    rw [howner]
    exact fun h => hne (Option.some.inj h).symm

end Session

namespace Grammar

variable {a b : Situation}

/-- A turn leaves nothing visible that is not valid. -/
theorem Turn.valid (h : Turn Check.standard a b) (ha : a.Sound)
    (hv : a.session.document.Valid) : b.session.document.Valid := by
  cases h with
  | @note s s' ws h _ =>
    have hs : s.document.Linked := ha.linked
    intro x hx
    simp only at hx ⊢
    rw [h] at hx ⊢
    exact (hv x hx).of_nodes_eq hs (hs.declarations x hx) rfl rfl rfl
      (Document.slot?_note s.document _ _)
  | reorder h => exact hv
  | @declare others s s' x he hx hb hp =>
    have hs : s.Sound others := ha
    have hagree := (he.keeps hs.ready).agree
    have hlinked := (he.ready hs.ready).sound.linked
    have hvalid : ∀ y ∈ s'.document.declarations ++ [x],
        s'.document.IsValid y ∧ y.Below s'.document.extent := by
      intro y hy
      rcases List.mem_append.1 hy with hy | hy
      · refine ⟨?_, hlinked.declarations y hy⟩
        rw [hagree.declarations_eq] at hy
        exact hagree.isValid hs.linked (hs.linked.declarations y hy) (hv y hy)
      · cases List.mem_singleton.1 hy
        exact ⟨Check.passed_standard_iff.1 hp, hb⟩
    intro y hy
    exact (hvalid y hy).1.of_nodes_eq hlinked (hvalid y hy).2 rfl rfl rfl
      (Document.slot?_register s'.document x)
  | @bind s b ws t ht => exact Session.valid_bind ha ht hv

theorem Turns.valid (h : Turns Check.standard a b) (ha : a.Sound)
    (hv : a.session.document.Valid) : b.session.document.Valid := by
  induction h with
  | refl => exact hv
  | tail h t ih => exact t.valid (h.sound ha) ih

namespace Moment

variable {settings : Settings} {root : Option SourceId} {tokens : List Token}

theorem valid_start (settings : Settings) (root : Option SourceId) (tokens : List Token) :
    (start settings root tokens).situation.session.document.Valid := by
  cases root <;> exact fun x hx => absurd hx List.not_mem_nil

/-- However a session with the standard checks ends, each declaration that is registered then
passes all of them again: the names in it are distinct and its types are allowed. -/
theorem declarations_pass_again (h : settings.checks = Check.standard) :
    ∀ x ∈ (settings.readTokens root tokens).document.declarations,
      (∀ check ∈ Check.standard,
        (check.run (settings.readTokens root tokens).document (.declaration x)).passed = true) ∧
      (settings.readTokens root tokens).document.IsValid x := by
  obtain ⟨a, ha, hd, _⟩ :=
    Reached.turns_outcome (.refl : Reached settings root tokens (start settings root tokens))
  rw [h] at ha
  have hvalid := ha.valid (sound_start settings root tokens) (valid_start settings root tokens)
  rw [hd]
  intro x hx
  have hx := hvalid x hx
  exact ⟨(Check.runAll_passed_iff _ _ _).1 (Check.passed_standard_iff.2 hx), hx⟩

/-- The statement where a sharable structure is withdrawn, since a name inside of a template in
it turns out to mean a structure that is not sharable. -/
theorem declarations_pass_again_behind_withdrawn :
    let settings : Settings := {}
    let tokens := Token.tokenize "sharable structure A \x7b vector<B> b; \x7d structure B \x7b \x7d"
    let document := (settings.readTokens none tokens).document
    document.declarations = [.struct ⟨1⟩] ∧
    (∀ check ∈ Check.standard, (check.run document (.declaration (.struct ⟨1⟩))).passed = true) ∧
    document.IsValid (.struct ⟨1⟩) := by
  intro settings tokens document
  have hdeclarations : document.declarations = [.struct ⟨1⟩] := by decide +kernel
  have hx : .struct ⟨1⟩ ∈ document.declarations := hdeclarations ▸ List.mem_singleton_self _
  exact ⟨hdeclarations, declarations_pass_again rfl (.struct ⟨1⟩) hx⟩

end Moment

end Grammar

end Idl
