import Idl.Proofs.Course.Order
import Idl.Proofs.Grammar.Import

/-!
The types under specimens. A specimen that names no type of its own takes that of its base when
it is read, once and for all: the type if it is known by then, and `string` if it is not. So
along a chain of such specimens all have the same type, and whether it is that of the specimen
at the top is decided where the first of them is read.
-/

namespace Idl.Grammar

open Document

variable {checks : List Check} {others : List Binding} {comment : Option Comment}
  {taken : List Token} {s s' : State} {id base : SpecimenId}

theorem typeParameter_of_not_isAtText (classifier : String) (scope : Option StructureId)
    (h : s.cursor.isAtText .relation "<" = false) :
    typeParameter classifier scope s = .ok none s := by
  simp only [typeParameter, isAt, bind_assoc, run_bind_get, pure_bind, h]
  rfl

/-- What holds behind a part that only reads on. -/
theorem Quiet.after_bind {α β : Type} {p : Parser α} {f : α → Parser β} {s₀ : State}
    {done : β → State → Prop} (hp : Quiet p) (hr : s₀.Reads s)
    (h : ∀ a s', s₀.Reads s' → After (f a) s' done fun _ => True) :
    After (p >>= f) s done fun _ => True := by
  refine After.bind_of_run (fun a s' hrun => h a s' ?_) fun _ _ _ => trivial
  exact hr.trans ((hp s).of_ok hrun)

/-- A specimen that names no type of its own is one more specimen, with the type that its base
has at this moment. -/
theorem after_specimen (hplain : s.advance.cursor.isAtText .relation "<" = false) :
    After (specimen comment taken) s (fun id s' => id = s.document.specimens.next ∧
      ∃ node, s'.document.specimens.get? id = some node ∧
        node.parameter = some (inheritedParameter s.document node.base)) fun _ => True := by
  unfold specimen
  refine After.bind_of_run (fun keyword s₁ hk => ?_) fun _ _ _ => trivial
  have hr₁ : s.Reads s₁ := (quiet_expectKeyword "specimen" s).of_ok hk
  have hs₁ : s₁ = s.advance := by
    cases hc : s.current.filter (·.isKeyword "specimen") with
    | none => cases (expect_of_none hc).symm.trans hk
    | some t =>
      cases (expect_of_some hc).symm.trans hk
      rfl
  rw [hs₁] at hr₁ ⊢
  rw [After, run_bind_of_ok (typeParameter_of_not_isAtText _ _ hplain)]
  refine (quiet_expectName _).after_bind hr₁ fun name s₂ hr₂ => ?_
  refine (quiet_isAtKeyword _).after_bind hr₂ fun inherit s₃ hr₃ => ?_
  extract_lets write
  have hwrite (base : Option SpecimenId) (s₄ : State) (hr₄ : s.Reads s₄) :
      After (write base) s₄ (fun id s' => id = s.document.specimens.next ∧
        ∃ node, s'.document.specimens.get? id = some node ∧
          node.parameter = some (inheritedParameter s.document node.base)) fun _ => True := by
    refine (quiet_emptyBody _).after_bind hr₄ fun _ s₅ hr₅ => ?_
    rw [← hr₅.document]
    apply After.bind
    apply after_get
    extract_lets parameter id node
    have hget : (s₅.document.insertSpecimen node).specimens.get? id = some node := by
      simp [insertSpecimen, id, Arena.get?_insert]
    exact ⟨rfl, node, hget, rfl⟩
  split
  · refine quiet_advance.after_bind hr₃ fun _ s₄ hr₄ => ?_
    exact (quiet_specimenBase.map).after_bind hr₄ fun base s₅ hr₅ => hwrite base s₅ hr₅
  · exact (quiet_pure none).after_bind hr₃ hwrite

/-- A specimen is read that derives from `base` and names no type of its own. -/
inductive State.Specializes (comment : Option Comment) (s : State) (id base : SpecimenId)
    (s' : State) : Prop where
  | intro {taken : List Token} {s₁ : State} (ht : modifiers declarationModifiers s = .ok taken s₁)
      (hf : (s₁.current.bind fun t => DeclarationForm.ofKeyword? t.text) = some .specimen)
      (hplain : s₁.advance.cursor.isAtText .relation "<" = false)
      (hread : specimen comment taken s₁ = .ok id s')
      (hbase : (s'.document.specimens.get? id).bind (·.base) = some base)

/-- The specimen that is declared first and its base, if it has one and no type of its own. -/
def State.specializes? (comment : Option Comment) (s : State) :
    Option (SpecimenId × SpecimenId) :=
  match modifiers declarationModifiers s with
  | .ok taken s₁ =>
    if (s₁.current.bind fun t => DeclarationForm.ofKeyword? t.text) == some .specimen &&
        !s₁.advance.cursor.isAtText .relation "<" then
      match specimen comment taken s₁ with
      | .ok id s' => ((s'.document.specimens.get? id).bind (·.base)).map (id, ·)
      | .error _ _ => none
    else none
  | .error _ _ => none

theorem State.specializes_of_specializes? (h : s.specializes? comment = some (id, base)) :
    ∃ s', s.Specializes comment id base s' := by
  unfold specializes? at h
  split at h
  · rename_i taken s₁ ht
    split at h
    · rename_i hform
      simp only [Bool.and_eq_true, beq_iff_eq, Bool.not_eq_true'] at hform
      split at h
      · rename_i id' s' hread
        obtain ⟨base', hbase, heq⟩ := Option.map_eq_some_iff.1 h
        cases heq
        exact ⟨s', ht, hform.1, hform.2, hread, hbase⟩
      · cases h
    · cases h
  · cases h

namespace State.Specializes

theorem declaration (h : s.Specializes comment id base s') (checks : List Check) :
    ∃ s'', declaration checks comment s = .ok (.specimen id) s'' ∧ s'.Reads s'' := by
  obtain @⟨taken, s₁, ht, hf, _, hread, _⟩ := h
  have hform : (Declaration.specimen <$> specimen comment taken) s₁ = .ok (.specimen id) s' := by
    simp only [Functor.map, EStateM.map, hread]
  have hreports : After (reportModifiers (leftOver taken DeclarationForm.specimen.groups)) s'
    _ _ := after_reportModifiers _ s'
  unfold Grammar.declaration
  rw [run_bind_of_ok ht, run_bind_get]
  simp only [hf]
  rw [run_bind_of_ok hform]
  exact ⟨_, rfl, hreports.of_ok rfl⟩

/-- What is read: one more specimen, with the type of a specimen that is there. -/
theorem parameter (h : s.Specializes comment id base s') (hs : s.Sound others) :
    id = s.document.specimens.next ∧ base.index < s.document.specimens.size ∧
      s'.document.slot? (.specimenParameter id) =
        some (some (inheritedParameter s.document (some base))) := by
  obtain @⟨taken, s₁, ht, _, hplain, hread, hbase⟩ := h
  have hr₁ : s.Reads s₁ := (quiet_modifiers _ s).of_ok ht
  obtain ⟨hid, node, hnode, hparameter⟩ := (after_specimen hplain).of_ok hread
  have hs₁ : s₁.Ready others s.mark := hs.ready.reads hr₁
  have hbuilds : Builds [] s.mark s.mark (specimen comment taken) s₁ _ :=
    builds_specimen hs₁ comment taken
  have hlinked : s'.document.Linked := ((hbuilds.of_ok hread).1.ready hs₁).sound.linked
  rw [hnode] at hbase
  have hlt := (hlinked.specimens id node hnode).base base hbase
  rw [hr₁.document] at hid hparameter
  refine ⟨hid, ?_, ?_⟩
  · rw [hid] at hlt
    exact hlt
  · have hbase : node.base = some base := hbase
    rw [← hbase]
    simp only [slot?, hnode, hparameter, Option.map_some]

/-- The type stays when the specimen is registered. -/
theorem slot?_declare (h : s.Specializes comment id base s') (hs : s.Sound others)
    (hx : .specimen id ∈ (s.declare checks comment).document.declarations) :
    (s.declare checks comment).document.slot? (.specimenParameter id) =
      some (some (inheritedParameter s.document (some base))) := by
  obtain ⟨hid, _, hslot⟩ := h.parameter hs
  obtain ⟨s'', hread, hr⟩ := h.declaration checks
  rcases State.declare_cases hs comment with hunread | ⟨x, s₁, hp, _, heq⟩
  · rw [hunread.document] at hx
    have hlt : id.index < s.document.specimens.size := hs.linked.declarations (.specimen id) hx
    rw [hid] at hlt
    exact absurd hlt (Nat.lt_irrefl _)
  cases hread.symm.trans hp
  obtain ⟨he, _, hbelow⟩ := After.of_ok (builds_declaration hs.ready comment) hp
  have hs'' : s''.Sound others := (he.ready hs.ready).sound
  let visited : State :=
    { s'' with toSession := (s''.toSession.visit checks (.declaration (.specimen id)) false).2 }
  have hregistered : (visited.modifyDocument (·.register (.specimen id))).Sound others :=
    Document.Sound.register hs'' hbelow
  have hturns : Turns checks _ ((visited.register checks (.specimen id)).situation others) :=
    State.turns_register (s := visited) hbelow hregistered
  rw [heq]
  refine (hturns.grows hregistered).filled _ _ ?_
  rw [← hr.document] at hslot
  exact (slot?_register s''.document (.specimen id) _).trans hslot

end State.Specializes

namespace Moment

variable {settings : Settings} {root : Option SourceId} {tokens : List Token} {m m' : Moment}

/-- The next statement declares a specimen that derives from `base`, names no type of its own
and is registered. -/
inductive Specializes (checks : List Check) (m : Moment) (id base : SpecimenId) : Prop where
  | intro {comment : Option Comment} {s s' : State} (hd : m.Declares comment s)
      (hr : s.Specializes comment id base s')
      (hx : .specimen id ∈ (s.declare checks comment).document.declarations)

/-- The specimen of the next statement and its base, if it is one like that. -/
def specializes? (checks : List Check) (m : Moment) : Option (SpecimenId × SpecimenId) :=
  let s := m.state.skipComments
  if s.current.any fun t => t.kind == .identifier &&
      !(m.atHead && (t.isKeyword "import" || t.isKeyword "package")) then
    (s.specializes? m.state.comment?).filter fun (id, _) =>
      (s.declare checks m.state.comment?).document.isRegistered (.specimen id)
  else none

theorem specializes_of_specializes? (h : m.specializes? checks = some (id, base)) :
    m.Specializes checks id base := by
  simp only [specializes?] at h
  split at h
  · rename_i hword
    obtain ⟨t, ht, hkind⟩ := (Option.any_eq_true _ _).1 hword
    simp only [Bool.and_eq_true, beq_iff_eq, Bool.not_eq_true', Bool.and_eq_false_iff,
      Bool.or_eq_false_iff] at hkind
    have hd : m.Declares m.state.comment? m.state.skipComments := by
      refine ⟨rfl, t, ht, hkind.1, fun ha => hkind.2.resolve_left fun hn => ?_⟩
      exact Bool.false_ne_true (hn.symm.trans ha)
    obtain ⟨hread, hx⟩ := Option.filter_eq_some_iff.1 h
    obtain ⟨s', hr⟩ := State.specializes_of_specializes? hread
    exact ⟨hd, hr, List.contains_iff_mem.1 hx⟩
  · cases h

namespace Specializes

/-- The specimen is the next one, and its base is there. -/
theorem index (h : m.Specializes settings.checks id base) (hs : m.situation.Sound) :
    id.index = m.document.specimens.size ∧ base.index < m.document.specimens.size := by
  obtain @⟨comment, s, s', hd, hr, _⟩ := h
  obtain ⟨hid, hbase, _⟩ := hr.parameter (hd.sound hs)
  cases hd.state
  exact ⟨congrArg Id.index hid, hbase⟩

theorem exists_move (h : m.Specializes settings.checks id base) (hs : m.situation.Sound) :
    ∃ m', Move settings m m' ∧ m'.document.slot? (.specimenParameter id) =
      some (some (inheritedParameter m.document (some base))) := by
  obtain @⟨comment, s, s', hd, hr, hx⟩ := h
  have hslot := hr.slot?_declare (hd.sound hs) hx
  obtain ⟨levels, importers, atHead, s₀⟩ := m
  refine ⟨_, .declare hd, ?_⟩
  cases hd.state
  exact hslot

end Specializes

theorem slot?_of_moves {slot : Slot} {t : DataType} (h : Moves settings m m')
    (hs : m.situation.Sound) (ht : m.document.slot? slot = some (some t)) :
    m'.document.slot? slot = some (some t) :=
  ((h.steps.turns hs).grows hs).filled slot t ht

theorem Reached.slot?_readTokens {slot : Slot} {t : DataType} (hm : Reached settings root tokens m)
    (ht : m.document.slot? slot = some (some t)) :
    (settings.readTokens root tokens).document.slot? slot = some (some t) := by
  obtain ⟨a, ha, hd, _⟩ := hm.turns_outcome
  rw [hd]
  exact (ha.grows hm.sound).filled slot t ht

/-- The type that a specimen has taken from its base is its type in the end. -/
theorem Specializes.slot?_readTokens (h : m.Specializes settings.checks id base)
    (hm : Reached settings root tokens m) :
    (settings.readTokens root tokens).document.slot? (.specimenParameter id) =
      some (some (inheritedParameter m.document (some base))) := by
  obtain ⟨m', hmove, hslot⟩ := h.exists_move hm.sound
  exact Reached.slot?_readTokens (Relation.ReflTransGen.tail hm hmove.step) hslot

/-- A specimen that names no type of its own has one by the time another one derives from it. -/
theorem Specializes.filled {id' : SpecimenId} (h : m.Specializes settings.checks id base)
    (h' : m'.Specializes settings.checks id' id) (hm : Reached settings root tokens m)
    (hm' : Reached settings root tokens m') :
    ∃ t, m'.document.slot? (.specimenParameter id) = some (some t) := by
  obtain ⟨hid, _⟩ := h.index hm.sound
  obtain ⟨_, hbase⟩ := h'.index hm'.sound
  obtain ⟨m₁, hmove, hslot⟩ := h.exists_move hm.sound
  rcases hm.total hm' with hmoves | hmoves
  · rcases hmoves.of_move hmove with rfl | hmoves
    · omega
    · exact ⟨_, slot?_of_moves hmoves (hmove.sound hm.sound) hslot⟩
  · have hle := ((hmoves.steps.turns hm'.sound).grows hm'.sound).extent.2.2.2.1
    change m'.document.specimens.size ≤ m.document.specimens.size at hle
    omega

theorem inheritedParameter_of_slot? {d : Document} {t? : Option DataType}
    (h : d.slot? (.specimenParameter base) = some t?) :
    inheritedParameter d (some base) = t?.getD (.builtin .string) := by
  obtain ⟨node, hnode, rfl⟩ := Option.map_eq_some_iff.1 h
  simp [inheritedParameter, hnode]

/-- Along a chain of specimens that name no type of their own all have the type that the first
of them has. That is the type of its base, if it was known when the first one was read; and if
it was not, it is `string`, whatever the base gets later. -/
theorem specimens_inherit_known_parameters {first top : SpecimenId}
    (hm : Reached settings root tokens m) (h : m.Specializes settings.checks first top)
    (hchain : Relation.ReflTransGen (fun id base => ∃ m, Reached settings root tokens m ∧
      m.Specializes settings.checks id base) id first) :
    let d := (settings.readTokens root tokens).document
    (∃ t, m.document.slot? (.specimenParameter top) = some (some t) ∧
      d.slot? (.specimenParameter top) = some (some t) ∧
      d.slot? (.specimenParameter id) = some (some t)) ∨
    m.document.IsOpen (.specimenParameter top) ∧
      d.slot? (.specimenParameter id) = some (some (.builtin .string)) := by
  intro d
  have hfirst : d.slot? (.specimenParameter id) = d.slot? (.specimenParameter first) := by
    induction hchain using Relation.ReflTransGen.head_induction_on with
    | refl => rfl
    | @head a b hlink hchain ih =>
      obtain ⟨ma, hma, ha⟩ := hlink
      obtain ⟨mb, base, hmb, hb⟩ : ∃ mb base, Reached settings root tokens mb ∧
          mb.Specializes settings.checks b base := by
        rcases hchain.cases_head with rfl | ⟨base, ⟨mb, hmb, hb⟩, _⟩
        · exact ⟨m, top, hm, h⟩
        · exact ⟨mb, base, hmb, hb⟩
      obtain ⟨t, ht⟩ := hb.filled ha hmb hma
      have hsame : d.slot? (.specimenParameter a) = some (some t) := by
        rw [ha.slot?_readTokens hma, inheritedParameter_of_slot? ht]
        rfl
      rw [hsame, ← ih]
      exact (hma.slot?_readTokens ht).symm
  have hparameter : d.slot? (.specimenParameter first) = _ := h.slot?_readTokens hm
  rw [hfirst, hparameter]
  obtain ⟨t?, ht⟩ := Option.isSome_iff_exists.1 (show
    (m.document.slot? (.specimenParameter top)).isSome by
      simpa [slot?, Arena.get?_isSome_iff] using (h.index hm.sound).2)
  rw [inheritedParameter_of_slot? ht]
  cases t? with
  | some t => exact .inl ⟨t, ht, hm.slot?_readTokens ht, rfl⟩
  | none => exact .inr ⟨ht, rfl⟩

/-- Both specimens behind `A` are declared without a type. -/
theorem specimens_inherit_known_parameters_chain :
    let settings : Settings := {}
    let tokens := Token.tokenize
      "specimen<integer> A \x7b \x7d specimen B inherit A \x7b \x7d specimen C inherit B \x7b \x7d"
    let d := (settings.readTokens none tokens).document
    ∃ m, Reached settings none tokens m ∧ m.Specializes settings.checks ⟨1⟩ ⟨0⟩ ∧
      Relation.ReflTransGen (fun id base => ∃ m, Reached settings none tokens m ∧
        m.Specializes settings.checks id base) ⟨2⟩ ⟨1⟩ ∧
      d.slot? (.specimenParameter ⟨2⟩) = some (some (.builtin .integer)) := by
  intro settings tokens d
  let start := Moment.start settings none tokens
  have hruns : (match statementRound settings (source settings 65) true start.state with
    | .ok (.again next) s =>
      decide (s.remaining < start.state.remaining) &&
      (⟨65, [], next, s⟩ : Moment).specializes? settings.checks == some (⟨1⟩, ⟨0⟩) &&
      s.document.slot? (.specimenParameter ⟨0⟩) == some (some (.builtin .integer)) &&
      match statementRound settings (source settings 65) next s with
      | .ok (.again next') s' => decide (s'.remaining < s.remaining) &&
        (⟨65, [], next', s'⟩ : Moment).specializes? settings.checks == some (⟨2⟩, ⟨1⟩)
      | _ => false
    | _ => false) = true := by decide +kernel
  split at hruns
  · rename_i next s hr
    simp only [Bool.and_eq_true, decide_eq_true_eq, beq_iff_eq] at hruns
    obtain ⟨⟨⟨hlt, hB⟩, htop⟩, hruns⟩ := hruns
    have hm : Reached settings none tokens ⟨65, [], next, s⟩ := .single (.past hr hlt)
    split at hruns
    · rename_i next' s' hr'
      simp only [Bool.and_eq_true, decide_eq_true_eq, beq_iff_eq] at hruns
      have hm' : Reached settings none tokens ⟨65, [], next', s'⟩ := .tail hm (.past hr' hruns.1)
      have hB := specializes_of_specializes? hB
      have hC := specializes_of_specializes? hruns.2
      have hchain : Relation.ReflTransGen (fun id base => ∃ m, Reached settings none tokens m ∧
        m.Specializes settings.checks id base) ⟨2⟩ ⟨1⟩ := .single ⟨_, hm', hC⟩
      refine ⟨_, hm, hB, hchain, ?_⟩
      rcases specimens_inherit_known_parameters hm hB hchain with ⟨t, ht, _, hC⟩ | ⟨hopen, _⟩
      · cases ht.symm.trans htop
        exact hC
      · cases hopen.symm.trans htop
    · cases hruns
  · cases hruns

/-- The type of `A` is known only when its enumeration has been read. -/
theorem specimen_misses_late_parameter :
    let settings : Settings := {}
    let tokens := Token.tokenize
      "specimen<E> A \x7b \x7d specimen B inherit A \x7b \x7d enum E \x7b a; \x7d"
    let outcome := settings.readTokens none tokens
    outcome.ok = true ∧ outcome.document.declarations = [.specimen ⟨0⟩, .specimen ⟨1⟩, .enum ⟨0⟩] ∧
      (∃ m, Reached settings none tokens m ∧ m.Specializes settings.checks ⟨1⟩ ⟨0⟩) ∧
      outcome.document.slot? (.specimenParameter ⟨0⟩) = some (some (.enum ⟨0⟩)) ∧
      outcome.document.slot? (.specimenParameter ⟨1⟩) = some (some (.builtin .string)) := by
  intro settings tokens outcome
  let start := Moment.start settings none tokens
  have hrun : (match statementRound settings (source settings 65) true start.state with
    | .ok (.again next) s =>
      decide (s.remaining < start.state.remaining) &&
      (⟨65, [], next, s⟩ : Moment).specializes? settings.checks == some (⟨1⟩, ⟨0⟩)
    | _ => false) = true := by decide +kernel
  split at hrun
  · rename_i next s hr
    simp only [Bool.and_eq_true, decide_eq_true_eq, beq_iff_eq] at hrun
    have hm : Reached settings none tokens ⟨65, [], next, s⟩ := .single (.past hr hrun.1)
    refine ⟨by decide +kernel, by decide +kernel, ⟨_, hm, specializes_of_specializes? hrun.2⟩, ?_⟩
    decide +kernel
  · cases hrun

end Moment

end Idl.Grammar
