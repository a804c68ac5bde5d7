import Idl.Check.Standard
import Idl.Proofs.Document.Core
import Idl.Proofs.Document.Field

/-!
What the standard checks ask for, said without faults and messages. The late checks ask for
what hangs on types; the others ask for distinct names and members, and hang on no type at all.
-/

namespace Idl

/-- A verdict on errors is passed if there are none. -/
theorem Verdict.passed_ofMessages_iff {messages : List Message}
    (h : ∀ m ∈ messages, m.severity = .error) :
    (Verdict.ofMessages messages).passed = true ↔ messages = [] := by
  cases messages with
  | nil => simp [ofMessages, Message.hasError]
  | cons m rest => simp [ofMessages, Message.hasError, h m List.mem_cons_self]

/-- Two members of which the second is a fault behind the first. -/
def Member.Clashes (a b : Member) : Prop :=
  (∃ f g, a.field? = some f ∧ b.field? = some g ∧ f.name.value = g.name.value) ∨
  (a.identification?.isSome = true ∧ b.identification?.isSome = true) ∨
  ∃ o p, a.operator? = some o ∧ b.operator? = some p ∧ o.action = p.action

namespace Member

variable {a b : Member}

theorem clashes_of_field {f : Field} (hf : b.field? = some f) (hi : b.identification? = none)
    (ho : b.operator? = none) :
    a.Clashes b ↔ a.field?.any (·.name.value == f.name.value) = true := by
  simp [Clashes, hf, hi, ho, Option.any_eq_true]

theorem clashes_identification (i : Identification) :
    a.Clashes (.identification i) ↔ a.identification?.isSome = true := by
  simp [Clashes, field?.eq_def (.identification i), identification?.eq_def (.identification i),
    operator?.eq_def (.identification i)]

theorem clashes_operator (o : Operator) :
    a.Clashes (.operator o) ↔ a.operator?.any (·.action == o.action) = true := by
  simp [Clashes, field?.eq_def (.operator o), identification?.eq_def (.operator o),
    operator?.eq_def (.operator o), Option.any_eq_true]

theorem not_clashes (hf : b.field? = none) (hi : b.identification? = none)
    (ho : b.operator? = none) : ¬ a.Clashes b := by
  simp [Clashes, hf, hi, ho]

end Member

namespace Structure

/-- The names of the own fields. -/
def fieldNames (s : Structure) : List String :=
  (s.members.filterMap Member.field?).map (·.name.value)

/-- The names of the own fields that take no other field's place. -/
def plainNames (s : Structure) : List String :=
  s.members.filterMap fun
    | .field f => some f.name.value
    | _ => none

theorem mem_fields_iff {s : Structure} {position : Nat} {f : Field} :
    (position, f) ∈ s.fields ↔ s.field? position = some f := by
  rw [fields, List.mem_filterMap]
  constructor
  · rintro ⟨⟨m, p⟩, hm, hf⟩
    obtain ⟨g, hg, he⟩ := Option.map_eq_some_iff.1 hf
    cases he
    rw [field?, List.mem_zipIdx_iff_getElem?.1 hm]
    exact hg
  · intro hf
    obtain ⟨m, hm, hf⟩ := Option.bind_eq_some_iff.1 hf
    exact ⟨(m, position), List.mem_zipIdx_iff_getElem?.2 hm, by simp [hf]⟩

theorem mem_plainNames_iff {s : Structure} {name : String} :
    name ∈ s.plainNames ↔ ∃ f, .field f ∈ s.members ∧ f.name.value = name := by
  rw [plainNames, List.mem_filterMap]
  constructor
  · rintro ⟨m, hm, hname⟩
    cases m with
    | field f => exact ⟨f, hm, Option.some.inj hname⟩
    | _ => cases hname
  · rintro ⟨f, hf, rfl⟩
    exact ⟨_, hf, rfl⟩

/-- No field name, identification or operator is declared twice, and no field hides one of a
base. -/
structure Distinct (d : Document) (s : Structure) : Prop where
  fields : s.fieldNames.Nodup
  plain : ∀ name ∈ s.plainNames, ∀ base, s.base = some base → d.findField? base name = none
  identifications : (s.members.filterMap Member.identification?).length ≤ 1
  operators : ((s.members.filterMap Member.operator?).map (·.action)).Nodup

/-- A sharable structure holds sharable structures only, and so does what derives from it. -/
structure Shares (d : Document) (s : Structure) : Prop where
  fields : s.has .sharable = true → ∀ position f t, s.field? position = some f →
    f.type = some t → ∀ id, d.core? t = some (.struct id) →
      ∃ x, d.structures.get? id = some x ∧ x.has .sharable = true
  derived : ∀ base x, s.base = some base → d.structures.get? base = some x →
    x.has .sharable = true → s.has .sharable = true

end Structure

namespace Check

theorem pairwise_iff_take {α : Type} {r : α → α → Prop} {l : List α} :
    l.Pairwise r ↔ ∀ (position : Nat) b, l[position]? = some b → ∀ a ∈ l.take position, r a b := by
  rw [List.pairwise_iff_getElem]
  constructor
  · intro h position b hb a ha
    obtain ⟨i, hi, rfl⟩ := List.mem_take_iff_getElem.1 ha
    obtain ⟨hp, rfl⟩ := List.getElem?_eq_some_iff.1 hb
    exact h i position _ hp (by omega)
  · intro h i j hi hj hij
    exact h j l[j] (List.getElem?_eq_getElem hj) l[i]
      (List.mem_take_iff_getElem.2 ⟨i, by omega, rfl⟩)

variable {d : Document}

theorem memberFaults_eq_nil_iff {s : Structure} {before : List Member} {m : Member} :
    memberFaults d s before m = [] ↔ (∀ b ∈ before, ¬ b.Clashes m) ∧
      ∀ f, m = .field f → s.base.bind (d.findField? · f.name.value) = none := by
  cases m with
  | field f =>
    have hclash (b : Member) : b.Clashes (.field f) ↔ _ := Member.clashes_of_field rfl rfl rfl
    simp only [memberFaults, hclash, Member.field.injEq, forall_eq']
    cases s.base.bind (d.findField? · f.name.value) with
    | none => simp
    | some hidden => split <;> simp
  | override f overridden =>
    have hclash (b : Member) : b.Clashes (.override f overridden) ↔ _ :=
      Member.clashes_of_field rfl rfl rfl
    simp [memberFaults, hclash]
  | identification i => simp [memberFaults, Member.clashes_identification]
  | operator o => simp [memberFaults, Member.clashes_operator]
  | alter a =>
    simp [memberFaults, @Member.not_clashes _ (.alter a) rfl rfl rfl]
  | enumeration e =>
    simp [memberFaults, @Member.not_clashes _ (.enumeration e) rfl rfl rfl]
  | upcopy u =>
    simp [memberFaults, @Member.not_clashes _ (.upcopy u) rfl rfl rfl]

theorem severity_of_mem_memberFaults {s : Structure} {before : List Member} {m : Member}
    {fault : Message} (h : fault ∈ memberFaults d s before m) : fault.severity = .error := by
  cases m with
  | field f =>
    simp only [memberFaults] at h
    split at h
    · rw [List.mem_singleton.1 h]; rfl
    · split at h
      · rw [List.mem_singleton.1 h]; rfl
      · cases h
  | override _ _ | identification _ | operator _ =>
    simp only [memberFaults] at h
    split at h
    · rw [List.mem_singleton.1 h]; rfl
    · cases h
  | alter _ | enumeration _ | upcopy _ => cases h

theorem length_le_one_iff {α : Type} {l : List α} :
    l.length ≤ 1 ↔ l.Pairwise fun _ _ => False := by
  match l with
  | [] | [a] => simp
  | a :: b :: rest =>
    refine ⟨fun h => ?_, fun h => ((List.pairwise_cons.1 h).1 b List.mem_cons_self).elim⟩
    simp only [List.length_cons] at h
    omega

/-- No member is a fault behind the others if the members are distinct. -/
theorem distinct_iff {s : Structure} :
    s.Distinct d ↔ ∀ (position : Nat) m, s.members[position]? = some m →
      memberFaults d s (s.members.take position) m = [] := by
  have hclashes : (s.members.Pairwise fun a b => ¬ a.Clashes b) ↔ s.fieldNames.Nodup ∧
      (s.members.filterMap Member.identification?).length ≤ 1 ∧
      ((s.members.filterMap Member.operator?).map (·.action)).Nodup := by
    simp only [Structure.fieldNames, List.Nodup, List.pairwise_map, List.pairwise_filterMap,
      length_le_one_iff, ← List.pairwise_and_iff]
    refine List.Pairwise.iff fun {a b} => ?_
    simp only [Member.Clashes, Option.isSome_iff_exists]
    grind
  have hplain : (∀ name ∈ s.plainNames, ∀ base, s.base = some base →
      d.findField? base name = none) ↔ ∀ (position : Nat) m, s.members[position]? = some m →
        ∀ f, m = .field f → s.base.bind (d.findField? · f.name.value) = none := by
    constructor
    · rintro h position _ hm f rfl
      rw [Option.bind_eq_none_iff]
      exact h _ (Structure.mem_plainNames_iff.2 ⟨f, List.mem_of_getElem? hm, rfl⟩)
    · intro h name hname base hbase
      obtain ⟨f, hf, rfl⟩ := Structure.mem_plainNames_iff.1 hname
      obtain ⟨position, hp⟩ := List.getElem?_of_mem hf
      exact Option.bind_eq_none_iff.1 (h position _ hp f rfl) base hbase
  have hfaults : (∀ (position : Nat) m, s.members[position]? = some m →
      memberFaults d s (s.members.take position) m = []) ↔
        (s.members.Pairwise fun a b => ¬ a.Clashes b) ∧
        ∀ (position : Nat) m, s.members[position]? = some m →
          ∀ f, m = .field f → s.base.bind (d.findField? · f.name.value) = none := by
    simp only [memberFaults_eq_nil_iff, forall_and, pairwise_iff_take]
  rw [hfaults, hclashes, ← hplain]
  exact ⟨fun h => ⟨⟨h.fields, h.identifications, h.operators⟩, h.plain⟩,
    fun h => ⟨h.1.1, h.2, h.1.2.1, h.1.2.2⟩⟩

theorem passed_structureFields_iff {id : StructureId} :
    (structureFields.run d (.declaration (.struct id))).passed = true ↔
      ∀ s, d.structures.get? id = some s → s.Distinct d := by
  simp only [structureFields, structure?]
  cases d.structures.get? id with
  | none => simp
  | some s =>
    simp only [Option.some.injEq, forall_eq', distinct_iff]
    rw [Verdict.passed_ofMessages_iff, List.flatMap_eq_nil_iff]
    · constructor
      · exact fun h position m hm => h (m, position) (List.mem_zipIdx_iff_getElem?.2 hm)
      · exact fun h x hx => h x.2 x.1 (List.mem_zipIdx_iff_getElem?.1 hx)
    · intro fault hfault
      obtain ⟨x, _, hx⟩ := List.mem_flatMap.1 hfault
      exact severity_of_mem_memberFaults hx

theorem isSharable_iff {t : DataType} :
    isSharable d t = true ↔ ∀ id, d.core? t = some (.struct id) →
      ∃ x, d.structures.get? id = some x ∧ x.has .sharable = true := by
  unfold isSharable
  split
  · rename_i id hcore
    simp [Document.core?, hcore, Option.any_eq_true]
  · rename_i hcore
    simp only [true_iff]
    exact fun id hid => absurd hid (hcore id)

theorem severity_of_mem_sharableFaults {s : Structure} {fault : Message}
    (h : fault ∈ sharableFaults d s) : fault.severity = .error := by
  unfold sharableFaults at h
  split at h
  · obtain ⟨⟨position, f⟩, _, hx⟩ := List.mem_filterMap.1 h
    simp only at hx
    split at hx
    · split at hx
      · cases hx
      · cases hx; rfl
    · cases hx
  · split at h
    · split at h
      · rw [List.mem_singleton.1 h]; rfl
      · cases h
    · cases h

theorem shares_iff {s : Structure} : s.Shares d ↔ sharableFaults d s = [] := by
  unfold sharableFaults
  by_cases hs : s.has .sharable = true
  · rw [if_pos hs, List.filterMap_eq_nil_iff]
    constructor
    · rintro h ⟨position, f⟩ hf
      have hfield := Structure.mem_fields_iff.1 hf
      cases ht : f.type with
      | none => simp only [ht]
      | some t =>
        have ht' := isSharable_iff.2 (h.fields hs position f t hfield ht)
        simp only [ht, ht', if_true]
    · refine fun h => ⟨fun _ position f t hf ht => isSharable_iff.1 ?_, fun _ _ _ _ _ => hs⟩
      have hx := h (position, f) (Structure.mem_fields_iff.2 hf)
      simp only [ht] at hx
      split at hx
      · assumption
      · cases hx
  · rw [if_neg hs]
    constructor
    · intro h
      split
      · rename_i x hx
        obtain ⟨base, hb, hx⟩ := Option.bind_eq_some_iff.1 hx
        rw [if_neg fun hsharable => hs (h.derived base x hb hx hsharable)]
      · rfl
    · refine fun h => ⟨fun h' => absurd h' hs, fun base x hb hx hsharable => ?_⟩
      simp [hb, hx, hsharable] at h

theorem passed_structureSharable_iff {id : StructureId} :
    (structureSharable.run d (.declaration (.struct id))).passed = true ↔
      ∀ s, d.structures.get? id = some s → s.Shares d := by
  simp only [structureSharable, structure?]
  cases d.structures.get? id with
  | none => simp
  | some s =>
    simp only [Option.some.injEq, forall_eq', shares_iff]
    exact Verdict.passed_ofMessages_iff fun _ => severity_of_mem_sharableFaults

theorem passed_parameterType_iff {target : Target} {allowed : List Builtin} {x : Declaration} :
    ((parameterType target allowed).run d (.declaration x)).passed = true ↔
      ∀ location t, target.parameter? d (.declaration x) = some (location, some t) →
        ∃ b ∈ allowed, t = .builtin b := by
  simp only [parameterType]
  cases hp : target.parameter? d (.declaration x) with
  | none => simp
  | some p =>
    obtain ⟨location, t?⟩ := p
    cases t? with
    | none => simp
    | some t =>
      have hallowed : t.asBuiltin?.any allowed.contains = true ↔ ∃ b ∈ allowed, t = .builtin b := by
        cases t <;> simp [DataType.asBuiltin?]
      by_cases h : t.asBuiltin?.any allowed.contains = true
      · simp [h, ← hallowed]
      · have herror : Message.Kind.invalidParameterType.severity = .error := rfl
        simp [h, ← hallowed, Verdict.ofMessages, Message.hasError, Message.of, herror]

theorem hasError_valueFaults {e : Enumeration} {before : List EnumerationValue}
    {v : EnumerationValue} : Message.hasError (valueFaults e before v) = false ↔
      ∀ b ∈ before, b.name.value ≠ v.name.value := by
  have happend (l l' : List Message) :
      Message.hasError (l ++ l') = (Message.hasError l || Message.hasError l') :=
    List.any_append
  -- a composed value is a warning only
  have hcomposed : Message.hasError (if !e.flags && !v.isAbsolute then
      [.of .composedValueInNonFlags v.location [(.name, v.name.value)]] else []) = false := by
    split <;> rfl
  rw [valueFaults, happend, hcomposed, Bool.or_false]
  cases hany : before.any (·.name.value == v.name.value) with
  | true =>
    obtain ⟨b, hb, hname⟩ := List.any_eq_true.1 hany
    exact ⟨fun h => (by cases h), fun h => absurd (beq_iff_eq.1 hname) (h b hb)⟩
  | false =>
    refine ⟨fun _ b hb hname => ?_, fun _ => rfl⟩
    exact absurd (beq_iff_eq.2 hname) (List.any_eq_false.1 hany b hb)

theorem passed_enumerationValues_iff {id : EnumerationId} :
    (enumerationValues.run d (.declaration (.enum id))).passed = true ↔
      ∀ e, d.enumerations.get? id = some e → (e.values.map (·.name.value)).Nodup := by
  simp only [enumerationValues]
  cases d.enumerations.get? id with
  | none => simp
  | some e =>
    have hall : (Verdict.ofMessages (e.values.zipIdx.flatMap fun x =>
        valueFaults e (e.values.take x.2) x.1)).passed = true ↔
          ∀ x ∈ e.values.zipIdx,
            Message.hasError (valueFaults e (e.values.take x.2) x.1) = false := by
      simp [Verdict.ofMessages, Message.hasError]
    simp only [Option.some.injEq, forall_eq']
    rw [List.Nodup, List.pairwise_map, pairwise_iff_take]
    refine hall.trans ⟨fun h position v hv => ?_, fun h x hx => ?_⟩
    · exact hasError_valueFaults.1 (h (v, position) (List.mem_zipIdx_iff_getElem?.2 hv))
    · exact hasError_valueFaults.2 (h x.2 x.1 (List.mem_zipIdx_iff_getElem?.1 hx))

end Check

namespace Document

/-- What is asked of the names in a declaration. -/
def NamesDistinct (d : Document) : Declaration → Prop
  | .struct id => ∀ s, d.structures.get? id = some s → s.Distinct d
  | .enum id => ∀ e, d.enumerations.get? id = some e → (e.values.map (·.name.value)).Nodup
  | .identifier _ | .specimen _ | .interface _ | .factory _ => True

/-- What is asked of the types in a declaration, as far as they are known. -/
def TypesAllowed (d : Document) : Declaration → Prop
  | .struct id => ∀ s, d.structures.get? id = some s → s.Shares d
  | .enum id => ∀ e t, d.enumerations.get? id = some e → e.parameter = some t →
    ∃ b ∈ [Builtin.small, .short, .integer], t = .builtin b
  | .identifier id => ∀ i t, d.identifiers.get? id = some i → i.parameter = some t →
    ∃ b ∈ [Builtin.small, .short, .integer, .long, .byte, .word, .dword, .qword], t = .builtin b
  | .specimen _ | .interface _ | .factory _ => True

/-- All that is asked of a declaration. -/
structure IsValid (d : Document) (x : Declaration) : Prop where
  names : d.NamesDistinct x
  types : d.TypesAllowed x

end Document

namespace Check

variable {d : Document} {x : Declaration}

theorem passed_enumerationParameter_iff :
    (enumerationParameter.run d (.declaration x)).passed = true ↔
      ∀ id, x = .enum id → ∀ e t, d.enumerations.get? id = some e → e.parameter = some t →
        ∃ b ∈ [Builtin.small, .short, .integer], t = .builtin b := by
  rw [enumerationParameter, passed_parameterType_iff]
  cases x with
  | enum id =>
    simp only [Target.parameter?, Option.map_eq_some_iff, Prod.mk.injEq, Declaration.enum.injEq]
    constructor
    · rintro h _ rfl e t he ht
      exact h e.location t ⟨e, he, rfl, ht⟩
    · rintro h _ t ⟨e, he, rfl, ht⟩
      exact h id rfl e t he ht
  | _ => simp [Target.parameter?]

theorem passed_identifierParameter_iff :
    (identifierParameter.run d (.declaration x)).passed = true ↔
      ∀ id, x = .identifier id → ∀ i t, d.identifiers.get? id = some i → i.parameter = some t →
        ∃ b ∈ [Builtin.small, .short, .integer, .long, .byte, .word, .dword, .qword],
          t = .builtin b := by
  rw [identifierParameter, passed_parameterType_iff]
  cases x with
  | identifier id =>
    simp only [Target.parameter?, Option.map_eq_some_iff, Prod.mk.injEq,
      Declaration.identifier.injEq]
    constructor
    · rintro h _ rfl i t hi ht
      exact h i.location t ⟨i, hi, rfl, ht⟩
    · rintro h _ t ⟨i, hi, rfl, ht⟩
      exact h id rfl i t hi ht
  | _ => simp [Target.parameter?]

theorem passed_late_iff :
    (runAll (standard.filter (·.late)) d (.declaration x)).passed = true ↔ d.TypesAllowed x := by
  have hlate : standard.filter (·.late) =
      [enumerationParameter, identifierParameter, structureSharable] := rfl
  rw [runAll_passed_iff, hlate]
  simp only [List.mem_cons, List.not_mem_nil, or_false, forall_eq_or_imp, forall_eq,
    passed_enumerationParameter_iff, passed_identifierParameter_iff]
  cases x with
  | struct id => simp [passed_structureSharable_iff, Document.TypesAllowed]
  | enum id => simp [Document.TypesAllowed, structureSharable, structure?]
  | identifier id => simp [Document.TypesAllowed, structureSharable, structure?]
  | specimen _ | interface _ | factory _ =>
    simp [Document.TypesAllowed, structureSharable, structure?]

/-- The standard checks pass a declaration if the names in it are distinct and its types are
allowed. -/
theorem passed_standard_iff :
    (runAll standard d (.declaration x)).passed = true ↔ d.IsValid x := by
  have hnames : ((structureFields.run d (.declaration x)).passed = true ∧
      (enumerationValues.run d (.declaration x)).passed = true) ↔ d.NamesDistinct x := by
    cases x with
    | struct id => simp [passed_structureFields_iff, Document.NamesDistinct, enumerationValues]
    | enum id =>
      simp [passed_enumerationValues_iff, Document.NamesDistinct, structureFields, structure?]
    | _ => simp [Document.NamesDistinct, structureFields, structure?, enumerationValues]
  have hduplicate : (duplicateDeclaration.run d (.declaration x)).passed = true := rfl
  have hlate : standard.filter (·.late) =
      [enumerationParameter, identifierParameter, structureSharable] := rfl
  have hvalid : d.IsValid x ↔ d.NamesDistinct x ∧ d.TypesAllowed x :=
    ⟨fun h => ⟨h.names, h.types⟩, fun h => ⟨h.1, h.2⟩⟩
  rw [hvalid, ← passed_late_iff, ← hnames, runAll_passed_iff, runAll_passed_iff, hlate]
  simp only [standard, List.mem_cons, List.not_mem_nil, or_false, forall_eq_or_imp, forall_eq,
    hduplicate, and_true]
  exact ⟨fun ⟨h₁, h₂, h₃, h₄, h₅⟩ => ⟨⟨h₃, h₅⟩, h₁, h₂, h₄⟩,
    fun ⟨⟨h₃, h₅⟩, h₁, h₂, h₄⟩ => ⟨h₁, h₂, h₃, h₄, h₅⟩⟩

end Check

end Idl
