import Idl.Proofs.Course.Lineage

/-!
What sharable structures hold over a whole session. A registered structure has passed its
checks, and the check of a sharable structure speaks of its own fields. So each field it shows
is as it should be if the structure that declares the field is sharable and registered; a base
need not be sharable, and it can be withdrawn behind the back of what derives from it.
-/

namespace Idl

namespace Document

variable {d : Document}

def IsSharable (d : Document) (id : StructureId) : Prop :=
  ∃ x, d.structures.get? id = some x ∧ x.has .sharable = true

instance (d : Document) (id : StructureId) : Decidable (d.IsSharable id) :=
  decidable_of_iff ((d.structures.get? id).any (·.has .sharable) = true) (Option.any_eq_true _ _)

/-- If the type is known, no structure that is not sharable is held through it, be it inside of
templates. -/
def HoldsSharable (d : Document) (t? : Option DataType) : Prop :=
  ∀ t held, t? = some t → d.core? t = some (.struct held) → d.IsSharable held

/-- A field is found in a structure or in one of its bases. -/
theorem owner_mem_lineage {id : StructureId} {name : String} {f : FieldRef}
    (h : d.findField? id name = some f) : f.owner ∈ d.lineage id := by
  obtain ⟨owner, howner, hf⟩ := List.exists_of_findSome?_eq_some h
  obtain ⟨position, _, rfl⟩ := Option.map_eq_some_iff.1 hf
  exact howner

/-- A valid sharable structure declares no field that is not sharable. -/
theorem IsValid.holdsSharable {f : FieldRef} {field : Field} (h : d.IsValid (.struct f.owner))
    (hs : d.IsSharable f.owner) (hf : d.field? f = some field) : d.HoldsSharable field.type := by
  obtain ⟨x, hx, hshared⟩ := hs
  obtain ⟨y, hy, hfield⟩ := Option.bind_eq_some_iff.1 hf
  cases hx.symm.trans hy
  intro t held ht hheld
  exact (h.types x hx).fields hshared f.member field t hfield ht held hheld

/-- What a registered structure shows of itself or of its bases, and holds although it is not
sharable, is declared where nothing is asked of it: in a structure that is not sharable, or that
is not registered any more. -/
theorem Chained.holdsSharable {id : StructureId} (h : d.Chained) (hd : d.Linked) (hv : d.Valid)
    (hid : .struct id ∈ d.declarations) {c : CombinedField} (hc : c ∈ d.combinedFields id) :
    c.owner.owner ∈ d.lineage id ∧
      (.struct c.owner.owner ∈ d.declarations → d.IsSharable c.owner.owner →
        d.HoldsSharable c.field.type) := by
  have hagrees := h.agrees hd hid
  exact ⟨owner_mem_lineage (hagrees.owner c hc), fun howner hs =>
    (hv _ howner).holdsSharable hs (hagrees.field c hc)⟩

end Document

namespace Grammar.Moment

variable {settings : Settings} {root : Option SourceId} {tokens : List Token}

/-- What every document of a session with the standard checks is like. -/
theorem sound_chained_valid (h : settings.checks = Check.standard) {d : Document}
    (hd : (∃ m, Reached settings root tokens m ∧ d = m.document) ∨
      d = (settings.readTokens root tokens).document) : d.Linked ∧ d.Chained ∧ d.Valid := by
  have hstart := sound_start settings root tokens
  have hall {a : Situation}
      (ha : Turns settings.checks (start settings root tokens).situation a) :
      a.session.document.Linked ∧ a.session.document.Chained ∧ a.session.document.Valid := by
    have hlinked := (ha.sound hstart).linked
    rw [h] at ha
    exact ⟨hlinked, ha.chained hstart (chained_start settings root tokens),
      ha.valid hstart (valid_start settings root tokens)⟩
  rcases hd with ⟨m, hm, rfl⟩ | rfl
  · exact hall (Steps.turns hm hstart)
  · obtain ⟨a, ha, hd, _⟩ :=
      Reached.turns_outcome (.refl : Reached settings root tokens (start settings root tokens))
    rw [hd]
    exact hall ha

/-- In a session with the standard checks, at every moment and at the end, what a registered
sharable structure holds although it is not sharable it has inherited, from a base that is not
sharable or not registered any more. Where the session succeeds all bases are registered, so
that base is not sharable. -/
theorem sharable_structures_hold_sharable_data (h : settings.checks = Check.standard) :
    (∀ d, ((∃ m, Reached settings root tokens m ∧ d = m.document) ∨
        d = (settings.readTokens root tokens).document) →
      ∀ id, .struct id ∈ d.declarations → d.IsSharable id → ∀ c ∈ d.combinedFields id,
        d.HoldsSharable c.field.type ∨ c.owner.owner ∈ d.ancestors id ∧
          ¬ (.struct c.owner.owner ∈ d.declarations ∧ d.IsSharable c.owner.owner)) ∧
    ((settings.readTokens root tokens).ok = true →
      let d := (settings.readTokens root tokens).document
      ∀ id, .struct id ∈ d.declarations → d.IsSharable id → ∀ c ∈ d.combinedFields id,
        d.HoldsSharable c.field.type ∨ c.owner.owner ∈ d.ancestors id ∧
          .struct c.owner.owner ∈ d.declarations ∧ ¬ d.IsSharable c.owner.owner) := by
  have hgeneral (d : Document) (hd : (∃ m, Reached settings root tokens m ∧ d = m.document) ∨
      d = (settings.readTokens root tokens).document) :
      ∀ id, .struct id ∈ d.declarations → d.IsSharable id → ∀ c ∈ d.combinedFields id,
        d.HoldsSharable c.field.type ∨ c.owner.owner ∈ d.ancestors id ∧
          ¬ (.struct c.owner.owner ∈ d.declarations ∧ d.IsSharable c.owner.owner) := by
    intro id hid hs c hc
    obtain ⟨hlinked, hchained, hvalid⟩ := sound_chained_valid h hd
    obtain ⟨hlineage, hholds⟩ := hchained.holdsSharable hlinked hvalid hid hc
    by_cases howner : .struct c.owner.owner ∈ d.declarations ∧ d.IsSharable c.owner.owner
    · exact .inl (hholds howner.1 howner.2)
    · refine .inr ⟨?_, howner⟩
      rcases List.mem_cons.1 hlineage with heq | habove
      · rw [heq] at howner
        exact absurd ⟨hid, hs⟩ howner
      · exact habove
  refine ⟨hgeneral, fun hok => ?_⟩
  intro d id hid hs c hc
  obtain ⟨hlinked, hchained, _⟩ := sound_chained_valid h (d := d) (.inr rfl)
  refine (hgeneral d (.inr rfl) id hid hs c hc).imp_right fun ⟨habove, howner⟩ => ?_
  have hregistered := (basesListed_readTokens h hok).mem_declarations hlinked hchained hid
    (List.mem_cons_of_mem id habove)
  exact ⟨habove, hregistered, fun hs => howner ⟨hregistered, hs⟩⟩

/-- Through a base that is sharable only sharable data is held, also where its name was bound
late and inside of a template. -/
theorem sharable_structures_hold_sharable_data_of_base :
    let settings : Settings := {}
    let tokens := Token.tokenize
      "sharable structure B \x7b vector<T> t; \x7d sharable structure S inherit B \x7b B b; \x7d
      sharable structure T \x7b \x7d"
    let d := (settings.readTokens none tokens).document
    (.struct ⟨1⟩ ∈ d.declarations ∧ d.IsSharable ⟨1⟩ ∧ d.IsSharable ⟨0⟩ ∧
      (d.combinedFields ⟨1⟩).map (·.owner.owner) = [⟨0⟩, ⟨1⟩]) ∧
    ∀ c ∈ d.combinedFields ⟨1⟩, d.HoldsSharable c.field.type := by
  intro settings tokens d
  have hinput : .struct ⟨1⟩ ∈ d.declarations ∧ d.IsSharable ⟨1⟩ ∧ d.IsSharable ⟨0⟩ ∧
      (d.combinedFields ⟨1⟩).map (·.owner.owner) = [⟨0⟩, ⟨1⟩] := by decide +kernel
  refine ⟨hinput, fun c hc => ?_⟩
  obtain ⟨hid, hs, hbase, howners⟩ := hinput
  have hok : (settings.readTokens none tokens).ok = true := by decide +kernel
  have howner : c.owner.owner ∈ [(⟨0⟩ : StructureId), ⟨1⟩] :=
    howners ▸ List.mem_map_of_mem hc
  have hall := (sharable_structures_hold_sharable_data rfl).2 hok ⟨1⟩ hid hs c hc
  refine hall.elim (fun h => h) fun ⟨_, _, hnot⟩ => ?_
  simp only [List.mem_cons, List.not_mem_nil, or_false] at howner
  rcases howner with heq | heq
  · exact absurd (heq ▸ hbase) hnot
  · exact absurd (heq ▸ hs) hnot

/-- A sharable structure holds what is not sharable through a base that is not sharable, in a
session that succeeds; and through a sharable base that was withdrawn for it. -/
theorem sharable_structure_inherits_what_is_not :
    let read (text : String) := ({} : Settings).readTokens none (Token.tokenize text)
    let plain := read "structure N \x7b \x7d structure B \x7b N n; \x7d
      sharable structure S inherit B \x7b \x7d"
    let late := read "sharable structure B \x7b N n; \x7d
      sharable structure S inherit B \x7b \x7d structure N \x7b \x7d"
    (plain.ok = true ∧ .struct ⟨2⟩ ∈ plain.document.declarations ∧
      plain.document.IsSharable ⟨2⟩ ∧
      (plain.document.combinedFields ⟨2⟩).map (·.field.type) = [some (.struct ⟨0⟩)] ∧
      ¬ plain.document.IsSharable ⟨0⟩) ∧
    (late.document.declarations = [.struct ⟨1⟩, .struct ⟨2⟩] ∧
      late.document.IsSharable ⟨1⟩ ∧
      (late.document.combinedFields ⟨1⟩).map (·.field.type) = [some (.struct ⟨2⟩)] ∧
      ¬ late.document.IsSharable ⟨2⟩) := by
  decide +kernel

end Grammar.Moment

end Idl
