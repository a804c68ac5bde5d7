import Idl.Proofs.Course.Validity
import Idl.Proofs.Document.Combined

/-!
Inherited fields over a whole session. A base is registered when a structure is given it, so it
has passed its checks, and so have its own bases; and what a member says of a field of the base
was looked up there. Neither hangs on types, and neither is lost when a structure is withdrawn
from which others derive. So the combined fields of a structure always agree with the search
for a field by its name.
-/

namespace Idl

namespace Member

variable {d d' : Document} {base : Option StructureId} {m : Member}

theorem rooted_untyped : (m.modifyField Field.untyped).Rooted d base ↔ m.Rooted d base := by
  cases m <;> rfl

/-- What a member says of a field of the base stays right while the names in the base stay. -/
theorem Rooted.congr (h : m.Rooted d base)
    (hb : ∀ b name, base = some b → d'.findField? b name = d.findField? b name) :
    m.Rooted d' base := by
  cases m with
  | override f overridden =>
    obtain ⟨b, hbase, hf⟩ := h
    exact ⟨b, hbase, (hb b _ hbase).trans hf⟩
  | alter a =>
    obtain ⟨b, hbase, hf⟩ := h
    exact ⟨b, hbase, (hb b _ hbase).trans hf⟩
  | _ => trivial

end Member

namespace Document

variable {d d' : Document}

theorem Rooted.congr (h : d.Rooted) (hr : ∀ id, Resembles d d' id) : d'.Rooted := by
  intro id x' hx' m' hm'
  obtain ⟨x, hx, hu⟩ := (hr id).exists_eq hx'
  have hmembers : x'.members.map (Member.modifyField Field.untyped) =
      x.members.map (Member.modifyField Field.untyped) := congrArg Structure.members hu
  have huntyped := List.mem_map_of_mem (f := Member.modifyField Field.untyped) hm'
  rw [hmembers] at huntyped
  obtain ⟨m, hm, heq⟩ := List.mem_map.1 huntyped
  have hrooted : m'.Rooted d x.base :=
    Member.rooted_untyped.1 (heq ▸ Member.rooted_untyped.2 (h id x hx m hm))
  rw [Structure.base_eq hu]
  exact hrooted.congr fun b name _ =>
    findField?_of_resembles (fun o _ => hr o) (Nat.lt_succ_self b.index) name

/-- The names in a structure are distinct, and so are those in each of its bases. -/
def ChainDistinct (d : Document) (id : StructureId) : Prop :=
  ∀ owner ∈ d.lineage id, d.NamesDistinct (.struct owner)

theorem ChainDistinct.congr {id : StructureId} (h : d.ChainDistinct id) (hd : d.Linked)
    (hr : ∀ o : StructureId, o.index < d.structures.size → Resembles d d' o)
    (hid : id.index < d.structures.size) : d'.ChainDistinct id := by
  intro owner ho
  rw [lineage, ancestors_of_resembles hr hid] at ho
  have hbelow : owner.index < d.structures.size :=
    Nat.lt_of_le_of_lt (index_le_of_inherits (List.contains_iff_mem.2 ho)) hid
  exact (h owner ho).congr hr hd hbelow fun _ heq => by cases heq

/-- What makes the fields of all registered structures agree. -/
structure Chained (d : Document) : Prop where
  rooted : d.Rooted
  declared : ∀ t, d.IsListed t → ∃ x ∈ d.declarations, x.type? = some t
  distinct : ∀ id, .struct id ∈ d.declarations → d.ChainDistinct id

namespace Chained

theorem agrees {id : StructureId} (h : d.Chained) (hd : d.Linked)
    (hid : .struct id ∈ d.declarations) :
    d.Agrees (d.plainNames id) (d.findField? id) (d.alters id) (d.combinedFields id) :=
  agrees_combinedFields hd h.rooted (hd.declarations _ hid) (h.distinct id hid)

theorem of_listed {id : StructureId} (h : d.Chained) (hl : d.IsListed (.struct id)) :
    .struct id ∈ d.declarations := by
  obtain ⟨x, hx, ht⟩ := h.declared _ hl
  cases x <;> cases ht
  exact hx

/-- Types, defaults and registrations are not needed. -/
theorem congr (h : d.Chained) (hd : d.Linked) (hr : ∀ id, Resembles d d' id)
    (hx : ∀ x ∈ d'.declarations, x ∈ d.declarations)
    (ht : ∀ t, d'.IsListed t → ∃ x ∈ d'.declarations, x.type? = some t) : d'.Chained where
  rooted := h.rooted.congr hr
  declared := ht
  distinct id hid :=
    (h.distinct id (hx _ hid)).congr hd (fun o _ => hr o) (hd.declarations _ (hx _ hid))

end Chained

/-- A type is withdrawn together with its declaration. -/
theorem Sheds.declared (h : d.Sheds d')
    (hd : ∀ t, d.IsListed t → ∃ x ∈ d.declarations, x.type? = some t) :
    ∀ t, d'.IsListed t → ∃ x ∈ d'.declarations, x.type? = some t := by
  induction h with
  | refl => exact hd
  | dropDefault f _ ih => exact ih
  | withdraw x _ ih =>
    rintro t ⟨entry, he, rfl⟩
    obtain ⟨hmem, hne⟩ := List.mem_filter.1 he
    obtain ⟨y, hy, hty⟩ := ih entry.2 ⟨entry, hmem, rfl⟩
    refine ⟨y, List.mem_filter.2 ⟨hy, ?_⟩, hty⟩
    have hyx : y ≠ x := by
      rintro rfl
      simp [hty] at hne
    simpa using hyx

/-- The members of all structures speak of fields that are there, and the structures above an
extent derive from registered ones. -/
structure ChainedAbove (d : Document) (e : Extent) : Prop where
  rooted : d.Rooted
  bases : d.structures.All fun id x => e.structures ≤ id.index →
    ∀ b, x.base = some b → d.IsListed (.struct b)

/-- Nothing lies above a document's own extent. -/
theorem Rooted.above (h : d.Rooted) : d.ChainedAbove d.extent where
  rooted := h
  bases id _ hx hid :=
    absurd ((d.structures.get?_isSome_iff id).1 (hx ▸ rfl)) (Nat.not_lt_of_le hid)

theorem AgreeBelow.isListed_iff {e : Extent} (h : AgreeBelow e d d') {t : DataType} :
    d'.IsListed t ↔ d.IsListed t := by
  rw [IsListed, h.typeNames_eq, IsListed]

theorem typeNames_fill (d : Document) (slot : Slot) (t : DataType) :
    (d.fill slot t).typeNames = d.typeNames := by
  cases slot <;> rfl

end Document

namespace Session

theorem resembles_bind (s : Session) (checks : List Check) (b : Binding) (t : DataType)
    (id : StructureId) : s.document.Resembles (s.bind checks b t).document id :=
  (s.document.resembles_fill b.slot t id).trans ((s.sheds_bind checks b t).resembles id)

theorem chained_bind {s : Session} (hd : s.document.Linked) (hc : s.document.Chained)
    (checks : List Check) (b : Binding) (t : DataType) :
    (s.bind checks b t).document.Chained := by
  have hsheds := s.sheds_bind checks b t
  refine hc.congr hd (s.resembles_bind checks b t) (fun _ => Document.mem_declarations_of_bind)
    (hsheds.declared fun u hu => ?_)
  rw [Document.declarations_fill]
  refine hc.declared u ?_
  unfold Document.IsListed at *
  rwa [← s.document.typeNames_fill b.slot t]

end Session

namespace Grammar

open Document

variable {checks : List Check}

section Edits

variable {others : List Binding} {m : Mark} {s s' : State}

/-- No base lies above the mark. -/
theorem State.Ready.index_base_lt (hs : s.Ready others m)
    (hb : s.document.structures.All fun id x => m.extent.structures ≤ id.index →
      ∀ b, x.base = some b → s.document.IsListed (.struct b))
    {id b : StructureId} {x : Structure} (hx : s.document.structures.get? id = some x)
    (hbase : x.base = some b) : b.index < m.extent.structures := by
  by_cases hid : m.extent.structures ≤ id.index
  · exact hs.settled.covered.listed _ (hb id x hx hid b hbase)
  · exact Nat.lt_trans ((hs.sound.linked.structures id x hx).base b hbase) (Nat.lt_of_not_le hid)

theorem Edit.chained (h : Edit checks m s s') (hs : s.Ready others m)
    (hc : s.document.ChainedAbove m.extent) : s'.document.ChainedAbove m.extent := by
  have hagree := (h.keeps hs).agree
  have hs' := h.ready hs
  cases h with
  | read h => exact h.document ▸ hc
  | reorder h ht => exact hc
  | @change d' opened new h hn hscope =>
    have hbases : d'.structures.All fun id x => m.extent.structures ≤ id.index →
        ∀ b, x.base = some b → d'.IsListed (.struct b) := by
      intro id x' hx' hid b hb
      rcases (h.stems id x' hx').base b hb with hl | hbase
      · exact hagree.isListed_iff.2 hl
      · obtain ⟨x, hx, hb⟩ := Option.bind_eq_some_iff.1 hbase
        exact hagree.isListed_iff.2 (hc.bases id x hx hid b hb)
    have hkept (id : StructureId) (x' : Structure) (hx' : d'.structures.get? id = some x')
        (b : StructureId) (name : String) (hb : x'.base = some b) :
        d'.findField? b name = s.document.findField? b name :=
      findField?_of_resembles (fun o ho => .of_eq (hagree.structure_eq ho))
        (hs'.index_base_lt hbases hx' hb) name
    refine ⟨fun id x' hx' member hmember => ?_, hbases⟩
    have hold : member.Rooted s.document x'.base := by
      rcases (h.stems id x' hx').member hmember with hsuits | ⟨x, hx, hbase, hmember⟩
      · exact hsuits.rooted
      · exact hbase ▸ hc.rooted id x hx member hmember
    exact hold.congr (hkept id x' hx')
  | @bind front back b t o hp hm ht hb hid =>
    have hr := s.toSession.resembles_bind checks b t
    refine ⟨hc.rooted.congr hr, fun id x' hx' hid base hbase => ?_⟩
    obtain ⟨x, hx, hu⟩ := (hr id).exists_eq hx'
    rw [Structure.base_eq hu] at hbase
    exact hagree.isListed_iff.2 (hc.bases id x hx hid base hbase)

theorem Edits.chained (h : Edits checks m s s') (hs : s.Ready others m)
    (hc : s.document.ChainedAbove m.extent) : s'.document.ChainedAbove m.extent := by
  induction h with
  | refl => exact hc
  | tail h e ih => exact e.chained (h.ready hs) ih

end Edits

/-- A structure that is taken in derives from one that was registered before. -/
theorem chained_register {others : List Binding} {s s' : State} {x : Declaration}
    (hs : s.Sound others) (hc : s.document.Chained) (he : Edits checks s.mark s s')
    (ha : x.Above s.mark.extent) (hb : x.Below s'.document.extent)
    (hn : s'.document.NamesDistinct x) : (s'.document.register x).Chained := by
  have hagree := (he.keeps hs.ready).agree
  have hlinked := (he.ready hs.ready).sound.linked
  have hsame (o : StructureId) : Resembles s'.document (s'.document.register x) o := .of_eq rfl
  have hr (o : StructureId) (ho : o.index < s.document.structures.size) :
      Resembles s.document s'.document o := .of_eq (hagree.structure_eq ho)
  have hold (id : StructureId) (hid : .struct id ∈ s.document.declarations) :
      s'.document.ChainDistinct id :=
    (hc.distinct id hid).congr hs.linked hr (hs.linked.declarations (.struct id) hid)
  obtain ⟨hrooted, hbases⟩ := he.chained hs.ready hc.rooted.above
  have hnew (id : StructureId) (hx : x = .struct id) : s'.document.ChainDistinct id := by
    subst hx
    intro owner ho
    rcases List.mem_cons.1 ho with rfl | ho
    · exact hn
    · cases hbase : (s'.document.structures.get? id).bind (·.base) with
      | none =>
        rw [ancestors, hbase] at ho
        cases ho
      | some base =>
        rw [hlinked.ancestors_of_hasBase hbase] at ho
        obtain ⟨y, hy, hyb⟩ := Option.bind_eq_some_iff.1 hbase
        have hl := hagree.isListed_iff.1 (hbases id y hy ha base hyb)
        exact hold base (hc.of_listed hl) owner ho
  refine ⟨hrooted.congr hsame, ?_, fun id hid => ?_⟩
  · rintro t ⟨entry, hentry, rfl⟩
    have hcases : entry ∈ s'.document.typeNames ∨ x.type? = some entry.2 := by
      unfold register at hentry
      cases ht : x.type? with
      | none => exact .inl (by simpa [ht] using hentry)
      | some t =>
        rw [ht] at hentry
        rcases List.mem_append.1 hentry with h | h
        · exact .inl h
        · exact .inr (by rw [List.mem_singleton.1 h])
    rcases hcases with h | h
    · obtain ⟨y, hy, ht⟩ := hc.declared entry.2 (hagree.isListed_iff.1 ⟨entry, h, rfl⟩)
      exact ⟨y, List.mem_append_left _ (hagree.declarations_eq ▸ hy), ht⟩
    · exact ⟨x, List.mem_append_right _ List.mem_cons_self, h⟩
  · have hmem : .struct id ∈ s'.document.declarations ++ [x] := hid
    rcases List.mem_append.1 hmem with h | h
    · refine (hold id (hagree.declarations_eq ▸ h)).congr hlinked (fun o _ => hsame o) ?_
      exact hlinked.declarations (.struct id) h
    · have hx := (List.mem_singleton.1 h).symm
      subst hx
      exact (hnew id rfl).congr hlinked (fun o _ => hsame o) hb

variable {a b : Situation}

theorem Turn.chained (h : Turn Check.standard a b) (ha : a.Sound)
    (hc : a.session.document.Chained) : b.session.document.Chained := by
  cases h with
  | @note s s' ws h _ =>
    have hs : s.document.Linked := ha.linked
    change s'.document.Chained
    rw [h]
    exact hc.congr hs (fun _ => .of_eq rfl) (fun _ hx => hx) hc.declared
  | reorder h => exact hc
  | declare he hx hb hp =>
    exact chained_register ha hc he hx hb (Check.passed_standard_iff.1 hp).names
  | bind ht => exact Session.chained_bind ha.linked hc _ _ _

theorem Turns.chained (h : Turns Check.standard a b) (ha : a.Sound)
    (hc : a.session.document.Chained) : b.session.document.Chained := by
  induction h with
  | refl => exact hc
  | tail h t ih => exact t.chained (h.sound ha) ih

namespace Moment

variable {settings : Settings} {root : Option SourceId} {tokens : List Token}

theorem chained_start (settings : Settings) (root : Option SourceId) (tokens : List Token) :
    (start settings root tokens).situation.session.document.Chained := by
  have hempty (d : Document) (hs : d.structures = {}) (ht : d.typeNames = [])
      (hx : d.declarations = []) : d.Chained := by
    refine ⟨fun id x h => ?_, fun t ht' => ?_, fun id h => ?_⟩
    · have := (d.structures.get?_isSome_iff id).1 (h ▸ rfl)
      rw [hs] at this
      exact absurd this (Nat.not_lt_zero _)
    · obtain ⟨entry, h, _⟩ := ht'
      rw [ht] at h
      cases h
    · rw [hx] at h
      cases h
  cases root <;> exact hempty _ rfl rfl rfl

theorem Reached.chained {m : Moment} (hm : Reached settings root tokens m)
    (h : settings.checks = Check.standard) : m.document.Chained := by
  have hstart := sound_start settings root tokens
  have hturns := Steps.turns hm hstart
  rw [h] at hturns
  exact hturns.chained hstart (chained_start settings root tokens)

/-- In a session with the standard checks, at every moment and at the end, the combined fields
of a registered structure are the plain fields along its bases in their order, under distinct
names. There is one for a name exactly if the search for the name finds a field, and it is the
field that is found; its default is that of the last alter of it along the bases, or else its
own. -/
theorem combined_fields_are_those_found (h : settings.checks = Check.standard) (d : Document)
    (hd : (∃ m, Reached settings root tokens m ∧ d = m.document) ∨
      d = (settings.readTokens root tokens).document) :
    ∀ id, .struct id ∈ d.declarations →
      ((d.combinedFields id).map (·.field.name.value)).Nodup ∧
      (d.combinedFields id).map (·.field.name.value) = d.plainNames id ∧
      (∀ name, (∃ c ∈ d.combinedFields id, c.field.name.value = name) ↔
        (d.findField? id name).isSome) ∧
      ∀ c ∈ d.combinedFields id,
        d.findField? id c.field.name.value = some c.owner ∧ d.field? c.owner = some c.field ∧
        c.default = ((Alter.last? (d.alters id) c.owner).map Alter.default).or c.field.default := by
  have hall : d.Linked ∧ d.Chained := by
    have hstart := sound_start settings root tokens
    rcases hd with ⟨m, hm, rfl⟩ | rfl
    · exact ⟨hm.sound.linked, hm.chained h⟩
    · obtain ⟨a, ha, hd, _⟩ :=
        Reached.turns_outcome (.refl : Reached settings root tokens (start settings root tokens))
      rw [hd]
      refine ⟨(ha.sound hstart).linked, ?_⟩
      rw [h] at ha
      exact ha.chained hstart (chained_start settings root tokens)
  intro id hid
  have hagrees := hall.2.agrees hall.1 hid
  refine ⟨hagrees.listed ▸ hagrees.distinct, hagrees.listed, fun name => ⟨?_, fun hname => ?_⟩,
    fun c hc => ⟨hagrees.owner c hc, hagrees.field c hc, hagrees.default c hc⟩⟩
  · rintro ⟨c, hc, rfl⟩
    rw [hagrees.owner c hc]
    rfl
  · obtain ⟨f, hf⟩ := Option.isSome_iff_exists.1 hname
    obtain ⟨c, hc, hn, _⟩ := hagrees.exists_of_find hf
    exact ⟨c, hc, hn⟩

/-- The statement where a field is altered and then overridden. -/
theorem combined_fields_are_those_found_behind_override :
    let settings : Settings := {}
    let tokens := Token.tokenize
      "structure A \x7b size a; size b; \x7d
      structure B inherit A alter b = 2 \x7b override size a; \x7d"
    let d := (settings.readTokens none tokens).document
    (.struct ⟨1⟩ ∈ d.declarations ∧
      (d.combinedFields ⟨1⟩).map (·.owner) = [⟨⟨1⟩, 1⟩, ⟨⟨0⟩, 1⟩]) ∧
    (d.combinedFields ⟨1⟩).map (·.field.name.value) = d.plainNames ⟨1⟩ ∧
    ∀ c ∈ d.combinedFields ⟨1⟩, d.findField? ⟨1⟩ c.field.name.value = some c.owner ∧
      c.default = ((Alter.last? (d.alters ⟨1⟩) c.owner).map Alter.default).or c.field.default := by
  intro settings tokens d
  have hid : .struct ⟨1⟩ ∈ d.declarations ∧
      (d.combinedFields ⟨1⟩).map (·.owner) = [⟨⟨1⟩, 1⟩, ⟨⟨0⟩, 1⟩] := by decide +kernel
  obtain ⟨_, hnames, _, hall⟩ := combined_fields_are_those_found rfl d (.inr rfl) ⟨1⟩ hid.1
  exact ⟨hid, hnames, fun c hc => ⟨(hall c hc).1, (hall c hc).2.2⟩⟩

end Moment

end Grammar

end Idl
