import Idl.Proofs.Course.Arise
import Idl.Proofs.Course.Inheritance
import Idl.Proofs.Document.Arrangement

/-!
Members over a whole session. What a structure or an enumeration says of the places of its
members is right when they are written, and it is written down behind the mark, where nothing
that was read before can be lost. Names that are bound later and structures that are withdrawn
change none of it.
-/

namespace Idl

namespace Document

/-- The structures of the document say what holds of their members, and of fields of the base. -/
structure Placed (d : Document) : Prop where
  rooted : d.Rooted
  arranged : d.Arranged

variable {d d' : Document}

theorem Placed.congr (h : d.Placed) (hs : d'.structures = d.structures)
    (he : d'.enumerations = d.enumerations) : d'.Placed where
  rooted := h.rooted.congr fun _ => .of_eq (by rw [hs])
  arranged := h.arranged.congr (fun _ => .of_eq (by rw [hs])) (keepsOwners_of_eq he)
    fun _ => by rw [he]

theorem placed_setMain (source : Option SourceId) : (setMain {} source).Placed := by
  have empty {family : Family} {α : Type} {p : Id family → α → Prop} :
      ({} : Arena family α).All p := fun _ _ h => by cases h
  exact ⟨empty, empty, empty⟩

theorem Sound.arranged_bind {s : Session} {b : Binding} {ws : List Binding}
    (h : s.document.Sound (b :: ws)) (ha : s.document.Arranged) (checks : List Check)
    (t : DataType) : (s.bind checks b t).document.Arranged := by
  refine ha.congr (s.resembles_bind checks b t) (h.grows_bind checks t).owners fun id => ?_
  rw [(s.sheds_bind checks b t).enumerations, s.document.values_fill b.slot t]

end Document

namespace Grammar

open Document

variable {checks : List Check}

section Edits

variable {others : List Binding} {m : Mark} {s s' : State}

theorem Edit.arranged (h : Edit checks m s s') (hs : s.Ready others m)
    (hc : s.document.ChainedAbove m.extent) (ha : s.document.Arranged) :
    s'.document.Arranged := by
  have hagree := (h.keeps hs).agree
  have hlinked := (h.ready hs).sound.linked
  have howners := (h.grows hs).owners
  cases h with
  | read h => exact h.document ▸ ha
  | reorder h ht => exact ha
  | @change d' opened new h hn hscope =>
    refine ⟨fun id x' hx' => ?_, h.composed ha.enumerations⟩
    -- What lies above the structure lies below the mark, and is as it was.
    have hsame {x : Structure} (hx : s.document.structures.get? id = some x)
        (hbase : x'.base = x.base) : d'.ancestors id = s.document.ancestors id :=
      hs.sound.linked.ancestors_eq hlinked (fun o ho => .of_eq (hagree.structure_eq ho)) hx hx'
        hbase fun b hb => hs.index_base_lt hc.bases hx hb
    rcases (h.stems id x' hx').order with hempty | ⟨x, hx, rfl | ⟨member, rfl, hp⟩⟩
    · exact .of_empty hempty
    · exact (ha.structures id _ hx).congr rfl (hsame hx rfl) howners
    · exact ((ha.structures id x hx).addMember hp).congr rfl (hsame hx rfl) howners
  | @bind front back b t o hp hm ht hb hid =>
    have hw := hp ▸ perm_waiting others front b back
    exact (hs.sound.perm hw).arranged_bind ha checks t

theorem Edits.arranged (h : Edits checks m s s') (hs : s.Ready others m)
    (hc : s.document.ChainedAbove m.extent) (ha : s.document.Arranged) :
    s'.document.Arranged := by
  induction h with
  | refl => exact ha
  | tail h e ih => exact e.arranged (h.ready hs) (h.chained hs hc) ih

end Edits

theorem Edits.placed {others : List Binding} {s s' : State} (h : Edits checks s.mark s s')
    (hs : s.Sound others) (hp : s.document.Placed) : s'.document.Placed where
  rooted := (h.chained hs.ready hp.rooted.above).rooted
  arranged := h.arranged hs.ready hp.rooted.above hp.arranged

theorem kept_placed (checks : List Check) : Kept checks Placed where
  turn h ha hp := by
    cases h with
    | @note s s' ws h _ => exact h ▸ hp.congr rfl rfl
    | reorder h => exact hp
    | @declare others s s' x he hx hb hpassed =>
      have hs : s.Sound others := ha
      exact (he.placed hs hp).congr rfl rfl
    | bind ht =>
      exact ⟨hp.rooted.congr (Session.resembles_bind _ _ _ _),
        Sound.arranged_bind ha hp.arranged _ _⟩
  edits hs he hp := he.placed hs hp

namespace Moment

variable {settings : Settings} {root : Option SourceId} {tokens : List Token} {d : Document}

/-- In every document of a session, for each structure: the bits of its own fields are their
positions, and the structure is their owner; what it overrides or alters is the field of that
name in its base; it copies from structures above it; and the enumerations nested in it know
it. A composed value names values that stand in front of it. -/
theorem members_say_where_they_stand (hd : Arises settings root tokens d) :
    (∀ id x, d.structures.get? id = some x →
      (∀ (k position : Nat) (f : Field), x.fields[k]? = some (position, f) →
        f.bitmask = k ∧ f.owner = id) ∧
      (∀ f overridden, .override f overridden ∈ x.members →
        ∃ base, x.base = some base ∧ d.findField? base f.name.value = some overridden) ∧
      (∀ a, .alter a ∈ x.members →
        ∃ base, x.base = some base ∧ d.findField? base a.name.value = some a.field) ∧
      (∀ u, .upcopy u ∈ x.members → Relation.TransGen d.HasBase id u.base ∧ u.base ≠ id) ∧
      ∀ e, .enumeration e ∈ x.members →
        ∃ n, d.enumerations.get? e = some n ∧ n.owner = some id) ∧
    ∀ id e, d.enumerations.get? id = some e → ∀ (i : Nat) v parts, e.values[i]? = some v →
      v.parts = some parts → ∀ position ∈ parts, position < i := by
  have hlinked := hd.linked
  obtain ⟨hrooted, hstructures, henumerations⟩ :=
    hd.kept (kept_placed settings.checks) placed_setMain
  refine ⟨fun id x hx => ⟨fun k position f hf => ⟨?_, ?_⟩, fun f overridden hm => ?_,
    fun a hm => ?_, fun u hm => ?_, fun e hm => ?_⟩, fun id e he => henumerations id e he⟩
  · exact (hstructures id x hx).bitmask_eq hf
  · obtain ⟨m, hm, hfield⟩ :=
      Option.bind_eq_some_iff.1 (Structure.mem_fields_iff.1 (List.mem_of_getElem? hf))
    exact ((hlinked.structures id x hx).members m (List.mem_of_getElem? hm)).owner_of_field? hfield
  · exact hrooted id x hx _ hm
  · exact hrooted id x hx _ hm
  · have habove := (hstructures id x hx).upcopies u hm
    refine ⟨hlinked.transGen_of_mem_ancestors habove, fun h => ?_⟩
    exact Nat.lt_irrefl _ (h ▸ index_lt_of_mem_ancestors habove)
  · have howner := (hstructures id x hx).nested e (Structure.mem_nestedEnumerations.2 hm)
    exact Option.map_eq_some_iff.1 howner

/-- The statement below a structure that is withdrawn: it turns out that a template in it holds
one that is not sharable. -/
theorem members_say_where_they_stand_below_withdrawn :
    let settings : Settings := {}
    let tokens := Token.tokenize "sharable structure A \x7b vector<B> b; size a; size c; \x7d
      sharable structure D inherit A alter c = 2 \x7b size d; override size a; upcopy from A;
        enum E \x7b x; y; z = x | y; \x7d \x7d
      structure B \x7b \x7d"
    let d := (settings.readTokens none tokens).document
    d.declarations = [.struct ⟨1⟩, .struct ⟨2⟩] ∧
      ∃ x, d.structures.get? ⟨1⟩ = some x ∧ x.base = some ⟨0⟩ ∧ x.members.length = 5 ∧
        (∀ (k position : Nat) (f : Field), x.fields[k]? = some (position, f) →
          f.bitmask = k ∧ f.owner = ⟨1⟩) ∧
        (∀ u, .upcopy u ∈ x.members → Relation.TransGen d.HasBase ⟨1⟩ u.base ∧ u.base ≠ ⟨1⟩) ∧
        ∀ e, .enumeration e ∈ x.members →
          ∃ n, d.enumerations.get? e = some n ∧ n.owner = some ⟨1⟩ := by
  intro settings tokens d
  obtain ⟨hdeclared, hshape⟩ : d.declarations = [.struct ⟨1⟩, .struct ⟨2⟩] ∧
      (d.structures.get? ⟨1⟩).map (fun x => (x.base, x.members.length)) =
        some (some ⟨0⟩, 5) := by decide +kernel
  obtain ⟨x, hx, heq⟩ := Option.map_eq_some_iff.1 hshape
  obtain ⟨hbase, hlength⟩ := Prod.mk.inj heq
  obtain ⟨hstructures, _⟩ :=
    members_say_where_they_stand (.outcome : Arises settings none tokens d)
  obtain ⟨hfields, _, _, hupcopies, hnested⟩ := hstructures ⟨1⟩ x hx
  exact ⟨hdeclared, x, hx, hbase, hlength, hfields, hupcopies, hnested⟩

end Moment

end Grammar

end Idl
