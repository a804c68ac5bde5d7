import Idl.Proofs.Course.Agreement
import Idl.Proofs.Course.Inheritance

/-!
Bases over a session without an error. A structure is given a base that is registered, and
where no error is reported nothing is withdrawn. So all bases of a registered structure are
registered in the end.
-/

namespace Idl

namespace Document

variable {d d' : Document}

/-- The bases of registered structures are listed. -/
def BasesListed (d : Document) : Prop :=
  ∀ id base, .struct id ∈ d.declarations → d.HasBase id base → d.IsListed (.struct base)

/-- What has a base in the second document had it in the first one, or its base was listed
there. -/
def Derives (d d' : Document) : Prop :=
  ∀ id base, .struct id ∈ d'.declarations → d'.HasBase id base →
    .struct id ∈ d.declarations ∧ d.HasBase id base ∨ d.IsListed (.struct base)

/-- Nothing was registered, and structures differ in types and defaults only. -/
structure Dwindles (d d' : Document) : Prop where
  declarations : ∀ x ∈ d'.declarations, x ∈ d.declarations
  resembles : ∀ id, d.Resembles d' id

theorem Resembles.hasBase_iff {id base : StructureId} (h : d.Resembles d' id) :
    d'.HasBase id base ↔ d.HasBase id base := by
  rw [HasBase, h.base_eq, HasBase]

theorem Extends.isListed (h : d.Extends d') {t : DataType} (ht : d.IsListed t) :
    d'.IsListed t := by
  obtain ⟨entry, hentry, heq⟩ := ht
  exact ⟨entry, h.typeNames.subset hentry, heq⟩

theorem Derives.dwindles {d'' : Document} (h : d.Derives d') (h' : d'.Dwindles d'') :
    d.Derives d'' :=
  fun id base hid hbase =>
    h id base (h'.declarations _ hid) ((h'.resembles id).hasBase_iff.1 hbase)

theorem derives_of_eq (hx : d'.declarations = d.declarations)
    (hs : d'.structures = d.structures) : d.Derives d' := by
  intro id base hid hbase
  rw [HasBase, hs] at hbase
  exact .inl ⟨hx ▸ hid, hbase⟩

theorem BasesListed.of_derives (h : d.BasesListed) (hd : d.Derives d') (he : d.Extends d') :
    d'.BasesListed := by
  intro id base hid hbase
  refine he.isListed ?_
  rcases hd id base hid hbase with ⟨hid, hbase⟩ | hlisted
  · exact h id base hid hbase
  · exact hlisted

/-- The whole way up from a registered structure is registered. -/
theorem BasesListed.mem_declarations (h : d.BasesListed) (hd : d.Linked) (hc : d.Chained)
    {id owner : StructureId} (hid : .struct id ∈ d.declarations) (ho : owner ∈ d.lineage id) :
    .struct owner ∈ d.declarations := by
  induction hd.inherits_iff.1 (List.contains_iff_mem.2 ho) with
  | refl => exact hid
  | @tail b c hchain hbase ih =>
    have hb : b ∈ d.lineage id := List.contains_iff_mem.1 (hd.inherits_iff.2 hchain)
    exact hc.of_listed (h b c (ih hb) hbase)

end Document

namespace Session

variable {checks : List Check}

theorem dwindles_settle {find : Session → Binding → Option DataType} (s : Session)
    (pending : List Binding) :
    s.document.Dwindles (s.settle checks find pending).1.document := by
  refine settle_invariant (I := fun s' _ => s.document.Dwindles s'.document) ?_ s pending
    ⟨fun _ h => h, fun _ => .of_eq rfl⟩
  intro s' kept b back t h hb
  exact ⟨fun x hx => h.declarations x (Document.mem_declarations_of_bind hx),
    fun id => (h.resembles id).trans (s'.resembles_bind checks b t id)⟩

theorem dwindles_settleRegistered (checks : List Check) (s : Session) (t : DataType)
    (pending : List Binding) :
    s.document.Dwindles (s.settleRegistered checks t pending).1.document :=
  s.dwindles_settle pending

theorem dwindles_settleAll (checks : List Check) (s : Session) (last : Bool)
    (pending : List Binding) :
    s.document.Dwindles (s.settleAll checks last pending).1.document :=
  s.dwindles_settle pending

end Session

namespace Grammar

open Document

/-- A structure that is declared derives from one that is registered. -/
theorem State.derives_declare {checks : List Check} {others : List Binding} {s : State}
    (hs : s.Sound others) (hc : s.document.Chained) (comment : Option Comment) :
    s.document.Derives (s.declare checks comment).document := by
  rcases State.declare_cases hs comment with hr | ⟨x, s', hp, _, heq⟩
  · rw [hr.document]
    exact derives_of_eq rfl rfl
  obtain ⟨he, habove, _⟩ := After.of_ok (builds_declaration hs.ready comment) hp
  have hagree := (he.keeps hs.ready).agree
  obtain ⟨_, hbases⟩ := he.chained hs.ready hc.rooted.above
  -- Before the names that wait for it are bound.
  have hregistered : s.document.Derives (s'.document.register x) := by
    intro id base hid hbase
    have hmem : .struct id ∈ s'.document.declarations ++ [x] := hid
    rcases List.mem_append.1 hmem with hold | hnew
    · rw [hagree.declarations_eq] at hold
      have hr : s.document.Resembles s'.document id :=
        .of_eq (hagree.structure_eq (hs.linked.declarations (.struct id) hold))
      exact .inl ⟨hold, hr.hasBase_iff.1 hbase⟩
    · cases List.mem_singleton.1 hnew
      obtain ⟨node, hget, hb⟩ := Option.bind_eq_some_iff.1 hbase
      exact .inr (hagree.isListed_iff.1 (hbases id node hget habove base hb))
  rw [heq]
  unfold State.register
  simp only
  split
  · rename_i t _
    let visited := (s'.toSession.visit checks (.declaration x) false).2
    exact hregistered.dwindles (Session.dwindles_settleRegistered checks
      (visited.modifyDocument (·.register x)) t s'.pending)
  · exact hregistered

namespace Moment

variable {settings : Settings} {root : Option SourceId} {tokens : List Token} {m m' : Moment}

theorem Move.derives (h : Move settings m m') (hs : m.situation.Sound)
    (hc : m.document.Chained) : m.document.Derives m'.document := by
  cases h with
  | @declare levels importers atHead s s₁ comment h =>
    have hsound := h.sound hs
    cases h.state
    exact State.derives_declare hsound hc _
  | @pass levels importers atHead next s s' h =>
    change s.document.Derives s'.document
    rw [h.notes.document]
    exact derives_of_eq rfl rfl
  | @into levels importers s s' i id text h hf =>
    change s.document.Derives (s'.document.addImport _)
    rw [h.reads.document]
    exact derives_of_eq rfl rfl
  | @out levels importer importers atHead s h =>
    have hended : s.document.Derives s.ended.document := by
      rw [s.reads_ended.document]
      exact derives_of_eq rfl rfl
    exact hended.dwindles (Session.dwindles_settleAll settings.checks s.ended.toSession false _)

/-- In a session that succeeds all bases of registered structures stay listed. -/
theorem Reached.basesListed (hm : Reached settings root tokens m)
    (h : settings.checks = Check.standard) (hok : (settings.readTokens root tokens).ok = true) :
    m.document.BasesListed := by
  have hreports : ∀ check ∈ settings.checks, check.Reports := h ▸ Check.reports_standard
  have hmoves := hm.moves
  clear hm
  induction hmoves with
  | refl =>
    intro id base hid
    cases root <;> cases hid
  | @tail m m' hmoves hmove ih =>
    have hm : Reached settings root tokens m := Moves.steps hmoves
    have hm' : Reached settings root tokens m' := Relation.ReflTransGen.tail hm hmove.step
    have hadvances := hmove.advances hreports hm.sound (hm.awaits hreports hok) (hm'.clean hok)
    exact ih.of_derives (hmove.derives hm.sound (hm.chained h)) hadvances.known

/-- So they are in its document. -/
theorem basesListed_readTokens (h : settings.checks = Check.standard)
    (hok : (settings.readTokens root tokens).ok = true) :
    (settings.readTokens root tokens).document.BasesListed := by
  have hreports : ∀ check ∈ settings.checks, check.Reports := h ▸ Check.reports_standard
  obtain ⟨m, outcome, hmoves, hconcludes⟩ := Reached.exists_conclusion
    (.refl : Reached settings root tokens (start settings root tokens))
  have hm : Reached settings root tokens m := hmoves.steps
  have hbases := hm.basesListed h hok
  rw [hm.readTokens_eq hconcludes] at hok ⊢
  cases hconcludes with
  | ended hi hend =>
    have hclean := Session.clean_of_ok hok
    obtain ⟨halike, _⟩ := Session.settle_of_clean hreports Session.findAgain_alike hclean
    have hended : m.state.ended.document.BasesListed := m.state.reads_ended.document ▸ hbases
    rw [Session.document_finish]
    have hsame : m.state.ended.document.Derives m.state.ended.document := derives_of_eq rfl rfl
    exact hended.of_derives (hsame.dwindles (Session.dwindles_settleAll _ _ _ _)) halike.toExtends
  | halted ha h => cases hok

end Moment

end Grammar

end Idl
