import Idl.Proofs.Course.Agreement
import Idl.Proofs.Course.Binding
import Idl.Proofs.Document.Path
import Idl.Proofs.Grammar.Invariant

/-!
Qualified names that are deferred, in a session without an error. While such a name waits in the
source that is read, no type of the package its path names is there. When it is bound, it is
bound to what it means then: to that type, or to an enumeration nested in the structure to which
its path leads. The structure may be overtaken before the end.
-/

namespace Idl

/-- A name waits, or it was bound to what it meant then, and its slot holds that. -/
inductive Binding.Answered (binds : Session → Binding → DataType → Prop) (b : Binding)
    (d : Document) (ws : List Binding) : Prop where
  | waits (h : b ∈ ws)
  | bound {s : Session} {t : DataType} (hb : binds s b t) (hf : b.find? s.document = some t)
      (hs : s.document.Linked) (he : s.document.Extends d)
      (hslot : d.slot? b.slot = some (some t))

namespace Grammar

/-- None of the names that wait means a type of the package that its path names. -/
def Unpackaged (d : Document) (pending : List Binding) : Prop :=
  ∀ b ∈ pending, b.name.path ≠ [] → b.packaged? d = none

section Declaration

variable {d : Document} {checks : List Check}

theorem Unpackaged.of_remembers {d' : Document} {pending : List Binding}
    (h : Unpackaged d pending) (hr : d.Remembers d') (hd : d.Linked) : Unpackaged d' pending :=
  fun b hb hp => (hr.findPackaged?_eq hd _ _).trans (h b hb hp)

/-- While a declaration is read, `d` being the document in front of it. -/
def Invariant.unpackaged (d : Document) : Invariant where
  state s := d.Remembers s.document ∧ Unpackaged d s.pending
  token _ := True
  location _ := True
  heading _ := True
  name n := n.path ≠ [] → d.findPackaged? n.path n.last.text = none

theorem lawful_unpackaged (hd : d.Linked) : (Invariant.unpackaged d).Lawful where
  rest h _ := h
  token _ _ := trivial
  locationOf _ _ := trivial
  heading _ _ _ _ := trivial
  ending _ _ := trivial
  report h _ _ := h
  unknown {s scope name} h _ hn hp := by
    let b : Binding :=
      { name, classifier := "", scope, package := s.package, source := none,
        slot := .field default }
    have hpackaged : b.packaged? s.document = none := Binding.packaged?_of_find? hp hn
    exact (h.1.findPackaged?_eq hd name.path name.last.text).symm.trans hpackaged
  await {s name} h hn classifier scope slot := by
    refine ⟨h.1, fun b hb hp => ?_⟩
    rcases List.mem_append.1 hb with hb | hb
    · exact h.2 b hb hp
    · rw [List.mem_singleton.1 hb] at hp ⊢
      exact hn hp
  write h hw := ⟨h.1.trans hw.remembers, h.2⟩
  ask h _ _ := h
  rollback h h' := ⟨h'.1.restore h.1.extent, fun b hb => h'.2 b (List.mem_of_mem_take hb)⟩

theorem admits_unpackaged :
    (Invariant.unpackaged d).Admits checks fun s => Unpackaged d s.pending where
  visit h _ := h
  weaken h := h.2
  settleScope {s} h id b hb := by
    refine h.2 b ?_
    simp only [State.settle, Session.settleScope, List.partition_eq_filter_filter] at hb
    rcases List.mem_append.1 hb with hb | hb
    · exact (List.mem_filter.1 hb).1
    · exact (List.mem_filter.1 ((Session.settle_sublist _ _).mem hb)).1
  report h _ := h

/-- Names that come to wait in a declaration mean no type of the package their path names. -/
theorem Unpackaged.behind_declaration {comment : Option Comment} {x : Declaration} {s s' : State}
    (h : Unpackaged s.document s.pending) (hd : s.document.Linked)
    (hp : declaration checks comment s = .ok x s') : Unpackaged s.document s'.pending :=
  (after_declaration_admits (lawful_unpackaged hd) admits_unpackaged comment
    ⟨.refl _, h⟩).of_ok hp

end Declaration

/-- The qualified names of `ws` were bound as they should be. -/
structure Pursues (binds : Session → Binding → DataType → Prop) (ws : List Binding)
    (d : Document) (others pending : List Binding) : Prop where
  unpackaged : Unpackaged d pending
  answered : ∀ b ∈ ws, b.name.path ≠ [] → b.Answered binds d (others ++ pending)

variable {d d' : Document} {others pending ws : List Binding}
  {binds : Session → Binding → DataType → Prop}

theorem Pursues.carries {b : Binding} (h : Pursues binds ws d' others pending)
    (he : d.Extends d') (hg : d.Grows d') (hp : b.name.path ≠ [])
    (hb : b.Answered binds d ws) : b.Answered binds d' (others ++ pending) := by
  cases hb with
  | waits hb => exact h.answered b hb hp
  | bound hb hf hs hextends hslot =>
    exact .bound hb hf hs (hextends.trans he) (hg.filled _ _ hslot)

theorem Pursues.trans {others' pending' : List Binding} (h : Pursues binds ws d others pending)
    (h' : Pursues binds (others ++ pending) d' others' pending') (he : d.Extends d')
    (hg : d.Grows d') : Pursues binds ws d' others' pending' where
  unpackaged := h'.unpackaged
  answered b hb hp := h'.carries he hg hp (h.answered b hb hp)

theorem Unpackaged.pursues (h : Unpackaged d pending) :
    Pursues binds (others ++ pending) d others pending :=
  ⟨h, fun _ hb _ => .waits hb⟩

section Settle

variable {checks : List Check} (hc : ∀ check ∈ checks, check.Reports) {s : Session}
  {find : Session → Binding → Option DataType}

include hc

theorem pursues_settle
    (hfind : ∀ (s s' : Session) b, s.document.Alike s'.document → find s' b = find s b)
    (hs : s.document.Sound (others ++ pending))
    (hnamed : ∀ b t, find s b = some t → t.Named s.document.extent)
    (hfound : ∀ b ∈ pending, b.name.path ≠ [] → ∀ t, find s b = some t →
      b.find? s.document = some t)
    (hleft : ∀ b ∈ pending, b.name.path ≠ [] → find s b = none → b.packaged? s.document = none)
    (hbinds : ∀ s' b t, Session.Finds checks find s pending s' b t → binds s' b t)
    (hok : Message.hasError (s.settle checks find pending).1.messages = false) :
    Pursues binds (others ++ pending) (s.settle checks find pending).1.document others
      (s.settle checks find pending).2 := by
  obtain ⟨halike, hkept⟩ := Session.settle_of_clean hc hfind hok
  obtain ⟨_, hslots⟩ := Session.slots_settle_of_clean hc hfind hs hnamed hok
  have he := halike.toExtends
  rw [hkept]
  refine ⟨fun b hb hp => ?_, fun b hb hp => ?_⟩
  · obtain ⟨hb, hnone⟩ := List.mem_filter.1 hb
    have hbefore := hleft b hb hp (Option.isNone_iff_eq_none.1 hnone)
    exact ((he.remembers halike.typeNames).findPackaged?_eq hs.linked _ _).trans hbefore
  · rcases List.mem_append.1 hb with ho | hw
    · exact .waits (List.mem_append_left _ ho)
    · cases hf : find s b with
      | none => exact .waits (List.mem_append_right _ (List.mem_filter.2 ⟨hw, by rw [hf]; rfl⟩))
      | some t =>
        obtain ⟨hslot, s', hfinds, hlinked, hfirst, hlast⟩ := hslots b hw t hf
        have hmeant : b.find? s'.document = some t :=
          (hfirst.find?_eq b).trans (hfound b hw hp t hf)
        exact .bound (hbinds s' b t hfinds) hmeant hlinked hlast.toExtends hslot

/-- A type that has just been registered is bound to the qualified names that mean it. -/
theorem pursues_register {x : Declaration} {t : DataType} (hx : x.type? = some t)
    (hbelow : x.Below s.document.extent) (hs : s.document.Sound (others ++ pending))
    (hu : Unpackaged s.document pending)
    (hbinds : ∀ s' b u, Session.Finds checks
      (fun _ => (s.modifyDocument (·.register x)).findRegistered t)
      (s.modifyDocument (·.register x)) pending s' b u → binds s' b u)
    (hok : Message.hasError
      ((s.modifyDocument (·.register x)).settleRegistered checks t pending).1.messages = false) :
    Pursues binds (others ++ pending)
      ((s.modifyDocument (·.register x)).settleRegistered checks t pending).1.document others
      ((s.modifyDocument (·.register x)).settleRegistered checks t pending).2 := by
  let s₁ := s.modifyDocument (·.register x)
  have hs₁ : s₁.document.Sound (others ++ pending) := Document.Sound.register hs hbelow
  have hname : s₁.document.coreName t = s.document.nameText x := by
    cases x <;> cases hx <;> rfl
  have hpackage : s₁.document.packageOf? t = s.document.packageOf? t := by cases t <;> rfl
  have hpackaged (b : Binding) (hb : b ∈ pending) (hp : b.name.path ≠ []) :
      s₁.findRegistered t b = b.packaged? s₁.document := by
    have hregister : b.packaged? s₁.document = (b.packaged? s.document).or _ :=
      Document.findPackaged?_register hx
    rw [hregister, hu b hb hp, Option.none_or, Session.findRegistered, hname, hpackage]
    simp only [Binding.accepts, Binding.bindsEarly, List.isEmpty_eq_false_iff.2 hp,
      Bool.false_or, Bool.not_false, Bool.true_or, Bool.and_true, Bool.and_eq_true, beq_iff_eq,
      eq_comm (a := b.name.last.text)]
  refine pursues_settle hc (s := s₁) (fun _ _ _ _ => rfl) hs₁ (fun b u hb => ?_)
    (fun b hb hp u hf => Binding.find?_of_packaged? hp ((hpackaged b hb hp).symm.trans hf))
    (fun b hb hp hf => (hpackaged b hb hp).symm.trans hf) hbinds hok
  obtain ⟨_, rfl⟩ := Session.findRegistered_eq_some hb
  exact Declaration.named_of_type? hx hbelow

/-- When names are looked up again, the qualified ones are bound to whatever they mean. -/
theorem pursues_settleAll (last : Bool) (hs : s.document.Sound (others ++ pending))
    (hbinds : ∀ s' b t, Session.Finds checks (Session.findAgain last) s pending s' b t →
      binds s' b t)
    (hok : Message.hasError (s.settleAll checks last pending).1.messages = false) :
    Pursues binds (others ++ pending) (s.settleAll checks last pending).1.document others
      (s.settleAll checks last pending).2 := by
  have hfind (b : Binding) (hp : b.name.path ≠ []) :
      s.findAgain last b = b.find? s.document := by
    simp only [Session.findAgain, Binding.bindsEarly, List.isEmpty_eq_false_iff.2 hp,
      Bool.not_false, Bool.true_or, Bool.or_true]
    cases b.find? s.document <;> rfl
  exact pursues_settle hc Session.findAgain_alike hs (Session.named_of_findAgain hs.linked)
    (fun b _ hp t hf => (hfind b hp).symm.trans hf)
    (fun b _ hp hf => Binding.packaged?_of_find? hp ((hfind b hp).symm.trans hf)) hbinds hok

/-- Without an error no qualified name waits behind the end. -/
theorem answered_finish (hs : s.document.Sound pending)
    (hbinds : ∀ s' b t, Session.Finds checks (Session.findAgain true) s pending s' b t →
      binds s' b t)
    (hok : (s.finish checks pending).ok = true) {b : Binding} (hp : b.name.path ≠ [])
    (hb : b.Answered binds s.document pending) :
    b.Answered binds (s.finish checks pending).document [] := by
  have hclean := Session.clean_of_ok hok
  have hleft : s.left checks pending = [] := s.left_eq_nil_of_ok checks pending hok
  have hwaits : s.document.Sound ([] ++ pending) := hs
  have hpursues := pursues_settleAll hc true hwaits hbinds hclean
  obtain ⟨halike, hgrows⟩ := Session.settleAll_of_clean hc true hwaits hclean
  have hanswered := hpursues.carries halike.toExtends hgrows hp hb
  rw [Session.document_finish, ← hleft]
  exact hanswered

end Settle

section Declaration

variable {checks : List Check} (hc : ∀ check ∈ checks, check.Reports) {s s' : State}
  {comment : Option Comment} {x : Declaration}

theorem Unpackaged.after_declaration (hs : s.Sound others)
    (ha : Awaits s.document others s.pending) (hu : Unpackaged s.document s.pending)
    (hc : ∀ check ∈ checks, check.Reports) (hp : declaration checks comment s = .ok x s')
    (hok : Message.hasError s'.messages = false) : Unpackaged s'.document s'.pending := by
  obtain ⟨he, _⟩ := After.of_ok (builds_declaration hs.ready comment) hp
  have hnames : s'.document.typeNames = s.document.typeNames :=
    (he.keeps hs.ready).agree.typeNames_eq
  have hknown := (advances_declaration hc hs ha hp hok).known
  exact (hu.behind_declaration hs.linked hp).of_remembers (hknown.remembers hnames) hs.linked

include hc

/-- When a declaration that was read is registered, the qualified names that mean it are bound. -/
theorem pursues_declared (hs : s.Sound others) (hs' : s'.Sound others)
    (hu : Unpackaged s'.document s'.pending) (hp : declaration checks comment s = .ok x s')
    (hbinds : ∀ {t session b u}, (s'.toSession.visit checks (.declaration x) false).1 = true →
      x.type? = some t →
      Session.Finds checks (fun _ => (s'.registering checks x).findRegistered t)
        (s'.registering checks x) s'.pending session b u → binds session b u)
    (hok : Message.hasError (s.declare checks comment).messages = false) :
    Pursues binds (others ++ s'.pending) (s.declare checks comment).document others
      (s.declare checks comment).pending := by
  obtain ⟨_, _, hbelow⟩ := After.of_ok (builds_declaration hs.ready comment) hp
  let visited : State :=
    { s' with toSession := (s'.toSession.visit checks (.declaration x) false).2 }
  have hpassed := State.passed_of_declared hc hp hok
  have heq : s.declare checks comment = visited.register checks x :=
    State.declare_of_clean hc hp hok
  rw [heq] at hok ⊢
  cases hx : x.type? with
  | none =>
    have hd : s'.document.Extends (s'.document.register x) := s'.document.extends_register x
    have hnames : (s'.document.register x).typeNames = s'.document.typeNames := by
      simp only [Document.register, hx]
    simp only [State.register, hx]
    exact (hu.of_remembers (hd.remembers hnames) hs'.linked).pursues
  | some t =>
    simp only [State.register, hx] at hok ⊢
    exact pursues_register (s := visited.toSession) hc hx hbelow hs' hu
      (fun _ _ _ => hbinds hpassed hx) hok

theorem pursues_declare (hs : s.Sound others) (ha : Awaits s.document others s.pending)
    (hu : Unpackaged s.document s.pending)
    (hbinds : ∀ {x s' t session b u}, declaration checks comment s = .ok x s' →
      (s'.toSession.visit checks (.declaration x) false).1 = true → x.type? = some t →
      Session.Finds checks (fun _ => (s'.registering checks x).findRegistered t)
        (s'.registering checks x) s'.pending session b u → binds session b u)
    (hok : Message.hasError (s.declare checks comment).messages = false) :
    Pursues binds (others ++ s.pending) (s.declare checks comment).document others
      (s.declare checks comment).pending := by
  cases hp : declaration checks comment s with
  | error e s' =>
    have hr := State.reads_declare_of_broken hs hp
    rw [hr.document, hr.pending]
    exact hu.pursues
  | ok x s' =>
    have hs' : s'.Sound others :=
      ((After.of_ok (builds_declaration hs.ready comment) hp).1.ready hs.ready).sound
    have hclean := State.clean_of_declared hc hp hok
    have hu' := hu.after_declaration hs ha hc hp hclean
    have hdeclared := pursues_declared hc hs hs' hu' hp (hbinds hp) hok
    refine ⟨hdeclared.unpackaged, fun b hb hpath => hdeclared.answered b ?_ hpath⟩
    rcases List.mem_append.1 hb with hb | hb
    · exact List.mem_append_left _ hb
    · exact List.mem_append_right _ (State.waits_behind_declaration hs hp hb)

end Declaration

namespace Moment

variable {settings : Settings} {root : Option SourceId} {tokens : List Token} {m m' : Moment}

theorem Move.pursues (h : Move settings m m') (hc : ∀ check ∈ settings.checks, check.Reports)
    (hm : Reached settings root tokens m)
    (ha : Awaits m.document (waitingIn m.importers) m.state.pending)
    (hu : Unpackaged m.document m.state.pending)
    (hok : Message.hasError m'.state.messages = false) :
    Pursues (Binds settings root tokens) m.waiting m'.document (waitingIn m'.importers)
      m'.state.pending := by
  have hs := hm.sound
  cases h with
  | @declare levels importers atHead s s₁ comment h =>
    have hdeclare := pursues_declare hc (h.sound hs) (h.awaits ha) (by cases h.state; exact hu)
      (fun hp hv hx hf => Binds.registered hm h hp hv hx hf) hok
    cases h.state
    exact hdeclare
  | @pass levels importers atHead next s s' h =>
    have hknown := (s.document.alike_note s'.document.imports s'.document.package).toExtends
    change Pursues _ (waitingIn importers ++ s.pending) s'.document _ s'.pending
    rw [h.notes.pending, h.notes.document]
    exact (hu.of_remembers (hknown.remembers rfl) hs.linked).pursues
  | @into levels importers s s' i id text h hf =>
    refine ⟨fun b hb => absurd hb List.not_mem_nil, fun b hb _ => .waits ?_⟩
    have hpending : s'.pending = s.pending := h.reads.pending
    change b ∈ (waitingIn importers ++ s'.pending) ++ []
    rw [List.append_nil, hpending]
    exact hb
  | @out levels importer importers atHead s h =>
    have hr := s.reads_ended
    have hs' : s.ended.Sound (waitingIn (importer :: importers)) := State.Sound.reads hs hr
    have hassoc : waitingIn (importer :: importers) ++ s.ended.pending =
        waitingIn importers ++ (importer.pending ++ s.ended.pending) := List.append_assoc _ _ _
    rw [State.Sound, hassoc] at hs'
    have hrescan := pursues_settleAll (s := s.ended.toSession) hc false hs'
      (fun _ _ _ hf => Binds.resumed hm h hf) hok
    change Pursues _ (waitingIn (importer :: importers) ++ s.pending) _ _ _
    rw [← hr.pending, hassoc]
    exact hrescan

theorem Moves.pursues (h : Moves settings m m') (hc : ∀ check ∈ settings.checks, check.Reports)
    (hm : Reached settings root tokens m)
    (ha : Awaits m.document (waitingIn m.importers) m.state.pending)
    (hu : Unpackaged m.document m.state.pending)
    (hok : Message.hasError m'.state.messages = false) :
    Pursues (Binds settings root tokens) m.waiting m'.document (waitingIn m'.importers)
      m'.state.pending := by
  induction h with
  | refl => exact hu.pursues
  | tail h hmove ih =>
    have hm' : Reached settings root tokens _ := Relation.ReflTransGen.trans hm (Moves.steps h)
    have hs' := hm'.sound
    have hbefore := Message.hasError_of_prefix (hmove.messages hs') hok
    have hawaits := (Moves.advances h hc hm.sound ha hbefore).awaits
    have hadvances := hmove.advances hc hs' hawaits hok
    have hpursues := hmove.pursues hc hm' hawaits (ih hbefore).unpackaged hok
    exact (ih hbefore).trans hpursues hadvances.known hadvances.grows

theorem Reached.unpackaged (hm : Reached settings root tokens m)
    (hc : ∀ check ∈ settings.checks, check.Reports)
    (hok : (settings.readTokens root tokens).ok = true) :
    Unpackaged m.document m.state.pending := by
  have hstart : Reached settings root tokens (start settings root tokens) := .refl
  have hnothing : Awaits (start settings root tokens).document [] [] :=
    ⟨fun b hb => absurd hb List.not_mem_nil, fun b hb => absurd hb List.not_mem_nil⟩
  have hunpackaged : Unpackaged (start settings root tokens).document [] :=
    fun b hb => absurd hb List.not_mem_nil
  refine (hm.moves.pursues hc hstart ?_ ?_ (hm.clean hok)).unpackaged
  · cases root <;> exact hnothing
  · cases root <;> exact hunpackaged

/-- A name that waits behind a declaration is answered for when this is registered. -/
theorem Declares.answered {comment : Option Comment} {x : Declaration} {s s' : State}
    {b : Binding} (h : m.Declares comment s) (hc : ∀ check ∈ settings.checks, check.Reports)
    (hm : Reached settings root tokens m)
    (ha : Awaits m.document (waitingIn m.importers) m.state.pending)
    (hu : Unpackaged m.document m.state.pending)
    (hread : declaration settings.checks comment s = .ok x s')
    (hok : ∀ m', Move settings m m' → Message.hasError m'.state.messages = false)
    (hp : b.name.path ≠ []) (hb : b ∈ s'.pending) :
    ∃ m', Move settings m m' ∧
      b.Answered (Binds settings root tokens) m'.document m'.waiting := by
  obtain ⟨levels, importers, atHead, s₀⟩ := m
  have hs₁ : s.Sound (waitingIn importers) := h.sound hm.sound
  have hs' : s'.Sound (waitingIn importers) :=
    ((After.of_ok (builds_declaration hs₁.ready comment) hread).1.ready hs₁.ready).sound
  have hmove : Move settings ⟨levels, importers, atHead, s₀⟩ _ := .declare h
  have hdeclare := hok _ hmove
  have hclean := State.clean_of_declared hc hread hdeclare
  have hu₁ : Unpackaged s.document s.pending := by cases h.state; exact hu
  have hu' := hu₁.after_declaration hs₁ (h.awaits ha) hc hread hclean
  have hregister := pursues_declared hc hs₁ hs' hu' hread
    (fun hv hx hf => Binds.registered hm h hread hv hx hf) hdeclare
  exact ⟨_, hmove, hregister.answered b (List.mem_append_right _ hb) hp⟩

/-- A name that waits is answered for at the latest when the next statement has been read. -/
theorem Awaited.answered {b : Binding} (h : m.Awaited settings.checks b)
    (hc : ∀ check ∈ settings.checks, check.Reports) (hm : Reached settings root tokens m)
    (ha : Awaits m.document (waitingIn m.importers) m.state.pending)
    (hu : Unpackaged m.document m.state.pending)
    (hok : ∀ m', Move settings m m' → Message.hasError m'.state.messages = false)
    (hp : b.name.path ≠ []) : ∃ m', Moves settings m m' ∧
      b.Answered (Binds settings root tokens) m'.document m'.waiting := by
  have hsingle {answered : Moment → Prop} : (∃ m', Move settings m m' ∧ answered m') →
      ∃ m', Moves settings m m' ∧ answered m' :=
    fun ⟨m', hmove, hb⟩ => ⟨m', .single hmove, hb⟩
  cases h with
  | between hb => exact ⟨m, .refl, .waits hb⟩
  | behind hd hread hb => exact hsingle (hd.answered hc hm ha hu hread hok hp hb)
  | within hd hr hb =>
    obtain ⟨s'', hread, hleft⟩ := hr.declaration
    refine hsingle (hd.answered hc hm ha hu hread hok hp ?_)
    have hpath : b.name.path.isEmpty = false := List.isEmpty_eq_false_iff.2 hp
    rw [hleft.pending]
    simp only [State.settle, Session.settleScope, List.partition_eq_filter_filter]
    exact List.mem_append_left _ (List.mem_filter.2 ⟨hb, by simp [hpath]⟩)

/-- In a session without an error every qualified name that did not resolve when it was read was
bound to the type that was found for it then, and holds it in the end. This is the type that is
found for the name in the final document, or an enumeration nested in the structure to which the
path led when the name was bound, and this structure has been overtaken since. -/
theorem late_qualified_names_are_found_unless_overtaken {b : Binding}
    (hc : ∀ check ∈ settings.checks, check.Reports) (hm : Reached settings root tokens m)
    (hok : (settings.readTokens root tokens).ok = true) (hb : m.Awaited settings.checks b)
    (hp : b.name.path ≠ []) :
    ∃ s t, Binds settings root tokens s b t ∧
      s.document.findType? b.package b.name.path b.scope b.name.last.text = some t ∧
      (settings.readTokens root tokens).document.slot? b.slot = some (some t) ∧
      ((settings.readTokens root tokens).document.findType? b.package b.name.path b.scope
          b.name.last.text = some t ∨
        ∃ o e, t = .enum e ∧ b.Leads s.document o ∧
          s.document.findNested? o b.name.last.text = some e ∧ ¬ b.Overtaken s.document o ∧
          b.Overtaken (settings.readTokens root tokens).document o) := by
  have hreached {m₁ m₂ : Moment} (h : Reached settings root tokens m₁) (h' : Moves settings m₁ m₂) :
      Reached settings root tokens m₂ := Relation.ReflTransGen.trans h h'.steps
  obtain ⟨m₁, hmoves, hanswered⟩ := hb.answered hc hm (hm.awaits hc hok)
    (hm.unpackaged hc hok) (fun m' h => (hreached hm (.single h)).clean hok) hp
  have hm₁ := hreached hm hmoves
  obtain ⟨m₂, outcome, hmoves₂, hconcludes⟩ := hm₁.exists_conclusion
  have hm₂ := hreached hm₁ hmoves₂
  have hadvances := hmoves₂.advances hc hm₁.sound (hm₁.awaits hc hok) (hm₂.clean hok)
  have hpursues := hmoves₂.pursues hc hm₁ (hm₁.awaits hc hok) (hm₁.unpackaged hc hok)
    (hm₂.clean hok)
  have hlast := hpursues.carries hadvances.known hadvances.grows hp hanswered
  rw [hm₂.readTokens_eq hconcludes] at hok ⊢
  cases hconcludes with
  | halted ha h => cases hok
  | ended hi h =>
    have hr := m₂.state.reads_ended
    have hsound : m₂.state.ended.document.Sound m₂.state.ended.pending := by
      have hsituation : m₂.state.document.Sound (waitingIn m₂.importers ++ m₂.state.pending) :=
        hm₂.sound
      rwa [hi, waitingIn, List.nil_append, ← hr.document, ← hr.pending] at hsituation
    have hwaits : b.Answered (Binds settings root tokens) m₂.state.ended.document
        m₂.state.ended.pending := by
      have hanswer : b.Answered (Binds settings root tokens) m₂.state.document
          (waitingIn m₂.importers ++ m₂.state.pending) := hlast
      rwa [hi, waitingIn, List.nil_append, ← hr.document, ← hr.pending] at hanswer
    cases answered_finish hc hsound (fun _ _ _ hf => Binds.ended hm₂ hi h hf) hok hp hwaits with
    | waits hnone => exact absurd hnone List.not_mem_nil
    | @bound s t hbinds hf hs he hslot =>
      exact ⟨s, t, hbinds, hf, hslot, Binding.find?_or_overtaken hp hf he hs⟩

/-- An enumeration that is nested in a structure which is declared behind the field. -/
theorem late_qualified_names_are_found_unless_overtaken_nested :
    let settings : Settings := {}
    let tokens := Token.tokenize
      "structure S \x7b Outer.Inner f; \x7d structure Outer \x7b enum Inner \x7b a; \x7d \x7d"
    let d := (settings.readTokens none tokens).document
    ∃ b : Binding, b.slot = .field ⟨⟨0⟩, 0⟩ ∧ b.name.path ≠ [] ∧
      ∃ s t, Binds settings none tokens s b t ∧
        s.document.findType? b.package b.name.path b.scope b.name.last.text = some t ∧
        d.slot? b.slot = some (some t) ∧
        (d.findType? b.package b.name.path b.scope b.name.last.text = some t ∨
          ∃ o e, t = .enum e ∧ b.Leads s.document o ∧
            s.document.findNested? o b.name.last.text = some e ∧ ¬ b.Overtaken s.document o ∧
            b.Overtaken d o) := by
  intro settings tokens d
  let s : State := .root none tokens
  have hword : (s.skipComments.current.any fun t =>
      t.kind == .identifier && !t.isKeyword "import" && !t.isKeyword "package") = true := by
    decide +kernel
  obtain ⟨t, ht, hkind⟩ := (Option.any_eq_true _ _).1 hword
  simp only [Bool.and_eq_true, beq_iff_eq, Bool.not_eq_true'] at hkind
  have hd : (start settings none tokens).Declares s.comment? s.skipComments :=
    ⟨rfl, t, ht, hkind.1.1, fun _ => ⟨hkind.1.2, hkind.2⟩⟩
  have hread : ((s.skipComments.readBody? settings.checks s.comment?).any fun read =>
      read.2.pending.any fun b => b.slot == .field ⟨⟨0⟩, 0⟩ && !b.name.path.isEmpty) = true := by
    decide +kernel
  obtain ⟨⟨id, s'⟩, hbody, hwaits⟩ := (Option.any_eq_true _ _).1 hread
  obtain ⟨b, hmem, hslotted⟩ := List.any_eq_true.1 hwaits
  obtain ⟨hb, hpath⟩ := Bool.and_eq_true_iff.1 hslotted
  have hpath : b.name.path ≠ [] := by simpa using hpath
  exact ⟨b, beq_iff_eq.1 hb, hpath, late_qualified_names_are_found_unless_overtaken
    Check.reports_standard (.refl : Reached settings none tokens _) (by decide +kernel)
    (.within hd (State.readsBody_of_readBody? hbody) hmem) hpath⟩

/-- The name is bound behind the import of a source of another package; a structure that it means
rather is declared behind that in its own package. -/
theorem late_qualified_name_is_overtaken :
    let shelf : Shelf :=
      { texts := [("x", "package p; structure S \x7b Outer.Inner f; \x7d"),
          ("y", "package q; structure Outer \x7b enum Inner \x7b a; \x7d \x7d")] }
    let settings : Settings := { provider := some shelf.provider }
    let root := SourceId.ofValue "r"
    let tokens := Token.tokenize ("import \x22x\x22; import \x22y\x22; package p; " ++
      "structure Outer \x7b enum Inner \x7b b; \x7d \x7d")
    let outcome := settings.readTokens (some root) tokens
    outcome.ok = true ∧ ∃ m b, Reached settings (some root) tokens m ∧
      m.Awaited settings.checks b ∧ b.name.path = ["Outer"] ∧
      outcome.document.slot? b.slot = some (some (.enum ⟨0⟩)) ∧
      outcome.document.findType? b.package b.name.path b.scope b.name.last.text =
        some (.enum ⟨1⟩) := by
  intro shelf settings root tokens outcome
  refine ⟨by decide +kernel, ?_⟩
  let s : State := .root (some root) tokens
  let holds (b : Binding) : Bool :=
    b.name.path == ["Outer"] && outcome.document.slot? b.slot == some (some (.enum ⟨0⟩)) &&
      outcome.document.findType? b.package b.name.path b.scope b.name.last.text ==
        some (.enum ⟨1⟩)
  have hround : (match statementRound settings (source settings 65) true s with
    | .ok (.again true) s' => decide (s'.remaining < s.remaining) && s'.pending.any holds
    | _ => false) = true := by decide +kernel
  split at hround
  · rename_i s' hs'
    obtain ⟨hlt, hwaits⟩ := Bool.and_eq_true_iff.1 hround
    obtain ⟨b, hmem, hb⟩ := List.any_eq_true.1 hwaits
    simp only [holds, Bool.and_eq_true, beq_iff_eq] at hb
    exact ⟨⟨65, [], true, s'⟩, b, .single (.past hs' (of_decide_eq_true hlt)), .between hmem,
      hb.1.1, hb.1.2, hb.2⟩
  · cases hround

end Moment

end Grammar

end Idl
