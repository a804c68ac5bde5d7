import Idl.Proofs.Course.Move
import Idl.Proofs.Session.Clean

/-!
Names that are deferred, in a session without an error. While a name waits it means neither a
builtin nor an enumeration nested in its structure, and in the source that is read it means no
type of its own package either. So when it is bound, it is bound to the type that goes on to be
found for it.
-/

namespace Idl

/-- A name waits, or its slot holds what it means, whatever else is declared. -/
inductive Binding.Accounted (b : Binding) (d : Document) (ws : List Binding) : Prop where
  | waits (h : b ∈ ws)
  | settled {t : DataType} (hs : ∀ id, b.scope = some id → id.index < d.structures.size)
      (hslot : d.slot? b.slot = some (some t)) (ht : b.Settles d t)

namespace Session

/-- A session that ends well has reported no error on its way. -/
theorem clean_of_ok {s : Session} {checks : List Check} {pending : List Binding}
    (h : (s.finish checks pending).ok = true) :
    Message.hasError (s.settled checks pending).messages = false := by
  rw [finish_eq] at h
  split at h
  · cases h
  · rename_i hclean
    rw [Bool.not_eq_true] at hclean
    exact Message.hasError_of_prefix (List.prefix_append _ _) hclean

end Session

namespace Grammar

/-- The unqualified names that wait mean nothing nearer than a type of their own package, and those
of the source that is read not even that. -/
structure Awaits (d : Document) (others pending : List Binding) : Prop where
  outer : ∀ b ∈ others ++ pending, b.name.path = [] → b.Outer d
  alone : ∀ b ∈ pending, b.name.path = [] → b.own? d = none

variable {d d' : Document} {others pending : List Binding}

theorem Awaits.of_extends (h : Awaits d others pending) (he : d.Extends d')
    (hd : d.Sound (others ++ pending)) (ht : d'.typeNames = d.typeNames) :
    Awaits d' others pending where
  outer b hb hp := (h.outer b hb hp).of_extends he hd.linked (hd.scopes b hb)
  alone b hb hp := (Binding.own?_of_extends he hd.linked ht).trans (h.alone b hb hp)

/-- Between two documents names were settled as they should be. -/
structure Advances (d : Document) (ws : List Binding) (d' : Document)
    (others pending : List Binding) : Prop where
  awaits : Awaits d' others pending
  known : d.Extends d'
  grows : d.Grows d'
  accounted : ∀ b ∈ ws, b.name.path = [] → b.Accounted d' (others ++ pending)

theorem Advances.carries {ws : List Binding} {b : Binding}
    (h : Advances d ws d' others pending) (hd : d.Linked) (hp : b.name.path = [])
    (hb : b.Accounted d ws) : b.Accounted d' (others ++ pending) := by
  cases hb with
  | waits hb => exact h.accounted b hb hp
  | settled hs hslot ht =>
    exact .settled (fun id hid => Nat.lt_of_lt_of_le (hs id hid) h.known.extent.1)
      (h.grows.filled _ _ hslot) (ht.of_extends h.known hd hs)

theorem Advances.trans {ws others' pending' : List Binding} {d'' : Document}
    (h : Advances d ws d' others pending)
    (h' : Advances d' (others ++ pending) d'' others' pending')
    (hd : d'.Linked) : Advances d ws d'' others' pending' where
  awaits := h'.awaits
  known := h.known.trans h'.known
  grows := h.grows.trans h'.grows
  accounted b hb hp := h'.carries hd hp (h.accounted b hb hp)

/-- No name is settled while nothing is registered. -/
theorem Awaits.advances (h : Awaits d others pending) (he : d.Extends d') (hg : d.Grows d')
    (hd : d.Sound (others ++ pending)) (ht : d'.typeNames = d.typeNames) :
    Advances d (others ++ pending) d' others pending :=
  ⟨h.of_extends he hd ht, he, hg, fun _ hb _ => .waits hb⟩

section Settle

variable {checks : List Check} (hc : ∀ check ∈ checks, check.Reports) {s : Session}
  {find : Session → Binding → Option DataType}

include hc

/-- Names are settled as they should be if each that is found is found for good, and each that is
not means no type of its own package. -/
theorem advances_settle
    (hfind : ∀ (s s' : Session) b, s.document.Alike s'.document → find s' b = find s b)
    (hs : s.document.Sound (others ++ pending))
    (hnamed : ∀ b t, find s b = some t → t.Named s.document.extent)
    (houter : ∀ b ∈ others ++ pending, b.name.path = [] → b.Outer s.document)
    (hfound : ∀ b ∈ pending, b.name.path = [] → ∀ t, find s b = some t → b.own? s.document = some t)
    (hleft : ∀ b ∈ pending, b.name.path = [] → find s b = none → b.own? s.document = none)
    (hok : Message.hasError (s.settle checks find pending).1.messages = false) :
    Advances s.document (others ++ pending) (s.settle checks find pending).1.document others
      (s.settle checks find pending).2 := by
  obtain ⟨halike, hkept⟩ := Session.settle_of_clean hc hfind hok
  obtain ⟨hgrows, hslots⟩ := Session.slots_settle_of_clean hc hfind hs hnamed hok
  have he := halike.toExtends
  rw [hkept]
  refine ⟨⟨fun b hb hp => ?_, fun b hb hp => ?_⟩, he, hgrows, fun b hb hp => ?_⟩
  · have hb' : b ∈ others ++ pending := by
      rcases List.mem_append.1 hb with hb | hb
      · exact List.mem_append_left _ hb
      · exact List.mem_append_right _ (List.mem_filter.1 hb).1
    exact (houter b hb' hp).of_extends he hs.linked (hs.scopes b hb')
  · obtain ⟨hb, hnone⟩ := List.mem_filter.1 hb
    rw [Binding.own?_of_extends he hs.linked halike.typeNames]
    exact hleft b hb hp (Option.isNone_iff_eq_none.1 hnone)
  · rcases List.mem_append.1 hb with ho | hw
    · exact .waits (List.mem_append_left _ ho)
    · cases hf : find s b with
      | none =>
        exact .waits (List.mem_append_right _ (List.mem_filter.2 ⟨hw, by rw [hf]; rfl⟩))
      | some t =>
        have hsettles : b.Settles s.document t := .own (houter b hb hp) (hfound b hw hp t hf)
        refine .settled (fun id hid => ?_) (hslots b hw t hf).1
          (hsettles.of_extends he hs.linked (hs.scopes b hb))
        exact Nat.lt_of_lt_of_le (hs.scopes b hb id hid) he.extent.1

/-- A type that has just been registered settles the names of its package that mean it. -/
theorem advances_register {x : Declaration} {t : DataType} (hx : x.type? = some t)
    (hbelow : x.Below s.document.extent) (hs : s.document.Sound (others ++ pending))
    (ha : Awaits s.document others pending)
    (hok : Message.hasError
      ((s.modifyDocument (·.register x)).settleRegistered checks t pending).1.messages = false) :
    Advances s.document (others ++ pending)
      ((s.modifyDocument (·.register x)).settleRegistered checks t pending).1.document others
      ((s.modifyDocument (·.register x)).settleRegistered checks t pending).2 := by
  let s₁ := s.modifyDocument (·.register x)
  have hs₁ : s₁.document.Sound (others ++ pending) := Document.Sound.register hs hbelow
  have he : s.document.Extends s₁.document := s.document.extends_register x
  have hname : s₁.document.coreName t = s.document.nameText x := by
    cases x <;> cases hx <;> rfl
  have hpackage : s₁.document.packageOf? t = s.document.packageOf? t := by cases t <;> rfl
  have hown (b : Binding) (hb : b ∈ pending) (hp : b.name.path = []) :
      b.own? s₁.document = s₁.findRegistered t b := by
    refine (Binding.own?_register hx).trans ?_
    rw [ha.alone b hb hp, Option.none_or, Session.findRegistered, hname, hpackage,
      Package.same_comm]
    simp only [Binding.accepts, Binding.bindsEarly, hp, List.isEmpty_nil, Bool.true_or,
      Bool.and_true, Bool.not_true, Bool.false_or, Bool.and_eq_true, beq_iff_eq,
      eq_comm (a := b.name.last.text)]
  have hsettle := advances_settle hc (s := s₁) (fun _ _ _ _ => rfl) hs₁ (fun b u hu => ?_)
    (fun b hb hp => (ha.outer b hb hp).of_extends he hs.linked (hs.scopes b hb))
    (fun b hb hp u hu => (hown b hb hp).trans hu) (fun b hb hp hu => (hown b hb hp).trans hu) hok
  · exact ⟨hsettle.awaits, he.trans hsettle.known,
      (s.document.grows_register x).trans hsettle.grows, hsettle.accounted⟩
  · obtain ⟨_, rfl⟩ := Session.findRegistered_eq_some hu
    exact Declaration.named_of_type? hx hbelow

/-- When names are looked up again, those that mean a type of their own package are settled. -/
theorem advances_rescan (hs : s.document.Sound (others ++ pending))
    (houter : ∀ b ∈ others ++ pending, b.name.path = [] → b.Outer s.document)
    (hok : Message.hasError (s.settleAll checks false pending).1.messages = false) :
    Advances s.document (others ++ pending) (s.settleAll checks false pending).1.document others
      (s.settleAll checks false pending).2 := by
  have hfind (b : Binding) (hb : b ∈ pending) (hp : b.name.path = []) :
      s.findAgain false b = b.own? s.document := by
    rw [Session.findAgain, Binding.find?_of_outer hp (houter b (List.mem_append_right _ hb) hp)]
    exact Binding.filter_or_eq_own? hp
  exact advances_settle hc Session.findAgain_alike hs (Session.named_of_findAgain hs.linked) houter
    (fun b hb hp t hf => (hfind b hb hp).symm.trans hf)
    (fun b hb hp hf => (hfind b hb hp).symm.trans hf) hok

/-- Without an error every name that waits at the end is settled: a type of another package is
taken as well. -/
theorem find?_of_finish {pending : List Binding} (hs : s.document.Sound pending)
    (hok : (s.finish checks pending).ok = true) {b : Binding} (hp : b.name.path = [])
    (hb : b.Accounted s.document pending) :
    ∃ t, (s.finish checks pending).document.slot? b.slot = some (some t) ∧
      b.find? (s.finish checks pending).document = some t := by
  have hclean := Session.clean_of_ok hok
  obtain ⟨halike, hkept⟩ := Session.settle_of_clean hc Session.findAgain_alike hclean
  have hwaits : s.document.Sound ([] ++ pending) := hs
  obtain ⟨hgrows, hslots⟩ := Session.slots_settle_of_clean hc Session.findAgain_alike hwaits
    (Session.named_of_findAgain hs.linked) hclean
  rw [Session.document_finish]
  cases hb with
  | waits hb =>
    cases hf : b.find? s.document with
    | some t =>
      have hslot := (hslots b hb t ((s.findAgain_true b).trans hf)).1
      exact ⟨t, hslot, (halike.find?_eq b).trans hf⟩
    | none =>
      have hleft : s.left checks pending = [] := s.left_eq_nil_of_ok checks pending hok
      have hkeeps : b ∈ pending.filter fun b => (s.findAgain true b).isNone :=
        List.mem_filter.2 ⟨hb, by rw [s.findAgain_true, hf]; rfl⟩
      have hmem : b ∈ s.left checks pending := by rwa [← hkept] at hkeeps
      rw [hleft] at hmem
      exact absurd hmem List.not_mem_nil
  | @settled t hscope hslot ht =>
    exact ⟨t, hgrows.filled _ _ hslot,
      (ht.of_extends halike.toExtends hs.linked hscope).find?_eq hp⟩

end Settle

section Declaration

variable {checks : List Check} (hc : ∀ check ∈ checks, check.Reports) {s s' : State}
  {comment : Option Comment} {x : Declaration}

/-- In what is only read nothing is settled. -/
theorem Awaits.advances_reads (h : Awaits s.document others s.pending) (hs : s.Sound others)
    (hr : s.Reads s') :
    Advances s.document (others ++ s.pending) s'.document others s'.pending := by
  rw [hr.document, hr.pending]
  exact h.advances (.refl _) (.refl _) hs rfl

/-- A name that waits in front of a declaration waits behind it. -/
theorem State.waits_behind_declaration (hs : s.Sound others)
    (hp : declaration checks comment s = .ok x s') {b : Binding} (hb : b ∈ s.pending) :
    b ∈ s'.pending := by
  obtain ⟨he, _⟩ := After.of_ok (builds_declaration hs.ready comment) hp
  have hwaiting : s'.pending.take s.pending.length = s.pending := by
    have htaken := (he.keeps hs.ready).waiting
    rwa [State.mark, List.take_length] at htaken
  exact List.mem_of_mem_take (hwaiting ▸ hb)

include hc

/-- A name that waits behind a declaration has waited before, or it is unknown, and means no
enumeration that is nested in its structure. -/
theorem State.Declared.waits (h : s.Declared checks x s')
    (hok : Message.hasError s'.messages = false) {b : Binding} (hb : b ∈ s'.pending)
    (hp : b.name.path = []) :
    b ∈ s.pending ∨ b.name.Unknown s.document.typeNames ∧ b.nested? s'.document = none := by
  rcases h with hd | ⟨id, s₁, rfl, hd, hr⟩
  · obtain ⟨new, hpending, hnew⟩ := hd.pending
    rw [hpending] at hb
    refine (List.mem_append.1 hb).imp_right fun hb => ?_
    obtain ⟨hscope, _, hunknown⟩ := hnew b hb
    exact ⟨hunknown, by rw [Binding.nested?, hscope]; rfl⟩
  · obtain ⟨new, hpending, hnew⟩ := hd.pending
    obtain ⟨halike, hleft⟩ :=
      Session.settleScope_of_clean hc (Message.hasError_of_prefix hr.messages hok)
    rw [hr.pending] at hb
    obtain ⟨hb, hnested⟩ := hleft b hb
    rw [hpending] at hb
    refine (List.mem_append.1 hb).imp_right fun hb => ?_
    obtain ⟨hscope, _, hunknown⟩ := hnew b hb
    refine ⟨hunknown, ?_⟩
    rw [hr.document]
    have hnone := hnested hp hscope
    rw [Binding.nested?, hscope] at hnone ⊢
    exact (halike.findNested?_eq id _).trans hnone

theorem advances_declaration (hs : s.Sound others) (ha : Awaits s.document others s.pending)
    (hp : declaration checks comment s = .ok x s')
    (hok : Message.hasError s'.messages = false) :
    Advances s.document (others ++ s.pending) s'.document others s'.pending := by
  obtain ⟨he, _⟩ := After.of_ok (builds_declaration hs.ready comment) hp
  have hk := he.keeps hs.ready
  have hgrows := he.grows hs.ready
  have hknown : s.document.Extends s'.document := hk.agree.toExtends hgrows.extent
  have hnames : s'.document.typeNames = s.document.typeNames := hk.agree.typeNames_eq
  have hdeclared : s.Declared checks x s' :=
    (After.of_ok (after_declaration_defers comment s) hp).1
  have hwaits (b : Binding) (hb : b ∈ s'.pending) (hpath : b.name.path = []) :=
    hdeclared.waits hc hok hb hpath
  have hold := ha.of_extends hknown hs hnames
  refine ⟨⟨fun b hb hpath => ?_, fun b hb hpath => ?_⟩, hknown, hgrows, fun b hb _ => .waits ?_⟩
  · rcases List.mem_append.1 hb with hb | hb
    · exact hold.outer b (List.mem_append_left _ hb) hpath
    · rcases hwaits b hb hpath with hb | ⟨hunknown, hnested⟩
      · exact hold.outer b (List.mem_append_right _ hb) hpath
      · exact ⟨(hunknown hpath).1, hnested⟩
  · rcases hwaits b hb hpath with hb | ⟨hunknown, _⟩
    · exact hold.alone b hb hpath
    · exact (Binding.own?_of_extends hknown hs.linked hnames).trans
        (Binding.own?_of_unknown hpath hunknown)
  · rcases List.mem_append.1 hb with hb | hb
    · exact List.mem_append_left _ hb
    · exact List.mem_append_right _ (State.waits_behind_declaration hs hp hb)

/-- A declaration that is registered settles the names that mean it. -/
theorem State.advances_register (hbelow : x.Below s.document.extent) (hs : s.Sound others)
    (ha : Awaits s.document others s.pending)
    (hok : Message.hasError (s.register checks x).messages = false) :
    Advances s.document (others ++ s.pending) (s.register checks x).document others
      (s.register checks x).pending := by
  cases hx : x.type? with
  | none =>
    simp only [State.register, hx] at hok ⊢
    refine ha.advances (s.document.extends_register x) (s.document.grows_register x) hs ?_
    change (s.document.register x).typeNames = _
    simp only [Document.register, hx]
  | some t =>
    simp only [State.register, hx] at hok ⊢
    exact Grammar.advances_register hc hx hbelow hs ha hok

/-- Without an error a declaration that was read passes its checks. -/
theorem State.passed_of_declared (hp : declaration checks comment s = .ok x s')
    (hok : Message.hasError (s.declare checks comment).messages = false) :
    (s'.toSession.visit checks (.declaration x) false).1 = true := by
  cases hpassed : (s'.toSession.visit checks (.declaration x) false).1 with
  | true => rfl
  | false =>
    have hrejected : (s.declare checks comment).messages =
        (s'.toSession.visit checks (.declaration x) false).2.messages := by
      simp only [declare, construct, hp, acceptDeclaration, hpassed, Bool.false_eq_true, if_false]
      rfl
    cases hpassed.symm.trans (Session.passed_of_clean hc (hrejected ▸ hok))

/-- It is registered then. -/
theorem State.declare_of_clean (hp : declaration checks comment s = .ok x s')
    (hok : Message.hasError (s.declare checks comment).messages = false) :
    s.declare checks comment = State.register checks x
      { s' with toSession := (s'.toSession.visit checks (.declaration x) false).2 } := by
  have hpassed := State.passed_of_declared hc hp hok
  have haccept : s.declare checks comment = (acceptDeclaration checks x s').2 :=
    construct_of_accepted hp (by simp only [acceptDeclaration, hpassed, if_true])
  simpa only [acceptDeclaration, hpassed, if_true] using haccept

theorem State.clean_of_declared (hp : declaration checks comment s = .ok x s')
    (hok : Message.hasError (s.declare checks comment).messages = false) :
    Message.hasError s'.messages = false := by
  let visited : State :=
    { s' with toSession := (s'.toSession.visit checks (.declaration x) false).2 }
  have hv : s'.Reads visited := State.reads_visit s' checks (.declaration x) false
  rw [State.declare_of_clean hc hp hok] at hok
  exact Message.hasError_of_prefix (hv.messages.trans (onward_register x visited).messages) hok

/-- When a declaration that was read is registered, the names that mean it are settled. -/
theorem advances_declared (hs : s.Sound others) (hs' : s'.Sound others)
    (ha : Awaits s'.document others s'.pending) (hp : declaration checks comment s = .ok x s')
    (hok : Message.hasError (s.declare checks comment).messages = false) :
    Advances s'.document (others ++ s'.pending) (s.declare checks comment).document others
      (s.declare checks comment).pending := by
  obtain ⟨_, _, hbelow⟩ := After.of_ok (builds_declaration hs.ready comment) hp
  let visited : State :=
    { s' with toSession := (s'.toSession.visit checks (.declaration x) false).2 }
  have heq : s.declare checks comment = visited.register checks x :=
    State.declare_of_clean hc hp hok
  rw [heq] at hok ⊢
  exact State.advances_register (s := visited) hc hbelow hs' ha hok

theorem advances_declare (hs : s.Sound others) (ha : Awaits s.document others s.pending)
    (hok : Message.hasError (s.declare checks comment).messages = false) :
    Advances s.document (others ++ s.pending) (s.declare checks comment).document others
      (s.declare checks comment).pending := by
  cases hp : declaration checks comment s with
  | error e s' => exact ha.advances_reads hs (State.reads_declare_of_broken hs hp)
  | ok x s' =>
    have hs' : s'.Sound others :=
      ((After.of_ok (builds_declaration hs.ready comment) hp).1.ready hs.ready).sound
    have hread := advances_declaration hc hs ha hp (State.clean_of_declared hc hp hok)
    exact hread.trans (advances_declared hc hs hs' hread.awaits hp hok) hs'.linked

end Declaration

section Structure

variable {checks : List Check} {comment : Option Comment} {s s' : State} {id : StructureId}

/-- A structure is read up to the end of its body. -/
inductive State.ReadsBody (checks : List Check) (comment : Option Comment) (s : State)
    (id : StructureId) (s' : State) : Prop where
  | intro {taken : List Token} {s₁ s₂ : State}
      (ht : modifiers declarationModifiers s = .ok taken s₁)
      (hf : (s₁.current.bind fun t => DeclarationForm.ofKeyword? t.text) = some .struct)
      (hh : structureHeader comment taken s₁ = .ok id s₂)
      (hb : body "structure" (structureItem checks id) s₂ = .ok () s')

/-- The structure that is declared first, and the state at the end of its body. -/
def State.readBody? (checks : List Check) (comment : Option Comment) (s : State) :
    Option (StructureId × State) :=
  match modifiers declarationModifiers s with
  | .ok taken s₁ =>
    if (s₁.current.bind fun t => DeclarationForm.ofKeyword? t.text) == some .struct then
      match structureHeader comment taken s₁ with
      | .ok id s₂ =>
        match body "structure" (structureItem checks id) s₂ with
        | .ok _ s' => some (id, s')
        | .error _ _ => none
      | .error _ _ => none
    else none
  | .error _ _ => none

theorem State.readsBody_of_readBody? (h : s.readBody? checks comment = some (id, s')) :
    s.ReadsBody checks comment id s' := by
  unfold readBody? at h
  split at h
  · rename_i taken s₁ ht
    split at h
    · rename_i hf
      split at h
      · rename_i o s₂ hh
        split at h
        · rename_i s₃ hb
          cases h
          exact ⟨ht, beq_iff_eq.1 hf, hh, hb⟩
        · cases h
      · cases h
    · cases h
  · cases h

namespace State.ReadsBody

theorem sound (h : s.ReadsBody checks comment id s') (hs : s.Sound others) : s'.Sound others := by
  obtain @⟨taken, s₁, s₂, ht, _, hh, hb⟩ := h
  have hs₁ := hs.ready.reads ((quiet_modifiers _ _).of_ok ht)
  obtain ⟨he, hid, hlt⟩ : Edits checks s.mark s₁ s₂ ∧ _ :=
    After.of_ok (builds_structureHeader hs₁ comment taken) hh
  have hs₂ := he.ready hs₁
  have hbody : Builds checks s.mark s.mark (body "structure" (structureItem checks id)) s₂ _ :=
    builds_body hs₂ fun comment t s' hs' g _ _ => by
      have hlt' := Nat.lt_of_lt_of_le hlt g.extent.1
      exact .inl (edits_structureItem hs'.sound hs'.mark hid hlt' comment t)
  exact ((After.of_ok hbody hb).1.ready hs₂).sound

theorem defers (h : s.ReadsBody checks comment id s') : s.Defers (some id) s' := by
  obtain @⟨taken, s₁, s₂, ht, _, hh, hb⟩ := h
  have hheader : s₁.Defers (some id) s₂ :=
    ((defers_structureHeader comment taken s₁ rfl).of_ok hh).1
  have hbody : s₂.Defers (some id) s' := (defers_structureBody s₂ rfl).of_ok hb |>.1
  exact ((State.Defers.of_reads ((quiet_modifiers _ _).of_ok ht)).trans hheader).trans hbody

/-- The names in the structure are settled then, and nothing else is left to do. -/
theorem declaration (h : s.ReadsBody checks comment id s') :
    ∃ s'', declaration checks comment s = .ok (.struct id) s'' ∧
      (s'.settle fun session pending => session.settleScope checks id pending).Reads s'' := by
  obtain @⟨taken, s₁, s₂, ht, hf, hh, hb⟩ := h
  let settled := s'.settle fun session pending => session.settleScope checks id pending
  have hstructure : structureDeclaration checks comment taken s₁ = .ok id settled := by
    unfold structureDeclaration
    rw [run_bind_of_ok hh, run_bind_of_ok hb]
    rfl
  have hform : (Declaration.struct <$> structureDeclaration checks comment taken) s₁ =
      .ok (.struct id) settled := by
    simp only [Functor.map, EStateM.map, hstructure]
  have hreports : After (reportModifiers (leftOver taken DeclarationForm.struct.groups)) settled
    _ _ := after_reportModifiers _ settled
  unfold Grammar.declaration
  rw [run_bind_of_ok ht, run_bind_get]
  simp only [hf]
  rw [run_bind_of_ok hform]
  exact ⟨_, rfl, hreports.of_ok rfl⟩

/-- What waits at the end of the body goes on to wait, or means an enumeration in it. -/
theorem accounted (h : s.ReadsBody checks comment id s')
    (hc : ∀ check ∈ checks, check.Reports) (hs : s.Sound others)
    (ha : Awaits s.document others s.pending) {s'' : State}
    (hr : (s'.settle fun session pending => session.settleScope checks id pending).Reads s'')
    (hok : Message.hasError s''.messages = false) {b : Binding} (hb : b ∈ s'.pending)
    (hp : b.name.path = []) : b.Accounted s''.document (others ++ s''.pending) := by
  have hs' := h.sound hs
  have hclean := Message.hasError_of_prefix hr.messages hok
  rw [hr.document, hr.pending]
  rcases Session.slots_settleScope_of_clean hc hs' hclean b hb with hleft | ⟨e, hnested, hslot⟩
  · exact .waits (List.mem_append_right _ hleft)
  · have hbuiltin : Builtin.ofKeyword? b.name.last.text = none := by
      obtain ⟨new, hpending, hnew⟩ := h.defers.pending
      rw [hpending] at hb
      rcases List.mem_append.1 hb with hb | hb
      · exact (ha.outer b (List.mem_append_right _ hb) hp).builtin
      · exact ((hnew b hb).2.2 hp).1
    have hsettles : b.Settles s'.document (.enum e) := .nested hbuiltin hnested rfl
    have hknown := (Session.settleScope_of_clean hc hclean).1.toExtends
    have hscopes := hs'.scopes b (List.mem_append_right _ hb)
    exact .settled (fun o ho => Nat.lt_of_lt_of_le (hscopes o ho) hknown.extent.1) hslot
      (hsettles.of_extends hknown hs'.linked hscopes)

end State.ReadsBody

end Structure

namespace Moment

variable {settings : Settings} {root : Option SourceId} {tokens : List Token} {m m' : Moment}

theorem Declares.awaits {comment : Option Comment} {s : State} (h : m.Declares comment s)
    (ha : Awaits m.document (waitingIn m.importers) m.state.pending) :
    Awaits s.document (waitingIn m.importers) s.pending := by
  cases h.state
  exact ha

/-- Until the last move the names are settled as they should be. -/
theorem Move.advances (h : Move settings m m') (hc : ∀ check ∈ settings.checks, check.Reports)
    (hs : m.situation.Sound) (ha : Awaits m.document (waitingIn m.importers) m.state.pending)
    (hok : Message.hasError m'.state.messages = false) :
    Advances m.document m.waiting m'.document (waitingIn m'.importers) m'.state.pending := by
  cases h with
  | @declare levels importers atHead s s₁ comment h =>
    have hdeclare := advances_declare hc (h.sound hs) (h.awaits ha) hok
    cases h.state
    exact hdeclare
  | @pass levels importers atHead next s s' h =>
    have hpending : s'.pending = s.pending := h.notes.pending
    have hdocument := h.notes.document
    change Advances s.document (waitingIn importers ++ s.pending) s'.document _ s'.pending
    rw [hpending, hdocument]
    exact ha.advances (s.document.alike_note _ _).toExtends (s.document.grows_note _ _) hs rfl
  | @into levels importers s s' i id text h hf =>
    have hread := ha.advances_reads hs h.reads
    have hknown : s'.document.Extends (s'.takeIn i id).document :=
      (s'.document.alike_note _ s'.document.package).toExtends
    have hs' : s'.Sound (waitingIn importers) := State.Sound.reads hs h.reads
    have hawaits := hread.awaits.of_extends hknown hs' rfl
    refine hread.trans ⟨⟨fun b hb hp => ?_, fun b hb => absurd hb List.not_mem_nil⟩, hknown,
      s'.document.grows_note _ s'.document.package, fun b hb _ => .waits ?_⟩ hs'.linked
    · have hmem : b ∈ (waitingIn importers ++ s'.pending) ++ [] := hb
      rw [List.append_nil] at hmem
      exact hawaits.outer b hmem hp
    · exact List.mem_append_left _ hb
  | @out levels importer importers atHead s h =>
    have hread := ha.advances_reads hs s.reads_ended
    have hs' : s.ended.Sound (waitingIn (importer :: importers)) :=
      State.Sound.reads hs s.reads_ended
    have hassoc : waitingIn (importer :: importers) ++ s.ended.pending =
        waitingIn importers ++ (importer.pending ++ s.ended.pending) := List.append_assoc _ _ _
    refine hread.trans ?_ hs'.linked
    have houter := hread.awaits.outer
    rw [State.Sound, hassoc] at hs'
    rw [hassoc] at houter ⊢
    exact advances_rescan (s := s.ended.toSession) hc hs' houter hok

theorem Moves.advances (h : Moves settings m m') (hc : ∀ check ∈ settings.checks, check.Reports)
    (hs : m.situation.Sound) (ha : Awaits m.document (waitingIn m.importers) m.state.pending)
    (hok : Message.hasError m'.state.messages = false) :
    Advances m.document m.waiting m'.document (waitingIn m'.importers) m'.state.pending := by
  induction h with
  | refl => exact ha.advances (.refl _) (.refl _) hs rfl
  | tail h hmove ih =>
    have hs' := Moves.sound h hs
    have hbefore := ih (Message.hasError_of_prefix (hmove.messages hs') hok)
    exact hbefore.trans (hmove.advances hc hs' hbefore.awaits hok) hs'.linked

/-- A name that did not resolve when it was read waits between two statements, behind the
declaration that was read last, or in a structure up to the end of its body. -/
inductive Awaited (checks : List Check) (m : Moment) (b : Binding) : Prop where
  | between (h : b ∈ m.waiting)
  | behind {comment : Option Comment} {x : Declaration} {s s' : State}
      (hd : m.Declares comment s) (hp : declaration checks comment s = .ok x s')
      (hb : b ∈ s'.pending)
  | within {comment : Option Comment} {id : StructureId} {s s' : State}
      (hd : m.Declares comment s) (hr : s.ReadsBody checks comment id s') (hb : b ∈ s'.pending)

/-- A name that is accounted for behind a declaration stays so when this is registered. -/
theorem Declares.accounted {comment : Option Comment} {x : Declaration} {s s' : State}
    {b : Binding} (h : m.Declares comment s) (hc : ∀ check ∈ settings.checks, check.Reports)
    (hs : m.situation.Sound) (ha : Awaits m.document (waitingIn m.importers) m.state.pending)
    (hread : declaration settings.checks comment s = .ok x s')
    (hok : ∀ m', Move settings m m' → Message.hasError m'.state.messages = false)
    (hp : b.name.path = [])
    (hb : Message.hasError s'.messages = false →
      b.Accounted s'.document (waitingIn m.importers ++ s'.pending)) :
    ∃ m', Move settings m m' ∧ b.Accounted m'.document m'.waiting := by
  obtain ⟨levels, importers, atHead, s₀⟩ := m
  have hs₁ : s.Sound (waitingIn importers) := h.sound hs
  have hs' : s'.Sound (waitingIn importers) :=
    ((After.of_ok (builds_declaration hs₁.ready comment) hread).1.ready hs₁.ready).sound
  have hmove : Move settings ⟨levels, importers, atHead, s₀⟩ _ := .declare h
  have hdeclare := hok _ hmove
  have hclean := State.clean_of_declared hc hread hdeclare
  have hbehind := (advances_declaration hc hs₁ (h.awaits ha) hread hclean).awaits
  have hregister := advances_declared hc hs₁ hs' hbehind hread hdeclare
  exact ⟨_, hmove, hregister.carries hs'.linked hp (hb hclean)⟩

/-- A name that waits is accounted for at the latest when the next statement has been read. -/
theorem Awaited.accounted {b : Binding} (h : m.Awaited settings.checks b)
    (hc : ∀ check ∈ settings.checks, check.Reports) (hs : m.situation.Sound)
    (ha : Awaits m.document (waitingIn m.importers) m.state.pending)
    (hok : ∀ m', Move settings m m' → Message.hasError m'.state.messages = false)
    (hp : b.name.path = []) :
    ∃ m', Moves settings m m' ∧ b.Accounted m'.document m'.waiting := by
  have hsingle : (∃ m', Move settings m m' ∧ b.Accounted m'.document m'.waiting) →
      ∃ m', Moves settings m m' ∧ b.Accounted m'.document m'.waiting :=
    fun ⟨m', hmove, hb⟩ => ⟨m', .single hmove, hb⟩
  cases h with
  | between hb => exact ⟨m, .refl, .waits hb⟩
  | behind hd hread hb =>
    exact hsingle (hd.accounted hc hs ha hread hok hp fun _ =>
      .waits (List.mem_append_right _ hb))
  | within hd hr hb =>
    obtain ⟨s'', hread, hleft⟩ := hr.declaration
    exact hsingle (hd.accounted hc hs ha hread hok hp fun hclean =>
      hr.accounted hc (hd.sound hs) (hd.awaits ha) hleft hclean hb hp)

theorem Reached.clean (hm : Reached settings root tokens m)
    (hok : (settings.readTokens root tokens).ok = true) :
    Message.hasError m.state.messages = false := by
  obtain ⟨m', outcome, hmoves, hconcludes⟩ := hm.exists_conclusion
  have hm' : Reached settings root tokens m' := Relation.ReflTransGen.trans hm hmoves.steps
  rw [hm'.readTokens_eq hconcludes] at hok
  cases hconcludes with
  | ended hi h =>
    have hsettled : m'.state.ended.messages <+: _ :=
      (Session.follows_settleAll settings.checks m'.state.ended.toSession true
        m'.state.ended.pending).messages
    have hended := m'.state.reads_ended.messages.trans hsettled
    exact Message.hasError_of_prefix ((hmoves.messages hm.sound).trans hended)
      (Session.clean_of_ok hok)
  | halted ha h => cases hok

theorem Reached.awaits (hm : Reached settings root tokens m)
    (hc : ∀ check ∈ settings.checks, check.Reports)
    (hok : (settings.readTokens root tokens).ok = true) :
    Awaits m.document (waitingIn m.importers) m.state.pending := by
  have hstart := sound_start settings root tokens
  have hnothing : Awaits (start settings root tokens).document [] [] :=
    ⟨fun b hb => absurd hb List.not_mem_nil, fun b hb => absurd hb List.not_mem_nil⟩
  refine (hm.moves.advances hc hstart ?_ (hm.clean hok)).awaits
  cases root <;> exact hnothing

/-- In a session without an error every unqualified name that did not resolve when it was read
gets the type that is found for it in the final document, wherever it was settled. -/
theorem late_names_are_those_found {b : Binding} (hc : ∀ check ∈ settings.checks, check.Reports)
    (hm : Reached settings root tokens m) (hok : (settings.readTokens root tokens).ok = true)
    (hb : m.Awaited settings.checks b) (hp : b.name.path = []) :
    ∃ t, (settings.readTokens root tokens).document.slot? b.slot = some (some t) ∧
      (settings.readTokens root tokens).document.findType? b.package [] b.scope b.name.last.text =
        some t := by
  have hreached {m₁ m₂ : Moment} (h : Reached settings root tokens m₁) (h' : Moves settings m₁ m₂) :
      Reached settings root tokens m₂ := Relation.ReflTransGen.trans h h'.steps
  obtain ⟨m₁, hmoves, haccounted⟩ := hb.accounted hc hm.sound (hm.awaits hc hok)
    (fun m' h => (hreached hm (.single h)).clean hok) hp
  have hm₁ := hreached hm hmoves
  obtain ⟨m₂, outcome, hmoves₂, hconcludes⟩ := hm₁.exists_conclusion
  have hm₂ := hreached hm₁ hmoves₂
  have hlast := (hmoves₂.advances hc hm₁.sound (hm₁.awaits hc hok) (hm₂.clean hok)).carries
    hm₁.sound.linked hp haccounted
  rw [hm₂.readTokens_eq hconcludes] at hok ⊢
  cases hconcludes with
  | ended hi h =>
    have hr := m₂.state.reads_ended
    have hsound : m₂.state.ended.document.Sound m₂.state.ended.pending := by
      have hsituation : m₂.state.document.Sound (waitingIn m₂.importers ++ m₂.state.pending) :=
        hm₂.sound
      rwa [hi, waitingIn, List.nil_append, ← hr.document, ← hr.pending] at hsituation
    have hwaits : b.Accounted m₂.state.ended.document m₂.state.ended.pending := by
      have haccount : b.Accounted m₂.state.document (waitingIn m₂.importers ++ m₂.state.pending) :=
        hlast
      rwa [hi, waitingIn, List.nil_append, ← hr.document, ← hr.pending] at haccount
    have hfound := find?_of_finish hc hsound hok hp hwaits
    simpa only [Binding.find?, hp] using hfound
  | halted ha h => cases hok

/-- Of two enumerations of the name, the one that is nested in the structure is meant, although
it is declared behind the field. -/
theorem late_names_are_those_found_nested :
    let settings : Settings := {}
    let tokens := Token.tokenize
      "structure A \x7b E e; enum E \x7b x; \x7d \x7d enum E \x7b y; \x7d"
    let d := (settings.readTokens none tokens).document
    d.slot? (.field ⟨⟨0⟩, 0⟩) = some (some (.enum ⟨0⟩)) ∧
      ∃ b : Binding, b.slot = .field ⟨⟨0⟩, 0⟩ ∧
        d.findType? b.package [] b.scope b.name.last.text = some (.enum ⟨0⟩) := by
  intro settings tokens d
  have hslot : d.slot? (.field ⟨⟨0⟩, 0⟩) = some (some (.enum ⟨0⟩)) := by decide +kernel
  refine ⟨hslot, ?_⟩
  let s : State := .root none tokens
  have hword : (s.skipComments.current.any fun t =>
      t.kind == .identifier && !t.isKeyword "import" && !t.isKeyword "package") = true := by
    decide +kernel
  obtain ⟨t, ht, hkind⟩ := (Option.any_eq_true _ _).1 hword
  simp only [Bool.and_eq_true, beq_iff_eq, Bool.not_eq_true'] at hkind
  have hd : (start settings none tokens).Declares s.comment? s.skipComments :=
    ⟨rfl, t, ht, hkind.1.1, fun _ => ⟨hkind.1.2, hkind.2⟩⟩
  have hread : ((s.skipComments.readBody? settings.checks s.comment?).any fun read =>
      read.2.pending.any fun b => b.slot == .field ⟨⟨0⟩, 0⟩ && b.name.path.isEmpty) = true := by
    decide +kernel
  obtain ⟨⟨id, s'⟩, hbody, hwaits⟩ := (Option.any_eq_true _ _).1 hread
  obtain ⟨b, hmem, hslotted⟩ := List.any_eq_true.1 hwaits
  obtain ⟨hb, hpath⟩ := Bool.and_eq_true_iff.1 hslotted
  have hb : b.slot = .field ⟨⟨0⟩, 0⟩ := beq_iff_eq.1 hb
  obtain ⟨u, hu, hfound⟩ := late_names_are_those_found Check.reports_standard
    (.refl : Reached settings none tokens _) (by decide +kernel)
    (.within hd (State.readsBody_of_readBody? hbody) hmem) (List.isEmpty_iff.1 hpath)
  rw [hb, hslot] at hu
  cases hu
  exact ⟨b, hb, hfound⟩

end Moment

end Grammar

end Idl
