import Idl.Proofs.Document.Meaning

/-!
Sessions without an error. A check that fails says why, so where no error was reported nothing
was shed: to bind a name has filled its slot and nothing else, and names go on to mean the same.
-/

namespace Idl

namespace Message

variable {messages more : List Message}

theorem hasError_append : hasError (messages ++ more) = (hasError messages || hasError more) :=
  List.any_append

theorem hasError_of_prefix (h : messages <+: more) (hok : hasError more = false) :
    hasError messages = false := by
  obtain ⟨rest, rfl⟩ := h
  rw [hasError_append, Bool.or_eq_false_iff] at hok
  exact hok.1

end Message

namespace Check

/-- A check that fails has reported an error. -/
def Reports (check : Check) : Prop :=
  ∀ d subject, (check.run d subject).passed = false →
    Message.hasError (check.run d subject).messages = true

theorem hasError_runAll {checks : List Check} (hc : ∀ check ∈ checks, check.Reports)
    {d : Document} {subject : Subject} (h : (runAll checks d subject).passed = false) :
    Message.hasError (runAll checks d subject).messages = true := by
  have general (verdicts : List Verdict) (start : Verdict)
      (hv : ∀ v ∈ verdicts, v.passed = false → Message.hasError v.messages = true)
      (hs : start.passed = false → Message.hasError start.messages = true)
      (hf : (verdicts.foldl Verdict.and start).passed = false) :
      Message.hasError (verdicts.foldl Verdict.and start).messages = true := by
    induction verdicts generalizing start with
    | nil => exact hs hf
    | cons v rest ih =>
      refine ih _ (fun w hw => hv w (List.mem_cons_of_mem v hw)) (fun hand => ?_) hf
      rw [Verdict.and, Message.hasError_append, Bool.or_eq_true]
      rcases Bool.and_eq_false_iff.1 hand with hand | hand
      · exact .inl (hs hand)
      · exact .inr (hv v List.mem_cons_self hand)
  refine general _ {} (fun v hv => ?_) (fun h => by cases h) h
  obtain ⟨check, hcheck, rfl⟩ := List.mem_map.1 hv
  exact hc check hcheck d subject

/-- The verdicts of the standard checks are drawn from their messages. -/
theorem passed_eq_of_standard {check : Check} (hcheck : check ∈ standard) (d : Document)
    (subject : Subject) :
    (check.run d subject).passed = !Message.hasError (check.run d subject).messages := by
  simp only [standard, List.mem_cons, List.not_mem_nil, or_false] at hcheck
  rcases hcheck with rfl | rfl | rfl | rfl | rfl | rfl
  all_goals
    simp only [enumerationParameter, identifierParameter, parameterType, structureFields,
      structureSharable, enumerationValues, duplicateDeclaration]
    repeat' split
    all_goals rfl

theorem reports_standard : ∀ check ∈ standard, check.Reports := by
  intro check hcheck d subject h
  rw [passed_eq_of_standard hcheck] at h
  simpa using h

end Check

namespace Session

variable {checks : List Check} (hc : ∀ check ∈ checks, check.Reports) {s : Session}

include hc

theorem passed_of_clean {subject : Subject} {late : Bool}
    (hok : Message.hasError (s.visit checks subject late).2.messages = false) :
    (s.visit checks subject late).1 = true := by
  refine Decidable.byContradiction fun hfailed => ?_
  rw [Bool.not_eq_true] at hfailed
  simp only [visit_eq] at hok hfailed
  rw [Message.hasError_append, Bool.or_eq_false_iff] at hok
  have hcalled : ∀ check ∈ Check.called checks late, check.Reports :=
    fun check h => hc check (Check.mem_of_mem_called h)
  exact Bool.false_ne_true (hok.2.symm.trans (Check.hasError_runAll hcalled hfailed))

theorem document_recheck_of_clean {x : Declaration}
    (hok : Message.hasError (s.recheck checks x).messages = false) :
    (s.recheck checks x).document = s.document := by
  unfold recheck at hok ⊢
  split
  · rename_i hchecked
    rw [if_pos hchecked] at hok
    have hclean : Message.hasError (s.visit checks (.declaration x) true).2.messages = false := by
      simp only at hok
      split at hok <;> exact hok
    have hpassed := passed_of_clean hc hclean
    simp only [hpassed, if_true]
    rfl
  · rfl

omit hc

theorem document_recheckDefault_of_clean {f : FieldRef} {t : DataType}
    {default : Option Default}
    (hok : Message.hasError (s.recheckDefault f t default).messages = false) :
    (s.recheckDefault f t default).document = s.document := by
  unfold recheckDefault at hok ⊢
  split
  · rename_i fault hfault
    obtain ⟨x, _, hx⟩ := Option.bind_eq_some_iff.1 hfault
    rw [hfault] at hok
    have herror : Message.hasError (s.messages ++ [fault]) = true := by
      rw [Message.hasError_append]
      simp [Message.hasError, Document.severity_of_defaultFault? hx]
    exact absurd (hok.symm.trans herror) Bool.false_ne_true
  · rfl

theorem document_recheckAlters_of_clean {f : FieldRef} {t : DataType}
    (hok : Message.hasError (s.recheckAlters f t).messages = false) :
    (s.recheckAlters f t).document = s.document := by
  have hnone : s.document.alterFaults f t = [] := by
    refine List.eq_nil_iff_forall_not_mem.2 fun fault hfault => ?_
    have hmem : fault.2 ∈ (s.recheckAlters f t).messages :=
      List.mem_append_right _ (List.mem_map_of_mem hfault)
    have herror : fault.2.severity = .error := by
      obtain ⟨_, hm⟩ := Document.defaultFault?_of_mem_alterFaults hfault
      exact Document.severity_of_defaultFault? hm
    have hall := List.any_eq_false.1 hok fault.2 hmem
    simp [herror] at hall
  simp only [recheckAlters, hnone]
  rfl

theorem document_recheckDefaults_of_clean {f : FieldRef}
    (hok : Message.hasError (s.recheckDefaults f).messages = false) :
    (s.recheckDefaults f).document = s.document := by
  unfold recheckDefaults at hok ⊢
  split
  · rename_i hfield
    simp only [hfield] at hok
    have hown := Message.hasError_of_prefix (List.prefix_append _ _) hok
    exact (document_recheckAlters_of_clean hok).trans (document_recheckDefault_of_clean hown)
  · rfl

theorem document_recheckSlot_of_clean {slot : Slot}
    (hok : Message.hasError (s.recheckSlot slot).messages = false) :
    (s.recheckSlot slot).document = s.document := by
  cases slot with
  | field f => exact document_recheckDefaults_of_clean hok
  | _ => rfl

include hc

theorem document_bind_of_clean {b : Binding} {t : DataType}
    (hok : Message.hasError (s.bind checks b t).messages = false) :
    (s.bind checks b t).document = s.document.fill b.slot t := by
  rw [bind_eq] at hok ⊢
  have hslot := Message.hasError_of_prefix (follows_recheckOwner _ checks b.owner?).messages hok
  have howner : ((s.modifyDocument (·.fill b.slot t)).recheckSlot b.slot |>.recheckOwner checks
      b.owner?).document = ((s.modifyDocument (·.fill b.slot t)).recheckSlot b.slot).document := by
    cases hb : b.owner? with
    | none => rfl
    | some x =>
      rw [hb] at hok
      exact document_recheck_of_clean hc hok
  exact howner.trans (document_recheckSlot_of_clean hslot)

variable {find : Session → Binding → Option DataType}
  (hfind : ∀ (s s' : Session) b, s.document.Alike s'.document → find s' b = find s b)

include hfind

/-- Without an error it does not matter in which order names are settled: all mean what they
meant at first. -/
theorem settle_of_clean {pending : List Binding}
    (hok : Message.hasError (s.settle checks find pending).1.messages = false) :
    s.document.Alike (s.settle checks find pending).1.document ∧
      (s.settle checks find pending).2 = pending.filter fun b => (find s b).isNone := by
  induction pending generalizing s with
  | nil => exact ⟨.refl _, rfl⟩
  | cons b rest ih =>
    rw [settle] at hok ⊢
    cases hb : find s b with
    | some t =>
      simp only [hb] at hok ⊢
      have hbind := Message.hasError_of_prefix (follows_settle _ rest).messages hok
      have halike : s.document.Alike (s.bind checks b t).document := by
        rw [document_bind_of_clean hc hbind]
        exact s.document.alike_fill b.slot t
      obtain ⟨hrest, hkept⟩ := ih hok
      refine ⟨halike.trans hrest, ?_⟩
      rw [hkept, List.filter_cons, hb]
      simp only [hfind _ _ _ halike, Option.isNone_some, Bool.false_eq_true, if_false]
    | none =>
      simp only [hb] at hok ⊢
      obtain ⟨hrest, hkept⟩ := ih hok
      exact ⟨hrest, by rw [hkept, List.filter_cons, hb]; rfl⟩

/-- The names that mean something get what they mean, each of them in a session in which all names
mean what they meant at first and go on to mean. -/
theorem slots_settle_of_clean {others pending : List Binding}
    (hs : s.document.Sound (others ++ pending))
    (hnamed : ∀ b t, find s b = some t → t.Named s.document.extent)
    (hok : Message.hasError (s.settle checks find pending).1.messages = false) :
    s.document.Grows (s.settle checks find pending).1.document ∧
      ∀ b ∈ pending, ∀ t, find s b = some t →
        (s.settle checks find pending).1.document.slot? b.slot = some (some t) ∧
        ∃ s' : Session, Finds checks find s pending s' b t ∧ s'.document.Linked ∧
          s.document.Alike s'.document ∧
          s'.document.Alike (s.settle checks find pending).1.document := by
  induction pending generalizing s others with
  | nil => exact ⟨.refl _, fun b hb => absurd hb List.not_mem_nil⟩
  | cons b rest ih =>
    rw [settle] at hok ⊢
    cases hb : find s b with
    | some t =>
      simp only [hb] at hok ⊢
      have hbind := Message.hasError_of_prefix (follows_settle _ rest).messages hok
      have hdocument := document_bind_of_clean hc hbind
      have halike : s.document.Alike (s.bind checks b t).document := by
        rw [hdocument]
        exact s.document.alike_fill b.slot t
      have hfront := hs.perm (Document.perm_waiting others [] b rest)
      have hsame (b' : Binding) := hfind _ _ b' halike
      have hrest : (s.bind checks b t).document.Sound (others ++ rest) :=
        hfront.bind checks (hnamed b t hb)
      obtain ⟨hgrows, hfilled⟩ := ih hrest
        (fun b' u hu => by
          rw [halike.extent]
          exact hnamed b' u (hsame b' ▸ hu)) hok
      have hlast := halike.trans (settle_of_clean hc hfind hok).1
      refine ⟨(hfront.grows_bind checks t).trans hgrows, fun b' hb' u hu => ?_⟩
      rcases List.mem_cons.1 hb' with rfl | hb'
      · cases hb.symm.trans hu
        refine ⟨hgrows.filled _ _ ?_, s, .here hb, hs.linked, .refl _, hlast⟩
        have hopen : s.document.IsOpen b'.slot :=
          (hfront.waiting.slots _).1 (List.mem_map_of_mem List.mem_cons_self)
        rw [hdocument, Document.slot?_fill _ t hopen.isSome, if_pos rfl]
      · obtain ⟨hslot, s', hfinds, hlinked, hfirst, hrest⟩ :=
          hfilled b' hb' u ((hsame b').trans hu)
        exact ⟨hslot, s', .behind hb hfinds, hlinked, halike.trans hfirst, hrest⟩
    | none =>
      simp only [hb] at hok ⊢
      have hrest : s.document.Sound (others ++ [b] ++ rest) := by simpa using hs
      obtain ⟨hgrows, hfilled⟩ := ih hrest hnamed hok
      refine ⟨hgrows, fun b' hb' u hu => ?_⟩
      rcases List.mem_cons.1 hb' with rfl | hb'
      · cases hb.symm.trans hu
      · obtain ⟨hslot, s', hfinds, hrest⟩ := hfilled b' hb' u hu
        exact ⟨hslot, s', .past hb hfinds, hrest⟩

omit hc hfind

/-- Names that are looked up again mean the same in documents that are alike. -/
theorem findAgain_alike {last : Bool} (s s' : Session) (b : Binding)
    (h : s.document.Alike s'.document) :
    s'.findAgain last b = s.findAgain last b := by
  simp only [findAgain, h.find?_eq, h.packageOf?_eq]

theorem named_of_findAgain {last : Bool} (hs : s.document.Linked) (b : Binding) (t : DataType)
    (hb : s.findAgain last b = some t) : t.Named s.document.extent :=
  hs.named (Document.means_of_findType? (Option.filter_eq_some_iff.1 hb).1)

include hc

/-- When names are looked up again, all go on to mean the same, and nothing gets lost. -/
theorem settleAll_of_clean (last : Bool) {others pending : List Binding}
    (hs : s.document.Sound (others ++ pending))
    (hok : Message.hasError (s.settleAll checks last pending).1.messages = false) :
    s.document.Alike (s.settleAll checks last pending).1.document ∧
      s.document.Grows (s.settleAll checks last pending).1.document :=
  ⟨(settle_of_clean hc findAgain_alike hok).1,
    (slots_settle_of_clean hc findAgain_alike hs (named_of_findAgain hs.linked) hok).1⟩

/-- What is left at the end of a structure means no enumeration that is nested in it. -/
theorem settleScope_of_clean {scope : StructureId} {pending : List Binding}
    (hok : Message.hasError (s.settleScope checks scope pending).1.messages = false) :
    s.document.Alike (s.settleScope checks scope pending).1.document ∧
      ∀ b ∈ (s.settleScope checks scope pending).2, b ∈ pending ∧
        (b.name.path = [] → b.scope = some scope → b.nested? s.document = none) := by
  simp only [settleScope, List.partition_eq_filter_filter] at hok ⊢
  obtain ⟨halike, hkept⟩ := settle_of_clean hc (fun s s' b h => by rw [h.findNested?_eq]) hok
  refine ⟨halike, fun b hb => ?_⟩
  rw [hkept] at hb
  rcases List.mem_append.1 hb with hb | hb
  · obtain ⟨hb, hnot⟩ := List.mem_filter.1 hb
    refine ⟨hb, fun hp hscope => ?_⟩
    simp [hp, hscope] at hnot
  · obtain ⟨hb, hnone⟩ := List.mem_filter.1 hb
    refine ⟨(List.mem_filter.1 hb).1, fun _ hscope => ?_⟩
    rw [Binding.nested?, hscope]
    simpa using hnone

/-- What is not left got the enumeration that it means. -/
theorem slots_settleScope_of_clean {scope : StructureId} {others pending : List Binding}
    (hs : s.document.Sound (others ++ pending))
    (hok : Message.hasError (s.settleScope checks scope pending).1.messages = false) :
    ∀ b ∈ pending, b ∈ (s.settleScope checks scope pending).2 ∨
      ∃ id, b.nested? s.document = some id ∧
        (s.settleScope checks scope pending).1.document.slot? b.slot = some (some (.enum id)) := by
  intro b hb
  let p : Binding → Bool := fun b => b.scope == some scope && b.name.path.isEmpty
  simp only [settleScope, List.partition_eq_filter_filter] at hok ⊢
  by_cases hp : p b = true
  · have hfind (s s' : Session) (b : Binding) (h : s.document.Alike s'.document) :
        (s'.document.findNested? scope b.name.last.text).map DataType.enum =
          (s.document.findNested? scope b.name.last.text).map DataType.enum := by
      rw [h.findNested?_eq]
    have hinside : b ∈ pending.filter p := List.mem_filter.2 ⟨hb, hp⟩
    have hperm : (others ++ pending).Perm
        ((others ++ pending.filter fun b => !p b) ++ pending.filter p) := by
      rw [List.append_assoc]
      exact ((List.perm_append_comm.trans (List.filter_append_perm p pending)).symm).append_left _
    cases hn : s.document.findNested? scope b.name.last.text with
    | none =>
      obtain ⟨_, hkept⟩ := settle_of_clean hc hfind hok
      refine .inl (List.mem_append_right _ ?_)
      rw [hkept]
      exact List.mem_filter.2 ⟨hinside, by simp [hn]⟩
    | some id =>
      obtain ⟨_, hslots⟩ := slots_settle_of_clean hc hfind (hs.perm hperm) (fun b t ht => by
        obtain ⟨e, he, rfl⟩ := Option.map_eq_some_iff.1 ht
        exact hs.linked.named (.nested (Document.isNested_of_findNested? he))) hok
      simp only [p, Bool.and_eq_true, beq_iff_eq] at hp
      refine .inr ⟨id, by rw [Binding.nested?, hp.1]; exact hn, ?_⟩
      exact (hslots b hinside (.enum id) (by rw [hn]; rfl)).1
  · rw [Bool.not_eq_true] at hp
    exact .inl (List.mem_append_left _ (List.mem_filter.2 ⟨hb, congrArg not hp⟩))

end Session

end Idl
