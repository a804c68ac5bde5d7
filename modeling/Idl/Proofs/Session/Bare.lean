import Idl.Proofs.Check.Blind
import Idl.Proofs.Session.Bind

/-!
Sessions without comments: the document has none, and no message warns of one. Whatever a session
does after a source was read, it does the same without comments.
-/

namespace Idl

/-- The session without comments and without the warnings of comments. -/
def Session.bare (s : Session) : Session :=
  { s with document := s.document.bare, messages := s.messages.filter (!·.isMisplaced) }

namespace Session

variable (s : Session)

theorem hasError_bare : Message.hasError s.bare.messages = Message.hasError s.messages :=
  Message.hasError_filter s.messages

theorem reportAll_bare {messages : List Message} (h : ∀ m ∈ messages, m.isMisplaced = false) :
    s.bare.reportAll messages = (s.reportAll messages).bare := by
  have hall : messages.filter (!·.isMisplaced) = messages :=
    List.filter_eq_self.2 fun m hm => by rw [h m hm]; rfl
  simp only [reportAll, bare, List.filter_append, hall]

theorem report_bare {m : Message} (h : m.isMisplaced = false) :
    s.bare.report m = (s.report m).bare :=
  s.reportAll_bare fun m' hm => by rwa [List.mem_singleton.1 hm]

theorem modifyDocument_bare {f f' : Document → Document} (h : ∀ d, (f d).bare = f' d.bare) :
    s.bare.modifyDocument f' = (s.modifyDocument f).bare := by
  simp only [modifyDocument, bare, h]

theorem isMisplaced_of_defaultFault? {d : Document} {t : DataType} {statement : String}
    {default : Default} {fault : Message} (h : d.defaultFault? t statement default = some fault) :
    fault.isMisplaced = false :=
  Message.isMisplaced_of_error (Document.severity_of_defaultFault? h)

theorem recheckDefault_bare (f : FieldRef) (t : DataType) (default : Option Default) :
    s.bare.recheckDefault f t default = (s.recheckDefault f t default).bare := by
  have hfault : s.bare.document.defaultFault? t "field" = s.document.defaultFault? t "field" :=
    funext (s.document.defaultFault?_bare t "field")
  cases h : default.bind (s.document.defaultFault? t "field") with
  | none => simp only [recheckDefault, hfault, h]
  | some fault =>
    obtain ⟨default, _, hkind⟩ := Option.bind_eq_some_iff.1 h
    simp only [recheckDefault, hfault, h, s.report_bare (isMisplaced_of_defaultFault? hkind)]
    exact modifyDocument_bare _ fun d => d.bare_dropDefault f

theorem recheckAlters_bare (f : FieldRef) (t : DataType) :
    s.bare.recheckAlters f t = (s.recheckAlters f t).bare := by
  have hfaults : s.bare.document.alterFaults f t = s.document.alterFaults f t :=
    s.document.alterFaults_bare f t
  have hkind : ∀ m ∈ (s.document.alterFaults f t).map (·.2), m.isMisplaced = false := by
    intro m hm
    obtain ⟨fault, hfault, rfl⟩ := List.mem_map.1 hm
    obtain ⟨_, hmessage⟩ := Document.defaultFault?_of_mem_alterFaults hfault
    exact isMisplaced_of_defaultFault? hmessage
  simp only [recheckAlters, hfaults, s.reportAll_bare hkind]
  refine modifyDocument_bare _ fun d => ?_
  generalize s.document.alterFaults f t = faults
  induction faults generalizing d with
  | nil => rfl
  | cons fault faults ih => exact ih (d.withdraw (.struct fault.1))

theorem ask_bare (t : Option DataType) (defaults : List Default) :
    s.bare.ask t defaults = (s.ask t defaults).bare := by
  have hendless (t : DataType) : s.bare.document.isEndless t = s.document.isEndless t :=
    funext (s.document.isEndless_bare t)
  simp only [ask, hendless]
  rfl

theorem recheckSlot_bare (slot : Slot) : s.bare.recheckSlot slot = (s.recheckSlot slot).bare := by
  cases slot with
  | field f =>
    have hfield : s.bare.document.field? f = (s.document.field? f).map Field.bare :=
      s.document.field?_bare f
    simp only [recheckSlot, recheckDefaults, hfield]
    cases s.document.field? f with
    | none => rfl
    | some field =>
      obtain ⟨name, location, comment, type, bitmask, default, owner⟩ := field
      cases type with
      | none => rfl
      | some t =>
        have halters : s.bare.document.altersOf f = s.document.altersOf f :=
          s.document.altersOf_bare f
        simp only [Option.map_some, Field.bare, halters]
        rw [ask_bare, recheckDefault_bare, recheckAlters_bare]
  | _ => rfl

section Checks

variable {checks : List Check} (hc : ∀ check ∈ checks, check.Blind)

include hc

theorem visit_bare (subject : Subject) (late : Bool) :
    s.bare.visit checks subject late =
      ((s.visit checks subject late).1, (s.visit checks subject late).2.bare) := by
  have hname : s.bare.subjectName subject = s.subjectName subject := by
    cases subject with
    | declaration x => exact s.document.nameText_bare x
    | document => rfl
  have hblind : ∀ check ∈ Check.called checks late, check.Blind :=
    fun check h => hc check (Check.mem_of_mem_called h)
  have hrun : Check.runAll (Check.called checks late) s.bare.document subject =
      Check.runAll (Check.called checks late) s.document subject :=
    Check.runAll_bare hblind s.document subject
  have hmessages := s.reportAll_bare (Check.forall_runAll_isMisplaced hblind s.document subject)
  simp only [visit_eq, hrun, hname]
  let added := (Check.entries checks late).map fun entry =>
    (⟨entry.2, subject, s.subjectName subject, late⟩ : Call)
  exact Prod.ext rfl
    (congrArg (fun r : Session => { r with calls := s.calls ++ added }) hmessages)

theorem recheck_bare (x : Declaration) : s.bare.recheck checks x = (s.recheck checks x).bare := by
  have hchecked : s.bare.isChecked x = s.isChecked x := by
    have hnested (owner : StructureId) (id : EnumerationId) :
        ((s.bare.document.structures.get? owner).any (·.nestedEnumerations.contains id)) =
          (s.document.structures.get? owner).any (·.nestedEnumerations.contains id) := by
      simp only [bare, Document.bare, Arena.get?_map, Option.any_map,
        Structure.nestedEnumerations_bare]
    have howner (id : EnumerationId) : (s.bare.document.enumerations.get? id).bind (·.owner) =
        (s.document.enumerations.get? id).bind (·.owner) := by
      simp only [bare, Document.bare, Arena.get?_map, Option.bind_map]
      rfl
    simp only [isChecked, hnested, howner]
    rfl
  simp only [recheck, hchecked, s.visit_bare hc]
  split
  · split
    · rfl
    · exact modifyDocument_bare _ fun d => d.bare_withdraw x
  · rfl

theorem bind_bare (b : Binding) (t : DataType) :
    s.bare.bind checks b t = (s.bind checks b t).bare := by
  rw [bind_eq, bind_eq, modifyDocument_bare s fun d => d.bare_fill b.slot t, recheckSlot_bare]
  cases b.owner? with
  | none => rfl
  | some x => exact recheck_bare _ hc x

/-- Names are bound as without comments, if they are looked up so. -/
theorem settle_bare {find : Session → Binding → Option DataType}
    (hf : ∀ (s : Session) b, find s.bare b = find s b) (pending : List Binding) :
    s.bare.settle checks find pending =
      ((s.settle checks find pending).1.bare, (s.settle checks find pending).2) := by
  induction pending generalizing s with
  | nil => rfl
  | cons b rest ih =>
    simp only [settle, hf]
    cases find s b with
    | some t =>
      simp only [bind_bare s hc]
      exact ih _
    | none => simp only [ih]

theorem settleRegistered_bare (t : DataType) (pending : List Binding) :
    s.bare.settleRegistered checks t pending =
      ((s.settleRegistered checks t pending).1.bare,
        (s.settleRegistered checks t pending).2) := by
  have hname : s.bare.document.coreName t = s.document.coreName t := s.document.coreName_bare t
  have hpackage : s.bare.document.packageOf? t = s.document.packageOf? t :=
    s.document.packageOf?_bare t
  have hfind : s.bare.findRegistered t = s.findRegistered t := by
    funext b
    simp only [findRegistered, hname, hpackage]
  rw [settleRegistered, hfind]
  exact settle_bare s hc (fun _ _ => rfl) pending

theorem settleScope_bare (scope : StructureId) (pending : List Binding) :
    s.bare.settleScope checks scope pending =
      ((s.settleScope checks scope pending).1.bare,
        (s.settleScope checks scope pending).2) := by
  simp only [settleScope]
  rw [settle_bare s hc fun s b =>
    congrArg (Option.map DataType.enum) (s.document.findNested?_bare scope b.name.last.text)]

theorem settleAll_bare (last : Bool) (pending : List Binding) :
    s.bare.settleAll checks last pending =
      ((s.settleAll checks last pending).1.bare, (s.settleAll checks last pending).2) := by
  refine settle_bare s hc (fun s b => ?_) pending
  have hpackage (t : DataType) : s.bare.document.packageOf? t = s.document.packageOf? t :=
    s.document.packageOf?_bare t
  have hfound : b.find? s.bare.document = b.find? s.document := b.find?_bare s.document
  simp only [findAgain, hpackage, hfound]

end Checks

theorem reportUnresolved_bare (pending : List Binding) :
    s.bare.reportUnresolved pending = (s.reportUnresolved pending).bare := by
  refine s.reportAll_bare fun m hm => ?_
  obtain ⟨b, _, rfl⟩ := List.mem_map.1 hm
  rfl

end Session

end Idl
