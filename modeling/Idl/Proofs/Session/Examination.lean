import Idl.Proofs.Session.Settle

/-!
Examinations: visits of the checks, each with the session that they are shown. All checks are
called in one, or all late ones, each once and in turn, whatever the others say. The trace between
two sessions lists the examinations on the way; all calls of checks belong to one of them, and
between them nothing is reported of what only checks find. Nothing is registered on the way but
what has just passed all checks, and only what has passed before is examined again. Checks may be
exchanged for others that answer alike in the examinations, for they are asked nowhere else. To
settle names examines nothing anew.
-/

namespace Idl

/-- A declaration that has been taken in: it is registered, or nested in its owner. -/
inductive Document.TakenIn (d : Document) : Declaration → Prop where
  | registered {x : Declaration} (h : x ∈ d.declarations) : TakenIn d x
  | nested {id : EnumerationId} {e : Enumeration} {owner : StructureId} {x : Structure}
      (he : d.enumerations.get? id = some e) (ho : e.owner = some owner)
      (hx : d.structures.get? owner = some x) (hn : id ∈ x.nestedEnumerations) :
      TakenIn d (.enum id)

/-- A visit of the checks, with the session that they are shown. -/
structure Examination where
  session : Session
  subject : Subject
  late : Bool

namespace Examination

/-- The checks that are called, in this order. -/
def called (checks : List Check) (e : Examination) : List Check :=
  if e.late then checks.filter (·.late) else checks

/-- The calls that are made: one for each check, or for each late one, in their order. -/
def calls (checks : List Check) (e : Examination) : List Call :=
  (checks.zipIdx.filter fun (check, _) => !e.late || check.late).map fun (_, place) =>
    ⟨place, e.subject, e.session.subjectName e.subject, e.late⟩

/-- What the checks that are called answer, in turn. -/
def answers (checks : List Check) (e : Examination) : List Verdict :=
  (e.called checks).map fun check => check.run e.session.document e.subject

/-- What the checks that are called report, one after the other. -/
def messages (checks : List Check) (e : Examination) : List Message :=
  (e.answers checks).flatMap Verdict.messages

/-- The subject passes every check that is called. -/
def Passes (checks : List Check) (e : Examination) : Prop :=
  ∀ check ∈ e.called checks, (check.run e.session.document e.subject).passed = true

/-- The session behind the examination: the calls are noted, and what the checks report is
heard. -/
def after (checks : List Check) (e : Examination) : Session :=
  { e.session with
    messages := e.session.messages ++ e.messages checks
    calls := e.session.calls ++ e.calls checks }

/-- With other checks the same calls are made, and they get the same answers. -/
structure Agrees (checks others : List Check) (e : Examination) : Prop where
  calls : e.calls others = e.calls checks
  answers : e.answers others = e.answers checks

/-- What is examined by all checks, in this order. -/
def subjects (es : List Examination) : List Subject :=
  (es.filter fun e => !e.late).map (·.subject)

theorem subjects_append (es es' : List Examination) :
    subjects (es ++ es') = subjects es ++ subjects es' := by
  simp [subjects]

end Examination

namespace Session

open Examination

variable {checks : List Check} {s s' s'' : Session} {es es' : List Examination}

/-- No check is called and nothing more is registered. Messages may be added, but none of what
only checks find. -/
structure Silent (s s' : Session) : Prop where
  calls : s'.calls = s.calls
  messages : ∃ more, (∀ m ∈ more, m.kind.isFinding = false) ∧ s'.messages = s.messages ++ more
  registered : ∀ x ∈ s'.document.declarations, x ∈ s.document.declarations

namespace Silent

theorem of_same (hc : s'.calls = s.calls) (hm : s'.messages = s.messages)
    (hr : ∀ x ∈ s'.document.declarations, x ∈ s.document.declarations) : s.Silent s' :=
  ⟨hc, ⟨[], fun _ h => absurd h List.not_mem_nil, by rw [hm, List.append_nil]⟩, hr⟩

theorem refl (s : Session) : s.Silent s :=
  of_same rfl rfl fun _ h => h

theorem trans (h : s.Silent s') (h' : s'.Silent s'') : s.Silent s'' where
  calls := h'.calls.trans h.calls
  messages := by
    obtain ⟨more, hm, heq⟩ := h.messages
    obtain ⟨more', hm', heq'⟩ := h'.messages
    refine ⟨more ++ more', fun m hmem => ?_, by rw [heq', heq, List.append_assoc]⟩
    exact (List.mem_append.1 hmem).elim (hm m) (hm' m)
  registered x hx := h.registered x (h'.registered x hx)

theorem reportAll (h : s.Silent s') {messages : List Message}
    (hm : ∀ m ∈ messages, m.kind.isFinding = false) : s.Silent (s'.reportAll messages) :=
  h.trans ⟨rfl, ⟨messages, hm, rfl⟩, fun _ h => h⟩

theorem report (h : s.Silent s') {m : Message} (hm : m.kind.isFinding = false) :
    s.Silent (s'.report m) :=
  h.reportAll (by simpa using hm)

theorem modifyDocument (h : s.Silent s') {f : Document → Document}
    (hf : ∀ x ∈ (f s'.document).declarations, x ∈ s'.document.declarations) :
    s.Silent (s'.modifyDocument f) :=
  ⟨h.calls, h.messages, fun x hx => h.registered x (hf x hx)⟩

end Silent

/-- The way from one session to another, with the examinations on it. A declaration is
registered only right behind an examination by all checks in which it has passed. -/
inductive Trace (checks : List Check) (s : Session) : List Examination → Session → Prop where
  | refl : Trace checks s [] s
  | silent {es : List Examination} {s' s'' : Session} (h : Trace checks s es s')
      (hs : s'.Silent s'') : Trace checks s es s''
  | examined {es : List Examination} {s' : Session} (h : Trace checks s es s')
      (subject : Subject) :
      Trace checks s (es ++ [⟨s', subject, false⟩]) (Examination.after checks ⟨s', subject, false⟩)
  | registered {es : List Examination} {s' : Session} {x : Declaration}
      (h : Trace checks s es s') (hp : (Examination.mk s' (.declaration x) false).Passes checks) :
      Trace checks s (es ++ [⟨s', .declaration x, false⟩])
        ((Examination.after checks ⟨s', .declaration x, false⟩).modifyDocument (·.register x))
  | reexamined {es : List Examination} {s' : Session} {x : Declaration}
      (h : Trace checks s es s') (hx : s'.document.TakenIn x) :
      Trace checks s (es ++ [⟨s', .declaration x, true⟩])
        (Examination.after checks ⟨s', .declaration x, true⟩)

namespace Trace

theorem trans (h : s.Trace checks es s') (h' : s'.Trace checks es' s'') :
    s.Trace checks (es ++ es') s'' := by
  induction h' with
  | refl => exact (List.append_nil es).symm ▸ h
  | silent _ hs ih => exact ih.silent hs
  | examined _ subject ih => exact List.append_assoc es _ _ ▸ ih.examined subject
  | registered _ hp ih => exact List.append_assoc es _ _ ▸ ih.registered hp
  | reexamined _ hx ih => exact List.append_assoc es _ _ ▸ ih.reexamined hx

end Trace

/-- On the way from one session to another, these declarations are examined by all checks, in
this order, and nothing else is. `P` holds of any checks that answer alike in all examinations. -/
def Examines (checks : List Check) (s : Session) (xs : List Declaration) (s' : Session)
    (P : List Check → Prop) : Prop :=
  ∃ es, s.Trace checks es s' ∧ subjects es = xs.map .declaration ∧
    ∀ others, (∀ e ∈ es, e.Agrees checks others) → P others

namespace Examines

variable {xs xs' : List Declaration} {P P' Q : List Check → Prop}

theorem mono (h : s.Examines checks xs s' P) (hQ : ∀ others, P others → Q others) :
    s.Examines checks xs s' Q := by
  obtain ⟨es, htrace, hxs, hP⟩ := h
  exact ⟨es, htrace, hxs, fun others ho => hQ others (hP others ho)⟩

theorem trans (h : s.Examines checks xs s' P) (h' : s'.Examines checks xs' s'' P')
    (hQ : ∀ others, P others → P' others → Q others) :
    s.Examines checks (xs ++ xs') s'' Q := by
  obtain ⟨es, htrace, hxs, hP⟩ := h
  obtain ⟨es', htrace', hxs', hP'⟩ := h'
  refine ⟨es ++ es', htrace.trans htrace', ?_, fun others ho => ?_⟩
  · rw [subjects_append, hxs, hxs', List.map_append]
  · exact hQ others (hP others fun e he => ho e (List.mem_append_left _ he))
      (hP' others fun e he => ho e (List.mem_append_right _ he))

theorem of_silent (checks : List Check) (h : s.Silent s') (hP : ∀ others, P others) :
    s.Examines checks [] s' P :=
  ⟨[], Trace.refl.silent h, rfl, fun others _ => hP others⟩

theorem refl (checks : List Check) (s : Session) (hP : ∀ others, P others) :
    s.Examines checks [] s P :=
  of_silent checks (.refl s) hP

theorem silent (h : s.Examines checks xs s' P) (hs : s'.Silent s'') :
    s.Examines checks xs s'' P := by
  obtain ⟨es, htrace, hxs, hP⟩ := h
  exact ⟨es, htrace.silent hs, hxs, hP⟩

end Examines

end Session

end Idl
