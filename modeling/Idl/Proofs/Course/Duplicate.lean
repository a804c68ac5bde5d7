import Idl.Proofs.Course.Arise
import Idl.Proofs.Course.Move
import Idl.Proofs.Document.Packaged
import Idl.Proofs.Grammar.Invariant
import Idl.Proofs.Session.Report

/-!
Repeated declarations over a whole session. All packages are put together from words of a text
and from names of directories. So a declaration is reported when it has the name and the package
of one in front of it, but also when it has another package that is written the same way.
-/

namespace Idl

open Grammar

namespace Check

variable {d : Document} (hp : ∀ x ∈ d.declarations, ∀ p, d.package? x = some p → p.Regular)

include hp

/-- Declarations are repeated if they cannot be told apart by their names and packages. -/
theorem any_qualifiedName_eq {x : Declaration} (hx : x ∈ d.declarations) (position : Nat) :
    ((d.declarations.take position).any fun y => qualifiedName d y == qualifiedName d x) =
      d.isRepeated position x := by
  rw [Document.isRepeated, Bool.eq_iff_iff, List.any_eq_true, List.any_eq_true]
  refine exists_congr fun y => and_congr_right fun hy => ?_
  have hwritten := Package.written_eq_iff (hp y (List.mem_of_mem_take hy)) (hp x hx)
  rw [beq_iff_eq, Bool.and_eq_true, beq_iff_eq, ← hwritten, qualifiedName, qualifiedName,
    Prod.mk.injEq]

theorem messages_duplicateDeclaration :
    (duplicateDeclaration.run d .document).messages =
      (d.declarations.zipIdx.filter fun (x, i) => d.isRepeated i x).filterMap fun (x, _) =>
        (d.name? x).map fun name =>
          .of .duplicateDeclaration name.location [(.name, name.value)] := by
  rw [List.filterMap_filter]
  refine List.filterMap_congr fun (x, i) hmem => ?_
  have hx : x ∈ d.declarations := List.mem_of_getElem? (List.mem_zipIdx_iff_getElem?.1 hmem)
  simp only [any_qualifiedName_eq hp hx]

end Check

namespace Grammar

/-- The source that is read consists of tokens of a text, and its package is regular. -/
structure Reading.Packaged (r : Reading) : Prop where
  package : ∀ p, r.package = some p → p.Regular
  words : ∀ t ∈ r.cursor.rest, t.kind = .identifier →
    Pattern.Matches Token.Rule.identifier t.text.toList

theorem packaged_ofTokens (text : String) (source : Option SourceId) (isMain : Bool) :
    Reading.Packaged { cursor := .ofTokens (Token.tokenize text), source, isMain } where
  package := nofun
  words t ht := by
    rw [Cursor.rest_ofTokens] at ht
    exact Token.matches_identifier_of_mem ht

/-- The packages of all nodes and of the source that is read are regular. -/
def Invariant.packaged : Invariant where
  state s := s.document.Packaged ∧ s.toReading.Packaged
  token t := t.kind = .identifier → Pattern.Matches Token.Rule.identifier t.text.toList
  location _ := True
  heading x := ∀ p, x.package = some p → p.Regular
  name _ := True

theorem lawful_packaged : Invariant.packaged.Lawful where
  rest h hr := ⟨h.1, h.2.package, fun t ht => h.2.words t (hr.mem ht)⟩
  token h ht := h.2.words _ ht
  locationOf _ _ := trivial
  heading h _ _ hp p hx := h.2.package p (hp.symm.trans hx)
  ending _ _ := trivial
  report h _ _ := h
  unknown _ _ _ := trivial
  await h _ _ _ _ := ⟨h.1, h.2.package, h.2.words⟩
  write h hd := ⟨h.1.write hd, h.2⟩
  ask h _ _ := ⟨h.1, h.2.package, h.2.words⟩
  rollback _ h' := ⟨h'.1.restore _, h'.2.package, h'.2.words⟩

theorem notes_packaged : Invariant.packaged.Notes where
  addImport {s} h i := by
    have hsame := (s.document.alike_note (s.document.imports ++ [i]) s.document.package).heading
    exact ⟨h.1.of_heading hsame, h.2⟩
  package := by
    refine maintains_package lawful_packaged (Q := PackageElement.Regular)
      (fun s t _ ht hk => .of_word (ht hk)) (fun s t position value _ hv => ?_)
      fun s p h hne hall => ?_
    · obtain ⟨id, _, hv⟩ := Option.bind_eq_some_iff.1 hv
      exact .of_directory hv
    · have hsame := (s.document.alike_note s.document.imports (some p)).heading
      have hreading : Reading.Packaged { s.toReading with package := some p } :=
        ⟨fun q hq => by cases hq; exact ⟨hne, hall⟩, h.2.words⟩
      exact ⟨⟨h.1, hreading⟩, h.1.of_heading hsame, hreading⟩

section Settle

variable {checks : List Check} {s : State} (h : Invariant.packaged.state s)

include h

/-- Names that are settled leave all headings alone. -/
theorem packaged_settle {find : Session → Binding → Option DataType} (pending : List Binding) :
    (s.toSession.settle checks find pending).1.document.Packaged :=
  h.1.of_heading
    (Session.tells_settle (Check.forall_speaks checks) (fun _ _ => trivial) _ pending).headings

theorem packaged_register (x : Declaration) :
    Invariant.packaged.state (s.register checks x) := by
  have hregister : Invariant.packaged.state (s.modifyDocument (·.register x)) :=
    ⟨h.1.of_heading fun y => Document.heading?_register y x, h.2⟩
  simp only [State.register]
  split
  · exact ⟨packaged_settle hregister _, h.2.package, h.2.words⟩
  · exact hregister

end Settle

theorem admits_packaged (checks : List Check) :
    Invariant.packaged.Admits checks Invariant.packaged.state where
  visit h _ := h
  weaken h := h
  settleScope h _ := ⟨packaged_settle h _, h.2.package, h.2.words⟩
  report h _ := h

namespace Moment

variable {settings : Settings} {root : Option SourceId} {text : String} {m m' : Moment}

/-- All packages are regular, those of the sources that are being read among them. -/
structure Packaged (m : Moment) : Prop where
  document : m.document.Packaged
  readings : ∀ r ∈ m.state.toReading :: m.importers, r.Packaged

theorem packaged_start (settings : Settings) (root : Option SourceId) (text : String) :
    (start settings root (Token.tokenize text)).Packaged where
  document := by
    intro x p hp
    cases root <;> cases x <;> cases hp
  readings r hr := by
    cases List.mem_singleton.1 hr
    exact packaged_ofTokens text root true

theorem Packaged.state (h : m.Packaged) : Invariant.packaged.state m.state :=
  ⟨h.document, h.readings _ List.mem_cons_self⟩

/-- The reading goes on in the same source. -/
theorem Packaged.on {levels : Nat} {importers : List Reading} {atHead next : Bool} {s s' : State}
    (h : Packaged ⟨levels, importers, atHead, s⟩) (hs : Invariant.packaged.state s') :
    Packaged ⟨levels, importers, next, s'⟩ where
  document := hs.1
  readings r hr := by
    rcases List.mem_cons.1 hr with rfl | hr
    · exact hs.2
    · exact h.readings r (List.mem_cons_of_mem _ hr)

theorem Move.packaged (h : Move settings m m') (hp : m.Packaged) : m'.Packaged := by
  cases h with
  | declare h =>
    cases h.state
    refine hp.on (lawful_packaged.declare (admits_packaged _) (fun x hs => packaged_register hs x)
      (lawful_packaged.skipComments hp.state) _)
  | pass h => exact hp.on (lawful_packaged.passes notes_packaged hp.state h)
  | @into levels importers s s' i id text h hf =>
    have hs' := (lawful_packaged.imports hp.state h).1
    have hread : Packaged ⟨levels + 1, importers, true, s'⟩ := hp.on hs'
    refine ⟨(notes_packaged.addImport hs' _).1, fun r hr => ?_⟩
    rcases List.mem_cons.1 hr with rfl | hr
    · exact packaged_ofTokens text _ false
    · exact hread.readings r hr
  | @out levels importer importers atHead s h =>
    have hended := lawful_packaged.ended hp.state
    have himporter := hp.readings importer (List.mem_cons_of_mem _ List.mem_cons_self)
    have hback : Invariant.packaged.state (State.leave ⟨s.ended.toSession, importer⟩ s.ended) :=
      ⟨hended.1, himporter.package, himporter.words⟩
    refine ⟨packaged_settle hback _, fun r hr => ?_⟩
    rcases List.mem_cons.1 hr with rfl | hr
    · exact ⟨himporter.package, himporter.words⟩
    · exact hp.readings r (List.mem_cons_of_mem _ (List.mem_cons_of_mem _ hr))

theorem Moves.packaged (h : Moves settings m m') (hp : m.Packaged) : m'.Packaged := by
  induction h with
  | refl => exact hp
  | tail _ hmove ih => exact hmove.packaged ih

theorem Concludes.packaged {outcome : Outcome} (h : m.Concludes settings outcome)
    (hp : m.Packaged) : outcome.document.Packaged := by
  cases h with
  | ended hi h =>
    have hended := lawful_packaged.ended hp.state
    rw [Session.document_finish]
    exact packaged_settle hended _
  | halted ha h => exact (lawful_packaged.halts notes_packaged hp.state h).1

/-- The packages of what is registered are regular in every document of a session. -/
theorem Arises.packaged {d : Document} (hd : Arises settings root (Token.tokenize text) d) :
    ∀ x ∈ d.declarations, ∀ p, d.package? x = some p → p.Regular := by
  have hbetween {m : Moment} (hm : Reached settings root (Token.tokenize text) m) : m.Packaged :=
    hm.moves.packaged (packaged_start settings root text)
  cases hd with
  | between hm => exact fun x _ => (hbetween hm).document x
  | @within m comment s s' hm hdeclares he =>
    have hs := hdeclares.sound hm.sound
    have hagree := (he.keeps hs.ready).agree
    cases hdeclares.state
    intro x hx p hp
    rw [hagree.declarations_eq] at hx
    rw [Document.package?, hagree.heading?_eq (hs.linked.declarations x hx)] at hp
    exact (hbetween hm).document x p hp
  | outcome =>
    obtain ⟨m, outcome, hmoves, hconcludes⟩ := Reached.exists_conclusion
      (.refl : Reached settings root (Token.tokenize text) _)
    have hm : Reached settings root (Token.tokenize text) m := hmoves.steps
    rw [hm.readTokens_eq hconcludes]
    exact fun x _ => hconcludes.packaged (hbetween hm) x

/-- In every document of a session the check of repeated declarations reports, in their order,
exactly those that have the name and the package of one in front of them, or the name and a
package that is written like that one, though it is another: an element inherited from a directory
contains a dot. The check passes if there are none. -/
theorem repeated_declarations_are_reported {d : Document}
    (hd : Arises settings root (Token.tokenize text) d) :
    let verdict := Check.duplicateDeclaration.run d .document
    (verdict.messages.map some =
      (d.declarations.zipIdx.filter fun (x, i) => d.isRepeated i x).map fun (x, _) =>
        (d.name? x).map fun name =>
          .of .duplicateDeclaration name.location [(.name, name.value)]) ∧
      (verdict.passed = true ↔ verdict.messages = []) := by
  intro verdict
  have hmessages := Check.messages_duplicateDeclaration hd.packaged
  refine ⟨?_, Verdict.passed_ofMessages_iff fun m hm => ?_⟩
  · rw [hmessages, List.map_filterMap, List.filterMap_eq_map_iff_forall_eq_some]
    intro (x, i) hmem
    have hx : x ∈ d.declarations :=
      List.mem_of_getElem? (List.mem_zipIdx_iff_getElem?.1 (List.mem_filter.1 hmem).1)
    obtain ⟨heading, hheading⟩ := Document.exists_heading (hd.linked.declarations x hx)
    simp [Document.name?, hheading]
  · have hreported : m ∈ (Check.duplicateDeclaration.run d .document).messages := hm
    rw [hmessages] at hreported
    obtain ⟨entry, _, hname⟩ := List.mem_filterMap.1 hreported
    obtain ⟨name, _, rfl⟩ := Option.map_eq_some_iff.1 hname
    rfl

/-- The first of two declarations in packages that are written the same way is imported from a
directory `a.b`. -/
theorem repeated_declarations_are_reported_across_packages :
    let shelf : Shelf := { texts := [("a.b/x", "package *; structure S \x7b \x7d")] }
    let settings : Settings := { provider := some shelf.provider }
    let root := SourceId.ofValue "r"
    let text := "import \x22a.b/x\x22; package a.b; structure S \x7b \x7d structure T \x7b \x7d"
    let d := (settings.readTokens (some root) (Token.tokenize text)).document
    let verdict := Check.duplicateDeclaration.run d .document
    (d.declarations.zipIdx.filter fun (x, i) => d.isRepeated i x) = [(.struct ⟨1⟩, 1)] ∧
      verdict.messages.map some = [(d.name? (.struct ⟨1⟩)).map fun name =>
        .of .duplicateDeclaration name.location [(.name, name.value)]] ∧
      verdict.passed = false := by
  intro shelf settings root text d verdict
  have hrepeated : (d.declarations.zipIdx.filter fun (x, i) => d.isRepeated i x) =
      [(.struct ⟨1⟩, 1)] := by decide +kernel
  obtain ⟨hmessages, hpassed⟩ := repeated_declarations_are_reported
    (.outcome : Arises settings (some root) (Token.tokenize text) d)
  rw [hrepeated] at hmessages
  refine ⟨hrepeated, hmessages, Bool.eq_false_iff.2 fun h => ?_⟩
  rw [hpassed.1 h] at hmessages
  cases hmessages

/-- The second declaration is reported, though the first one is in another package. -/
theorem declaration_of_another_package_is_reported :
    let shelf : Shelf := { texts := [("a.b/x", "package *; structure S \x7b \x7d")] }
    let settings : Settings := { provider := some shelf.provider }
    let root := SourceId.ofValue "r"
    let outcome := settings.readText (some root)
      "import \x22a.b/x\x22; package a.b; structure S \x7b \x7d"
    let d := outcome.document
    d.declarations = [.struct ⟨0⟩, .struct ⟨1⟩] ∧
      Package.same (d.package? (.struct ⟨0⟩)) (d.package? (.struct ⟨1⟩)) = false ∧
      (Check.duplicateDeclaration.run d .document).messages.length = 1 ∧ outcome.ok = false := by
  decide +kernel

end Moment

end Grammar

end Idl
