import Idl.Proofs.Draft.Course
import Idl.Proofs.Draft.Name

/-!
The outcome of reading drafts. When all of them are registered, nothing waits but what no draft
is the declaration of, and this is what is reported. What comes out does not depend on the order
of the drafts, though it decides whether a name is bound where it is read or only later.
-/

namespace Idl

open Grammar Document

namespace Draft

/-- What types are wanted for in the draft. -/
def classifier : Draft → String
  | struct _ _ => "field"
  | _ => "parameter"

/-- What types are wanted for, and their names, in the order in which they are written. -/
def wanted (x : Draft) : List (String × String) :=
  x.types.map fun e => (x.classifier, e.leaf)

theorem filterMap_use?_type (classifier : String) (e : TypeExpr) :
    (e.pieces classifier).filterMap Piece.use? = [(classifier, e.leaf)] := by
  have hfront : (TypeExpr.openings e.shells).filterMap Piece.use? = [] := by
    rw [List.filterMap_eq_nil_iff]
    exact fun p hp => by rw [Piece.use?, classifier_openings e.shells p hp]; rfl
  have hback : (List.replicate e.shells.length Piece.greater).filterMap Piece.use? = [] := by
    rw [List.filterMap_eq_nil_iff]
    exact fun p hp => by rw [List.eq_of_mem_replicate hp]; rfl
  rw [TypeExpr.pieces, List.filterMap_append, hfront, List.nil_append, List.filterMap_cons, hback]
  rfl

theorem filterMap_use?_field (f : Field) :
    f.pieces.filterMap Piece.use? = [("field", f.type.leaf)] := by
  rw [Field.pieces, List.filterMap_append, filterMap_use?_type]
  rfl

theorem filterMap_use?_parameter (p : Parameter) :
    p.pieces.filterMap Piece.use? = [("parameter", p.type.leaf)] := by
  rw [Parameter.pieces, List.filterMap_cons, List.filterMap_append, filterMap_use?_type]
  rfl

theorem filterMap_use?_block (keyword name : String) (inner : List Piece) :
    (.word keyword :: .word name :: .opening :: (inner ++ [.closing])).filterMap Piece.use? =
      inner.filterMap Piece.use? := by
  change (inner ++ [Piece.closing]).filterMap Piece.use? = _
  rw [List.filterMap_append]
  exact List.append_nil _

theorem filterMap_use?_method (m : Method) :
    m.pieces.filterMap Piece.use? = m.parameters.map fun p => ("parameter", p.type.leaf) := by
  rw [Method.pieces, filterMap_use?_block, List.filterMap_flatMap]
  simp only [filterMap_use?_parameter, ← List.map_eq_flatMap]

/-- Each type in a draft is written once. -/
theorem filterMap_use?_pieces (x : Draft) : x.pieces.filterMap Piece.use? = x.wanted := by
  cases x with
  | struct name fields =>
    rw [pieces, filterMap_use?_block, List.filterMap_flatMap]
    simp only [filterMap_use?_field, ← List.map_eq_flatMap, wanted, types, List.map_map]
    rfl
  | interface name methods =>
    rw [pieces, filterMap_use?_block, List.filterMap_flatMap]
    simp only [filterMap_use?_method, wanted, types, List.map_flatMap, List.map_map]
    rfl
  | enum front name behind values =>
    have hfront : (front.words.map Piece.word).filterMap Piece.use? = [] := by
      simp [Piece.use?, Piece.word]
    have hbehind : (behindPieces behind).filterMap Piece.use? = [] := by cases behind <;> rfl
    have hvalues : (values.flatMap valuePieces).filterMap Piece.use? = [] := by
      simp [List.filterMap_flatMap, valuePieces, Piece.use?, Piece.word, Piece.semicolon]
    rw [pieces, List.filterMap_append, hfront, List.nil_append]
    change (behindPieces behind ++ Piece.opening :: _).filterMap Piece.use? = []
    rw [List.filterMap_append, hbehind, List.nil_append]
    change (values.flatMap valuePieces ++ [Piece.closing]).filterMap Piece.use? = []
    rw [List.filterMap_append, hvalues]
    rfl

theorem filterMap_use?_flatMap (ds : List Draft) :
    (ds.flatMap pieces).filterMap Piece.use? = ds.flatMap wanted := by
  simp only [List.filterMap_flatMap, filterMap_use?_pieces]

end Draft

section Ending

variable {source : Option SourceId} {ds : List Draft} {pieces : List Piece} {read : List Token}
  {d : Document} {ws : List Binding}

theorem map_eq_map_of_forall₂ {α β γ : Type} {f : α → γ} {g : β → γ} {as : List α} {bs : List β}
    (h : List.Forall₂ (fun a b => f a = g b) as bs) : as.map f = bs.map g := by
  induction h with
  | nil => rfl
  | cons h _ ih => rw [List.map_cons, List.map_cons, h, ih]

namespace Document.Matches

/-- The declarations have the names of their drafts. -/
theorem map_nameText (h : Matches source ds pieces read d ws) :
    d.declarations.map d.nameText = ds.map Draft.name :=
  (map_eq_map_of_forall₂ (h.readAs.imp fun _ _ hxy => hxy.nameText_eq.symm)).symm

/-- The declarations look like their drafts. -/
theorem map_view? (h : Matches source ds pieces read d ws) (hs : d.Sound ws) :
    d.declarations.map d.view? =
      ds.map fun x => some (x.view (TypeExpr.shown (Draft.known ds))) := by
  refine (map_eq_map_of_forall₂ (h.readAs.imp fun x y hxy => ?_)).symm
  rw [(h.exhausted hs).view?_eq h.plain hxy]
  simp only [h.isSome_leaf?]

theorem runAll_document (h : Matches source ds pieces read d ws)
    (hnames : (ds.map Draft.name).Nodup) : Check.runAll Check.standard d .document = {} :=
  Check.runAll_document (h.map_nameText ▸ hnames)

/-- What waits is reported with the tokens of the pieces that name no known type. -/
theorem map_unresolved (h : Matches source ds pieces read d ws) :
    ws.map Binding.unresolved =
      ((uses read pieces).filter fun u => !Draft.known ds u.2.text).map fun (classifier, t) =>
        Message.of .unknownClassifierType ⟨source, t.line, t.column⟩
          [(.classifier, classifier), (.type, t.text)] := by
  have huse : (uses read pieces).filter (fun u => !Draft.known ds u.2.text) =
      ws.map Binding.use := by
    rw [h.waiting]
    refine List.filter_congr fun u _ => ?_
    rw [← h.isSome_leaf?, Option.not_isSome]
  rw [huse, List.map_map]
  refine List.map_congr_left fun b hb => ?_
  obtain ⟨hpath, hfirst, -, hsource⟩ := h.bare b hb
  simp [Binding.unresolved, Binding.use, TypeName.display, Package.dotted, hpath, hfirst, hsource]

/-- Nothing waits if and only if all names in the drafts are known. -/
theorem isEmpty_eq (h : Matches source ds (ds.flatMap Draft.pieces) read d ws) :
    ws.isEmpty = ds.all fun x => x.types.all fun e => Draft.known ds e.leaf := by
  have huses := (map_uses h.spell).trans (Draft.filterMap_use?_flatMap ds)
  have hwanted : ws.isEmpty = (ds.flatMap Draft.wanted).all fun u => Draft.known ds u.2 := by
    rw [Bool.eq_iff_iff, List.isEmpty_iff, ← List.map_eq_nil_iff, h.waiting,
      List.filter_eq_nil_iff, List.all_eq_true, ← huses, List.forall_mem_map]
    refine forall₂_congr fun u _ => ?_
    rw [← h.isSome_leaf?, Option.isNone_iff_eq_none, Option.isSome_iff_ne_none]
  rw [hwanted, List.all_flatMap]
  simp only [Draft.wanted, List.all_map]
  rfl

/-- Where a name is known, its slot has the type that was meant for it. -/
theorem exists_slot (h : Matches source ds pieces read d ws) (hs : d.Sound ws)
    (hnames : (ds.map Draft.name).Nodup) {x : Draft} {y : Declaration} {slot : Slot} {e : TypeExpr}
    (hxy : (x, y) ∈ ds.zip d.declarations) (hslot : (slot, e) ∈ x.slots y)
    (hknown : Draft.known ds e.leaf = true) :
    ∃ t target, d.slot? slot = some (some t) ∧ d.typeName t = e.text ∧
      Draft.target ds d.declarations e.leaf = some target ∧ (d.layers t).core = some target := by
  have hx := h.exhausted hs
  have hread := (List.forall₂_iff_zip.1 h.readAs).2 hxy
  obtain ⟨t?, ht?, hstands⟩ := hread.holds _ hslot
  rw [← h.isSome_leaf?] at hknown
  obtain ⟨target, htarget⟩ := Option.isSome_iff_exists.1 hknown
  obtain ⟨t, rfl, hcore⟩ := hx.core_eq hstands htarget
  have hname : some (d.typeName t) = some e.text := by
    have hshown := hx.typeName_eq_shown hstands
    rwa [TypeExpr.shown, if_pos hknown] at hshown
  exact ⟨t, target, ht?, Option.some.inj hname, (h.leaf?_eq hnames _).symm.trans htarget, hcore⟩

end Document.Matches

namespace Session

variable {s : Session}

/-- At the end nothing is bound, what waits is reported, and otherwise all is well. -/
theorem finish_of_matches (h : s.document.Matches source ds pieces read ws)
    (hs : s.document.Sound ws) (hnames : (ds.map Draft.name).Nodup) (hm : s.messages = []) :
    (s.finish Check.standard ws).document = s.document ∧
      (s.finish Check.standard ws).messages = ws.map Binding.unresolved ∧
      (s.finish Check.standard ws).ok = ws.isEmpty := by
  cases ws with
  | nil =>
    obtain ⟨hdocument, hmessages, hok⟩ :=
      finish_nil (by rw [hm]; rfl) (h.runAll_document hnames)
    exact ⟨hdocument, hmessages.trans hm, hok⟩
  | cons b ws =>
    have hsettle : s.settleAll Check.standard true (b :: ws) = (s, b :: ws) := by
      refine settle_of_not_found fun b hb => ?_
      obtain ⟨hpath, -, hpackage, -⟩ := h.bare b hb
      rw [findAgain_true, Binding.find?, hpackage, hpath, h.plain.findType?_eq,
        (h.exhausted hs).waiting b hb]
    have hreported : s.reported Check.standard (b :: ws) = s.reportUnresolved (b :: ws) := by
      rw [reported, settled, left, hsettle]
    have hmessages : (s.reportUnresolved (b :: ws)).messages =
        (b :: ws).map Binding.unresolved := by
      rw [reportUnresolved, reportAll, hm, List.nil_append]
    have herror : Message.hasError (s.reportUnresolved (b :: ws)).messages = true := by
      rw [hmessages]
      rfl
    rw [finish_eq, hreported, if_pos herror]
    exact ⟨rfl, hmessages, rfl⟩

end Session

end Ending

namespace Outcome

/-- What comes out for drafts in the order in which they are written. All are registered as they
were drafted; each use of a name that is not known is reported where it stands; and every other
slot has the type that is called as it was written, with what its name means inside. -/
structure IsOf (o : Outcome) (root : Option SourceId) (ds : List Draft) (tokens : List Token) :
    Prop where
  declarations : o.document.declarations.map o.document.view? =
    ds.map fun x => some (x.view (TypeExpr.shown (Draft.known ds)))
  messages : o.messages =
    ((uses tokens (ds.flatMap Draft.pieces)).filter fun u => !Draft.known ds u.2.text).map
      fun (classifier, t) => .of .unknownClassifierType ⟨root, t.line, t.column⟩
        [(.classifier, classifier), (.type, t.text)]
  uses : (uses tokens (ds.flatMap Draft.pieces)).map (fun u => (u.1, u.2.text)) =
    ds.flatMap Draft.wanted
  slots : ∀ p ∈ ds.zip o.document.declarations, ∀ q ∈ p.1.slots p.2,
    Draft.known ds q.2.leaf = true → ∃ t target, o.document.slot? q.1 = some (some t) ∧
      o.document.typeName t = q.2.text ∧
      Draft.target ds o.document.declarations q.2.leaf = some target ∧
      (o.document.layers t).core = some target
  ok : o.ok = ds.all fun x => x.types.all fun e => Draft.known ds e.leaf

/-- The outcomes are the same but for the order of declarations and messages, and for the places
at which something is said. -/
structure Agrees (o o' : Outcome) : Prop where
  declarations : (o.document.declarations.map o.document.view?).Perm
    (o'.document.declarations.map o'.document.view?)
  messages : (o.messages.map fun m => (m.kind, m.params)).Perm
    (o'.messages.map fun m => (m.kind, m.params))
  ok : o.ok = o'.ok

end Outcome

section Order

variable {ds ds' : List Draft} {o o' : Outcome} {root root' : Option SourceId}
  {tokens tokens' : List Token}

theorem Drafts.perm (h : Drafts ds) (hperm : ds.Perm ds') : Drafts ds' where
  distinct := (hperm.map Draft.name).nodup_iff.1 h.distinct
  builtins x hx := h.builtins x (hperm.mem_iff.2 hx)
  plain x hx := h.plain x (hperm.mem_iff.2 hx)

/-- It does not matter in which order the drafts stand that make a name known. -/
theorem Draft.known_perm (h : ds.Perm ds') : known ds = known ds' := by
  funext name
  rw [known, known, h.any_eq]

namespace Outcome

/-- What is reported, but for the places, is known from the drafts. -/
theorem IsOf.map_messages (h : o.IsOf root ds tokens) :
    o.messages.map (fun m => (m.kind, m.params)) =
      ((ds.flatMap Draft.wanted).filter fun u => !Draft.known ds u.2).map fun (classifier, name) =>
        (.unknownClassifierType, [(.classifier, classifier), (.type, name)]) := by
  rw [h.messages, ← h.uses, List.map_map, List.filter_map, List.map_map]
  rfl

theorem IsOf.agrees (h : o.IsOf root ds tokens) (h' : o'.IsOf root' ds' tokens')
    (hperm : ds.Perm ds') : o.Agrees o' := by
  have hknown := Draft.known_perm hperm
  refine ⟨?_, ?_, ?_⟩
  · rw [h.declarations, h'.declarations, hknown]
    exact hperm.map _
  · rw [h.map_messages, h'.map_messages, hknown]
    exact ((hperm.flatMap_right _).filter _).map _
  · rw [h.ok, h'.ok, hknown]
    exact hperm.all_eq

end Outcome

end Order

namespace Grammar.Moment

variable {settings : Settings} {root : Option SourceId} {tokens : List Token}
  {m : Moment} {ds : List Draft}

theorem Reached.isOf (hm : Reached settings root tokens m)
    (hchecks : settings.checks = Check.standard) (h : m.Matches root ds tokens [])
    (hds : Drafts ds) : (settings.readTokens root tokens).IsOf root ds tokens := by
  obtain ⟨himporters, hsource, hs⟩ := h
  have hmatches := hs.document
  rw [hsource] at hmatches
  have hsound : m.state.document.Sound m.state.pending := by
    have hsituation := hm.sound
    rw [situation, himporters] at hsituation
    exact hsituation
  obtain ⟨hdocument, hmessages, hok⟩ :=
    Session.finish_of_matches hmatches hsound hds.distinct hs.messages
  have huses := (map_uses hmatches.spell).trans (Draft.filterMap_use?_flatMap ds)
  rw [hm.readTokens_of_rest_nil himporters hs.rest, hchecks]
  refine ⟨?_, ?_, huses, ?_, ?_⟩
  · rw [hdocument]
    exact hmatches.map_view? hsound
  · rw [hmessages]
    exact hmatches.map_unresolved
  · rw [hdocument]
    rintro ⟨x, y⟩ hxy ⟨slot, e⟩ hslot hknown
    exact hmatches.exists_slot hsound hds.distinct hxy hslot hknown
  · rw [hok]
    exact hmatches.isEmpty_eq

end Grammar.Moment

/-- Forward references resolve, in any order. Wherever the pieces of drafts stand in a text, and
they can be written with blanks between them, all drafts are read and registered in order. An
unknown name is reported at each of its uses and nothing else is, and every known one is bound to
the builtin or the draft of this name. In another order the drafts are read as the same. -/
theorem drafts_are_read_in_any_order {settings : Settings}
    (hchecks : settings.checks = Check.standard) (root : Option SourceId) {ds : List Draft}
    (hds : Drafts ds) (hnames : ∀ x ∈ ds, ∀ name ∈ x.names, IsName name) :
    Spell (Token.tokenize (Draft.render ds)) (ds.flatMap Draft.pieces) ∧
      (∀ text, Spell (Token.tokenize text) (ds.flatMap Draft.pieces) →
        (settings.readText root text).IsOf root ds (Token.tokenize text)) ∧
      ∀ ds' text text', ds.Perm ds' → Spell (Token.tokenize text) (ds.flatMap Draft.pieces) →
        Spell (Token.tokenize text') (ds'.flatMap Draft.pieces) →
        (settings.readText root text).Agrees (settings.readText root text') := by
  have hread {ds : List Draft} (hds : Drafts ds) (text : String)
      (htext : Spell (Token.tokenize text) (ds.flatMap Draft.pieces)) :
      (settings.readText root text).IsOf root ds (Token.tokenize text) := by
    have hstart : Moment.Reached settings root (Token.tokenize text) _ := .refl
    obtain ⟨m, hm, hmatches⟩ := hstart.exists_matches hchecks
      (Moment.matches_start settings root (Token.tokenize text)) hds htext
    exact hm.isOf hchecks hmatches hds
  refine ⟨Draft.spell_render hnames, hread hds, fun ds' text text' hperm htext htext' => ?_⟩
  exact (hread hds text htext).agrees (hread (hds.perm hperm) text' htext') hperm

/-- Two structures that lead to each other and to themselves, an enumeration that is used before
it is read, and a name that nothing has. -/
theorem drafts_are_read_in_any_order_mutual :
    let ds : List Draft :=
      [.struct "A" [⟨⟨[.vector, .reference], "B"⟩, "b"⟩, ⟨⟨[.reference], "A"⟩, "self"⟩],
        .interface "I" [⟨"m", [⟨.input, ⟨[], "E"⟩, "e"⟩, ⟨.output, ⟨[.vector], "X"⟩, "x"⟩]⟩],
        .struct "B" [⟨⟨[.vector, .reference], "A"⟩, "a"⟩, ⟨⟨[], "integer"⟩, "n"⟩],
        .enum { flags := true } "E" false ["one", "two"]]
    let outcome := ({} : Settings).readText none (Draft.render ds)
    Drafts ds ∧ outcome.IsOf none ds (Token.tokenize (Draft.render ds)) ∧ outcome.ok = false ∧
      outcome.messages.map (·.params) = [[(.classifier, "parameter"), (.type, "X")]] ∧
      outcome.Agrees (({} : Settings).readText none (Draft.render ds.reverse)) := by
  intro ds outcome
  have hds : Drafts ds := by decide
  have hnames : ∀ x ∈ ds, ∀ name ∈ x.names, IsName name := by decide +kernel
  have hnames' : ∀ x ∈ ds.reverse, ∀ name ∈ x.names, IsName name := by decide +kernel
  obtain ⟨hspell, hread, hagree⟩ := @drafts_are_read_in_any_order {} rfl none ds hds hnames
  have houtcome : outcome.IsOf none ds (Token.tokenize (Draft.render ds)) := hread _ hspell
  have hmessages := congrArg (List.map Prod.snd) houtcome.map_messages
  rw [List.map_map] at hmessages
  exact ⟨hds, houtcome, houtcome.ok.trans (by decide +kernel), hmessages.trans (by decide +kernel),
    hagree _ _ _ (List.reverse_perm ds).symm hspell (Draft.spell_render hnames')⟩

end Idl
