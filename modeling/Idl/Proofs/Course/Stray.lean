import Idl.Proofs.Course.Opened
import Idl.Proofs.Course.Revision

/-!
Stray semicolons. One more semicolon behind the end of a statement or in a body, be it in the root
or in an imported source, changes nothing but where messages can point at the end of the source.
There is one exception: behind an import it ends the head of the source, so an import or a package
that follows is taken for a declaration.
-/

namespace Idl

namespace Grammar

variable {x : Option Stray} {y : Stray} {settings : Settings} {read : SourceReader Unit}
  {atHead : Bool} {s s' : State}

section Rounds

/-- The stray semicolon is a statement of its own, and ends the head of the source. -/
theorem statementRound_stray {t : Token} (hc : s.current = some t) (ht : isSemicolon t = true) :
    statementRound settings read atHead s = .ok (.again false) s.shift := by
  have hcomment :=
    s.leadingComment_of_current hc (isComment_of_boundary (isBoundary_of_semicolon ht))
  have hkind : t.kind = .delimiter := beq_iff_eq.1 (Bool.and_eq_true_iff.1 ht).1
  have hkeyword (keyword : String) : (atHead && t.isKeyword keyword) = false := by
    simp [Token.isKeyword, Token.is, hkind]
  simp only [statementRound, run_bind_modifyGet, run_bind_get, hcomment, hc, hkeyword,
    Bool.false_eq_true, if_false, run_bind_modify, State.readStatement, ht, if_true]
  rfl

/-- Neither an import nor the package follows. -/
def State.EndsHead (s : State) : Prop :=
  ∀ t ∈ s.skipComments.current, t.isKeyword "import" = false ∧ t.isKeyword "package" = false

theorem statementRound_head (h : s.EndsHead) (atHead : Bool) :
    statementRound settings read atHead s = statementRound settings read false s := by
  simp only [statementRound, run_bind_modifyGet, run_bind_get]
  cases hc : (s.leadingComment).2.current with
  | none => rfl
  | some t =>
    obtain ⟨himport, hpackage⟩ := h t hc
    simp only [himport, hpackage, Bool.and_false]

theorem iterate_head (h : atHead = true → s.EndsHead) :
    iterate (statementRound settings read) atHead s =
      iterate (statementRound settings read) false s := by
  cases atHead with
  | false => rfl
  | true => rw [iterate, statementRound_head (h rfl), ← iterate]

/-- Where there is no stray semicolon any more, all rounds that follow are alike. -/
theorem accordsAt_iterate
    (hread : ∀ s s' : State, s.Beside none .clear s' → AccordsAt none read s s')
    (atHead : Bool) (hs : s.Beside none .clear s') :
    AccordsAt none (iterate (statementRound settings read) atHead) s s' := by
  have hrounds := progresses_statementRound settings read
  induction hn : s.remaining using Nat.strongRecOn generalizing atHead s s' with
  | ind n ih =>
    have hround : AccordsAt none (statementRound settings read atHead) s s' :=
      accordsAt_statementRound hread atHead hs
    cases hround with
    | outrun _ ht =>
      obtain ⟨_, hy, _⟩ := ht
      cases hy
    | stopped h h' ht => exact .stopped (iterate_of_error h) (iterate_of_error h') ht
    | @ok round t t' h h' ht =>
      cases round with
      | done b => exact .ok (iterate_of_done h) (iterate_of_done h') ht
      | again next =>
        have hlt : t.remaining < s.remaining := (After.of_ok (hrounds atHead s) h).2 next rfl
        have hlt' : t'.remaining < s'.remaining := (After.of_ok (hrounds atHead s') h').2 next rfl
        exact (ih t.remaining (hn ▸ hlt) next (ht.of_none none) rfl).of_eq
          (iterate_of_again h hlt) (iterate_of_again h' hlt')

/-- An imported source is read alike. -/
theorem accordsAt_source (settings : Settings) (levels : Nat) :
    ∀ s s' : State, s.Beside none .clear s' → AccordsAt none (source settings levels) s s' := by
  induction levels with
  | zero => exact fun s s' hs => .stopped rfl rfl hs.session
  | succ levels ih => exact fun s s' hs => accordsAt_iterate ih true hs

/-- Behind the stray semicolon the readings have the same left. -/
theorem State.Beside.past (h : s.Beside (some y) .clear s') (hle : s.remaining ≤ y.rest.length) :
    s.Beside none .clear s' := by
  obtain ⟨hm, hc⟩ := h
  exact .of_rest hm (hc.eq_of_length hle)

/-- From where the stray semicolon stands or is read already, the rest of the source is read alike,
unless an import or a package follows at the head. -/
theorem accordsAt_behind (settings : Settings) (levels : Nat) (hs : s.Beside (some y) .any s')
    (hle : s.remaining ≤ y.rest.length) (hh : atHead = true → s.EndsHead) :
    AccordsAt none (iterate (statementRound settings (source settings levels)) atHead) s s' := by
  have hread := accordsAt_source settings levels
  rcases hs.clear_or_here with hs | ⟨y', _, _, hc, hs⟩
  · exact accordsAt_iterate hread atHead (hs.past hle)
  · have hlt : s'.shift.remaining < s'.remaining := State.remaining_shift_lt hc
    exact (accordsAt_iterate hread false hs).of_eq (iterate_head hh)
      (iterate_of_again (statementRound_stray hc y'.stray) hlt)

end Rounds

section Places

open Moment

variable {m : Moment}

/-- The source that is read at `m` stands between two of its statements further on. What it
imports is read in the rounds of the imports. -/
inductive Between (settings : Settings) (m : Moment) : Bool → State → Prop where
  | start : Between settings m m.atHead m.state
  | next {atHead next : Bool} {s s' : State} (h : Between settings m atHead s)
      (hr : statementRound settings (source settings m.levels) atHead s = .ok (.again next) s') :
      Between settings m next s'

/-- The places for a stray semicolon between the token `front` and the tokens `rest`: the points
between two statements, the points between two items of a body in a declaration, and all that is
not read since an import has failed. -/
inductive Place (settings : Settings) (m : Moment) (front : Token) (rest : List Token) :
    Prop where
  | between {atHead : Bool} {s : State} (h : Between settings m atHead s)
      (hs : s.cursor.rest = rest) (hf : isOpening front = false)
      (hh : atHead = true → s.EndsHead) : Place settings m front rest
  | inside {atHead : Bool} {site : Site} {s s' : State} (h : Between settings m atHead s)
      (hi : Inside settings.checks ⟨m.levels, m.importers, atHead, s⟩ site s')
      (hs : s'.cursor.rest = rest) : Place settings m front rest
  | unread {atHead : Bool} {s s' : State} {e : Stopped} (h : Between settings m atHead s)
      (hr : statementRound settings (source settings m.levels) atHead s = .error e s')
      (hlt : rest.length < s.remaining) : Place settings m front rest

/-- What a source is read with from a point between two of its statements. -/
abbrev rounds (settings : Settings) (levels : Nat) : Bool → SourceReader Unit :=
  iterate (statementRound settings (source settings levels))

variable {next : Bool} {t : State} {levels : Nat}

theorem remaining_round_lt
    (hr : statementRound settings (source settings levels) atHead s = .ok (.again next) t) :
    t.remaining < s.remaining :=
  (After.of_ok (progresses_statementRound settings _ atHead s) hr).2 next rfl

theorem Between.run_eq (h : Between settings m atHead s) :
    rounds settings m.levels m.atHead m.state = rounds settings m.levels atHead s := by
  induction h with
  | start => rfl
  | next _ hr ih => exact ih.trans (iterate_of_again hr (remaining_round_lt hr))

/-- A round of the reading without the semicolon, which may outrun the other. -/
theorem round_beside (hs : s.Beside x .clear s')
    (hr : statementRound settings (source settings levels) atHead s = .ok (.again next) t) :
    t.Outruns x ∨ ∃ t', t.Beside x .any t' ∧
      rounds settings levels atHead s' = rounds settings levels next t' := by
  cases accordsAt_statementRound (accordsAt_source settings _) atHead hs with
  | @ok a u u' h h' hu =>
    cases hr.symm.trans h
    exact .inr ⟨u', hu, iterate_of_again h' (remaining_round_lt h')⟩
  | outrun h hu =>
    cases hr.symm.trans h
    exact .inl hu
  | stopped h => cases hr.symm.trans h

variable {s₀ : State} (hm : m.state.Beside (some y) .clear s₀)

include hm

/-- Up to the statement in front of the stray semicolon the source is read alike. -/
theorem Between.beside (h : Between settings m atHead s) (hlt : y.rest.length < s.remaining) :
    ∃ s', s.Beside (some y) .clear s' ∧
      rounds settings m.levels m.atHead s₀ = rounds settings m.levels atHead s' := by
  induction h with
  | start => exact ⟨s₀, hm, rfl⟩
  | @next atHead next s t h hr ih =>
    obtain ⟨s', hs, hrun⟩ := ih (Nat.lt_trans hlt (remaining_round_lt hr))
    rcases round_beside hs hr with ⟨z, hz, hless⟩ | ⟨t', ht, hrun'⟩
    · cases hz
      omega
    · rcases ht.clear_or_here with ht | ⟨z, hz, hrest, _⟩
      · exact ⟨t', ht, hrun.trans hrun'⟩
      · cases hz
        rw [State.remaining, hrest] at hlt
        omega

/-- The semicolon stands behind a statement. -/
theorem Between.accords (h : Between settings m atHead s) (hs : s.cursor.rest = y.rest)
    (hlt : y.rest.length < m.state.remaining) (hf : isOpening y.front = false)
    (hh : atHead = true → s.EndsHead) :
    AccordsAt none (rounds settings m.levels m.atHead) m.state s₀ := by
  have hlength : s.remaining = y.rest.length := congrArg List.length hs
  have hrun := h.run_eq
  cases h with
  | start =>
    -- the token in front of the semicolon is still left at the start
    omega
  | @next atHead _ s₁ _ h hr =>
    obtain ⟨s', hs', hrun'⟩ := h.beside hm (hlength ▸ remaining_round_lt hr)
    rcases round_beside hs' hr with ⟨z, hz, hless | ⟨hopening, _⟩⟩ | ⟨t', ht, hnext⟩
    · cases hz
      omega
    · cases hz
      rw [hf] at hopening
      cases hopening
    · exact (accordsAt_behind settings m.levels ht (Nat.le_of_eq hlength) hh).of_eq hrun
        (hrun'.trans hnext)

/-- The semicolon stands in the body of a declaration. -/
theorem Between.accords_inside {site : Site} {u : State} (h : Between settings m atHead s)
    (hi : Inside settings.checks ⟨m.levels, m.importers, atHead, s⟩ site u)
    (hu : u.cursor.rest = y.rest) :
    AccordsAt none (rounds settings m.levels m.atHead) m.state s₀ := by
  obtain ⟨comment, start, he, _⟩ := hi.encloses
  have hlength : u.remaining = y.rest.length := congrArg List.length hu
  have hskip : start.remaining ≤ s.remaining := by
    cases he.declares.state
    exact s.cursor.skipComments_rest_length_le
  obtain ⟨s', hs', hrun'⟩ := h.beside hm (Nat.lt_of_lt_of_le (hlength ▸ he.starts) hskip)
  have hstart : start.Beside (some y) .clear s'.skipComments := by
    cases he.declares.state
    exact hs'.skipComments
  have hdeclares : Declares ⟨m.levels, m.importers, atHead, s'⟩ comment s'.skipComments := by
    obtain ⟨first, hc, hfirst⟩ := he.declares.first
    refine ⟨Prod.ext (hs'.commentOf?.trans ?_) rfl, first, hstart.current.trans hc, hfirst⟩
    exact congrArg Prod.fst he.declares.state
  have hr := he.declares.statementRound_eq settings (source settings m.levels)
  have hr' := hdeclares.statementRound_eq settings (source settings m.levels)
  exact (accordsAt_behind settings m.levels (declare_itemized hstart he.itemized he.failed)
    (hlength ▸ he.ends) fun hhead => absurd hhead Bool.false_ne_true).of_eq
      (h.run_eq.trans (iterate_of_again hr (remaining_round_lt hr)))
      (hrun'.trans (iterate_of_again hr' (remaining_round_lt hr')))

/-- The semicolon is not read. -/
theorem Between.accords_unread {e : Stopped} (h : Between settings m atHead s)
    (hr : statementRound settings (source settings m.levels) atHead s = .error e t)
    (hlt : y.rest.length < s.remaining) :
    AccordsAt none (rounds settings m.levels m.atHead) m.state s₀ := by
  obtain ⟨s', hs', hrun'⟩ := h.beside hm hlt
  cases accordsAt_statementRound (accordsAt_source settings _) atHead hs' with
  | ok h | outrun h => cases hr.symm.trans h
  | stopped h₁ h' ht =>
    exact .stopped (h.run_eq.trans (iterate_of_error h₁)) (hrun'.trans (iterate_of_error h')) ht

theorem Place.accords (h : Place settings m y.front y.rest)
    (hlt : y.rest.length < m.state.remaining) :
    AccordsAt none (rounds settings m.levels m.atHead) m.state s₀ := by
  cases h with
  | between h hs hf hh => exact h.accords hm hs hlt hf hh
  | inside h hi hs => exact h.accords_inside hm hi hs
  | unread h hr hlt => exact h.accords_unread hm hr hlt

end Places

section Importers

/-- An importer goes on alike behind a source that was read alike. -/
theorem State.Beside.resume {edge : Edge} (h : s.Beside none edge s') (checks : List Check)
    (importer : Reading) :
    (State.resume checks importer s).Beside none .clear (.resume checks importer s') := by
  have hleave : (State.leave ⟨s.toSession, importer⟩ s).Beside none .clear
      (State.leave ⟨s'.toSession, importer⟩ s') := by
    obtain ⟨hm, _⟩ := h
    exact .of_rest hm rfl
  exact hleave.settle fun _ _ pending hs => hs.settleAll checks false pending

/-- If the innermost source is read alike, the session comes to the same. -/
theorem AccordsAt.outcome {levels : Nat}
    (h : AccordsAt none (rounds settings levels atHead) s s') (importers : List Reading) :
    (Moment.outcomeOf settings (Moment.run settings ⟨levels, importers, atHead, s'⟩)).placeless =
      (Moment.outcomeOf settings
        (Moment.run settings ⟨levels, importers, atHead, s⟩)).placeless := by
  induction importers generalizing levels atHead s s' with
  | nil =>
    cases h with
    | @ok a t t' h h' ht =>
      have hfinish := ht.session.finish settings.checks t.pending
      simp only [Moment.run, Moment.unwind, h, h', Moment.outcomeOf, ht.pending]
      exact hfinish
    | outrun _ ht =>
      obtain ⟨_, hy, _⟩ := ht
      cases hy
    | stopped h h' ht =>
      simp only [Moment.run, Moment.unwind, h, h', Moment.outcomeOf]
      exact ht.ofSession false
  | cons importer importers ih =>
    cases h with
    | @ok a t t' h h' ht =>
      have hback := ht.resume settings.checks importer
      have hgo := ih (accordsAt_source settings (levels + 2) _ _ hback)
      simp only [Moment.run, h, h', Moment.unwind]
      exact hgo
    | outrun _ ht =>
      obtain ⟨_, hy, _⟩ := ht
      cases hy
    | @stopped e t t' h h' ht =>
      obtain ⟨u, hu, hsession⟩ :=
        Moment.unwind_error settings (importer :: importers) levels e t
      obtain ⟨u', hu', hsession'⟩ :=
        Moment.unwind_error settings (importer :: importers) levels e t'
      simp only [Moment.run, h, h', hu, hu', Moment.outcomeOf, hsession, hsession']
      exact ht.ofSession false

end Importers

/-- A session in which one source has one more semicolon: the root, or a source that is opened by
an import and for which the provider gives another text. -/
inductive Strays (settings : Settings) (root : Option SourceId) (tokens : List Token) (y : Stray) :
    Settings → List Token → Prop where
  | root {before : List Token} (ht : tokens = before ++ y.front :: y.rest)
      (h : Place settings (.start settings root tokens) y.front y.rest) :
      Strays settings root tokens y settings (before ++ y.front :: y.semicolon :: y.rest)
  | imported {levels : Nat} {importers : List Reading} {s s' : State} {i : Import}
      {id : SourceId} {text text' : String} {before : List Token}
      (hm : Moment.Reached settings root tokens ⟨levels + 1, importers, true, s⟩)
      (hi : s.Imports i s') (hf : s'.target settings i = .fresh id text)
      (ht : Token.tokenize text = before ++ y.front :: y.rest)
      (ht' : Token.tokenize text' = before ++ y.front :: y.semicolon :: y.rest)
      (h : Place settings (.opened levels importers s' i id text) y.front y.rest) :
      Strays settings root tokens y (settings.revise id text') tokens

end Grammar

/-- One more semicolon in the root or in an imported source changes nothing but where the messages
point: behind the end of a statement, if no import and no package follows at the head of the
source, behind any semicolon and any bracket in the body of a declaration, and wherever nothing is
read any more. -/
theorem stray_semicolons_are_ignored (settings settings' : Settings) (root : Option SourceId)
    (tokens tokens' : List Token) (y : Grammar.Stray)
    (h : Grammar.Strays settings root tokens y settings' tokens') :
    (settings'.readTokens root tokens').placeless =
      (settings.readTokens root tokens).placeless := by
  have hlength (before : List Token) :
      y.rest.length < (before ++ y.front :: y.rest).length := by
    simp only [List.length_append, List.length_cons]
    omega
  cases h with
  | @root before ht h =>
    subst ht
    have hbeside : (Grammar.State.root root (before ++ y.front :: y.rest)).Beside (some y) .clear
        (.root root (before ++ y.front :: y.semicolon :: y.rest)) := by
      refine .intro rfl ?_
      simp only [Grammar.State.root, Cursor.rest_ofTokens]
      exact .before rfl before
    have hleft : (Grammar.State.root root (before ++ y.front :: y.rest)).cursor.rest =
        before ++ y.front :: y.rest := Cursor.rest_ofTokens _
    have hlt : y.rest.length <
        (Grammar.State.root root (before ++ y.front :: y.rest)).remaining := by
      rw [Grammar.State.remaining, hleft]
      exact hlength before
    exact (h.accords hbeside hlt).outcome []
  | @imported levels importers s s' i id text text' before hm hi hf ht ht' h =>
    let m (text : String) : Grammar.Moment := .opened levels importers s' i id text
    have hleft (text : String) : (m text).state.cursor.rest = Token.tokenize text :=
      Cursor.rest_ofTokens _
    have hbeside : (m text).state.Beside (some y) .clear (m text').state := by
      refine Grammar.State.Beside.intro rfl ?_
      rw [hleft, Cursor.ofText, Cursor.rest_ofTokens, ht, ht']
      exact .before rfl before
    have hinto : Grammar.Moment.Reached settings root tokens (m text) :=
      .tail hm (Grammar.Moment.Move.step (.into hi hf))
    have hlt : y.rest.length < (m text).state.remaining := by
      rw [Grammar.State.remaining, hleft, ht]
      exact hlength before
    rw [Grammar.Moment.readTokens_revise hm hi hf text', hinto.readTokens_eq_run]
    exact (h.accords hbeside hlt).outcome _

/-- A semicolon for a blank, behind an import that no other one follows, behind the bracket that
opens a body, and in an imported source. -/
theorem stray_semicolons_are_ignored_for_blanks :
    let settings : Settings := {}
    let outcome text := (settings.readTokens none (Token.tokenize text)).placeless
    let shelf : Shelf := { texts := [("a", "structure A \x7b \x7d  structure B \x7b \x7d")] }
    let importing : Settings := { provider := some shelf.provider }
    let id := SourceId.ofValue "a"
    let imports := Token.tokenize "import \"a\";"
    outcome "import \"a\";; structure A \x7b \x7d" =
        outcome "import \"a\";  structure A \x7b \x7d" ∧
      outcome "structure A \x7b; string b; \x7d" =
        outcome "structure A \x7b  string b; \x7d" ∧
      ((importing.revise id "structure A \x7b \x7d; structure B \x7b \x7d").readTokens none
        imports).placeless = (importing.readTokens none imports).placeless := by
  intro settings outcome shelf importing id imports
  refine ⟨?_, ?_, ?_⟩
  · let tokens := Token.tokenize "import \"a\";  structure A \x7b \x7d"
    let y : Grammar.Stray := ⟨⟨.delimiter, ";", ⟨10, 1, 11⟩⟩, ⟨.delimiter, ";", ⟨11, 1, 12⟩⟩,
      tokens.drop 3, rfl, rfl⟩
    have hwith : Token.tokenize "import \"a\";; structure A \x7b \x7d" =
        tokens.take 2 ++ y.front :: y.semicolon :: y.rest := by decide +kernel
    have hwithout : tokens = tokens.take 2 ++ y.front :: y.rest := by decide +kernel
    have hread : (match Grammar.statementRound settings (Grammar.source settings 65) true
        (.root none tokens) with
      | .ok (.again _) s => decide (s.cursor.rest = y.rest) &&
        s.skipComments.current.all fun t => !t.isKeyword "import" && !t.isKeyword "package"
      | _ => false) = true := by decide +kernel
    have hplace : Grammar.Place settings (.start settings none tokens) y.front y.rest := by
      split at hread
      · rename_i next s hr
        simp only [Bool.and_eq_true, decide_eq_true_eq, Option.all_eq_true,
          Bool.not_eq_true'] at hread
        exact .between (.next .start hr) hread.1 rfl fun _ => hread.2
      · cases hread
    have hsame := stray_semicolons_are_ignored settings settings none tokens _ y
      (.root hwithout hplace)
    rwa [← hwith] at hsame
  · let tokens := Token.tokenize "structure A \x7b  string b; \x7d"
    let y : Grammar.Stray := ⟨⟨.bracket, "\x7b", ⟨12, 1, 13⟩⟩, ⟨.delimiter, ";", ⟨13, 1, 14⟩⟩,
      tokens.drop 3, rfl, rfl⟩
    have hwith : Token.tokenize "structure A \x7b; string b; \x7d" =
        tokens.take 2 ++ y.front :: y.semicolon :: y.rest := by decide +kernel
    have hwithout : tokens = tokens.take 2 ++ y.front :: y.rest := by decide +kernel
    let s : Grammar.State := .root none tokens
    have hword : (s.skipComments.current.any fun t =>
        t.kind == .identifier && !t.isKeyword "import" && !t.isKeyword "package") = true := by
      decide +kernel
    have hread : (match Grammar.modifiers Grammar.declarationModifiers s.skipComments with
      | .ok taken s₁ =>
        decide ((s₁.current.bind fun t => Grammar.DeclarationForm.ofKeyword? t.text) =
          some .struct) &&
        match Grammar.structureHeader (s.commentOf? s.cursor.rest) taken s₁ with
        | .ok _ s₂ => match Grammar.openBody "structure" s₂ with
          | .ok _ s₃ => decide (s₃.cursor.rest = y.rest)
          | _ => false
        | _ => false
      | _ => false) = true := by decide +kernel
    have hplace : Grammar.Place settings (.start settings none tokens) y.front y.rest := by
      obtain ⟨t, hc, hkind⟩ := (Option.any_eq_true _ _).1 hword
      simp only [Bool.and_eq_true, beq_iff_eq, Bool.not_eq_true'] at hkind
      have hd : Grammar.Moment.Declares ⟨65, [], true, s⟩ _ s.skipComments :=
        ⟨rfl, t, hc, hkind.1.1, fun _ => ⟨hkind.1.2, hkind.2⟩⟩
      split at hread
      · rename_i taken s₁ ht
        simp only [Bool.and_eq_true, decide_eq_true_eq] at hread
        obtain ⟨hform, hread⟩ := hread
        split at hread
        · rename_i id s₂ hh
          split at hread
          · rename_i s₃ ho
            exact .inside .start (.top hd ht hform (.struct hh) ho) (of_decide_eq_true hread)
          · cases hread
        · cases hread
      · cases hread
    have hsame := stray_semicolons_are_ignored settings settings none tokens _ y
      (.root hwithout hplace)
    rwa [← hwith] at hsame
  · let text := "structure A \x7b \x7d  structure B \x7b \x7d"
    let tokens := Token.tokenize text
    let y : Grammar.Stray := ⟨⟨.bracket, "\x7d", ⟨14, 1, 15⟩⟩, ⟨.delimiter, ";", ⟨15, 1, 16⟩⟩,
      tokens.drop 4, rfl, rfl⟩
    have hwithout : Token.tokenize text = tokens.take 3 ++ y.front :: y.rest := by decide +kernel
    have hwith : Token.tokenize "structure A \x7b \x7d; structure B \x7b \x7d" =
        tokens.take 3 ++ y.front :: y.semicolon :: y.rest := by decide +kernel
    let s : Grammar.State := .root none imports
    have hread : (match Grammar.importStatement s.comment? s.skipComments with
      | .ok i s' => decide (s'.target importing i = .fresh id text) &&
        match Grammar.statementRound importing (Grammar.source importing 64) true
          ((s'.takeIn i id).enter (s'.sources.register id).1 text) with
        | .ok (.again false) s => decide (s.cursor.rest = y.rest)
        | _ => false
      | _ => false) = true := by decide +kernel
    have hkeyword : (s.skipComments.current.any fun t => t.isKeyword "import") = true := by
      decide +kernel
    obtain ⟨first, hc, hfirst⟩ := (Option.any_eq_true _ _).1 hkeyword
    split at hread
    · rename_i i s' hi
      obtain ⟨hf, hread⟩ := Bool.and_eq_true_iff.1 hread
      split at hread
      · rename_i s'' hr
        exact stray_semicolons_are_ignored importing _ none imports imports y
          (.imported .refl ⟨⟨first, hc, hfirst⟩, hi⟩ (of_decide_eq_true hf) hwithout hwith
            (.between (.next .start hr) (of_decide_eq_true hread) rfl nofun))
      · cases hread
    · cases hread

/-- That no import follows at the head is needed. Behind the stray semicolon the second import is
no statement any more, and the source is rejected. -/
theorem stray_semicolon_ends_the_imports :
    let settings : Settings := {}
    let tokens := Token.tokenize "import \"a\";  import \"b\";"
    let semicolon : Token := ⟨.delimiter, ";", ⟨11, 1, 12⟩⟩
    let without := settings.readTokens none tokens
    let stray := settings.readTokens none (tokens.take 3 ++ semicolon :: tokens.drop 3)
    Token.tokenize "import \"a\";; import \"b\";" =
        tokens.take 3 ++ semicolon :: tokens.drop 3 ∧
      without.ok = true ∧ stray.ok = false ∧
      without.messages.map (·.kind) =
        [.importWithoutSourceProvider, .importWithoutSourceProvider] ∧
      stray.messages.map (·.kind) = [.importWithoutSourceProvider, .unknownStatement] ∧
      without.document.imports.map (·.source) = ["a", "b"] ∧
      stray.document.imports.map (·.source) = ["a"] := by
  decide +kernel

end Idl
