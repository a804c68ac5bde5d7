import Idl.Proofs.Course.Move
import Idl.Proofs.Draft.Registration

/-!
The course of a session that reads nothing but drafts. Each step reads a draft and registers it,
so after all steps every draft has been registered, in order, and no token is left.
-/

namespace Idl.Grammar

namespace Moment

variable {settings : Settings} {root : Option SourceId} {tokens : List Token} {m : Moment}

/-- A word that starts neither an import nor a package starts a declaration. -/
theorem declares_of_clear {t : Token} (h : m.state.cursor.rest = t :: tokens)
    (hclear : Clear m.state.cursor.rest) (hkind : t.kind = .identifier)
    (himport : t.isKeyword "import" = false) (hpackage : t.isKeyword "package" = false) :
    m.Declares none m.state :=
  ⟨State.leadingComment_of_clear hclear, t, congrArg List.head? h, hkind,
    fun _ => ⟨himport, hpackage⟩⟩

/-- The session ends where no token of the root is left. -/
theorem Reached.readTokens_of_rest_nil (hm : Reached settings root tokens m)
    (himporters : m.importers = []) (hrest : m.state.cursor.rest = []) :
    settings.readTokens root tokens =
      m.state.toSession.finish settings.checks m.state.pending := by
  have hskip : m.state.leadingComment = (none, m.state) := by
    refine State.leadingComment_of_clear ?_
    rw [hrest]
    exact fun _ h => absurd h List.not_mem_nil
  have hlast : m.state.skipComments.current = none := by
    rw [show m.state.skipComments = m.state from congrArg Prod.snd hskip]
    exact congrArg List.head? hrest
  have hended : m.state.ended = m.state := by
    change m.state.leadingComment.2.misplaced m.state.leadingComment.1 = m.state
    rw [hskip]
    rfl
  rw [hm.readTokens_eq (.ended himporters hlast), hended]

end Moment

theorem exists_head_of_word {tokens : List Token} {word : String} {more : List Piece}
    (h : Spell tokens (.word word :: more)) (himport : word ≠ "import")
    (hpackage : word ≠ "package") :
    ∃ t tail, tokens = t :: tail ∧ t.kind = .identifier ∧ t.isKeyword "import" = false ∧
      t.isKeyword "package" = false := by
  obtain ⟨t, tail, rfl, ht, -⟩ := spell_cons.1 h
  simp only [Token.is, Bool.and_eq_true, beq_iff_eq, Piece.word] at ht
  exact ⟨t, tail, rfl, ht.1, by simp [Token.isKeyword, Token.is, ht, himport],
    by simp [Token.isKeyword, Token.is, ht, hpackage]⟩

/-- A draft starts with a keyword, and not with that of an import or a package. -/
theorem exists_head_draft {tokens : List Token} {x : Draft} (h : Spell tokens x.pieces) :
    ∃ t tail, tokens = t :: tail ∧ t.kind = .identifier ∧ t.isKeyword "import" = false ∧
      t.isKeyword "package" = false := by
  cases x with
  | struct | interface => exact exists_head_of_word h (by decide) (by decide)
  | enum front name behind values =>
    rcases front with ⟨_ | ⟨_ | _⟩, _ | _, _ | _⟩ <;>
      exact exists_head_of_word h (by decide) (by decide)

namespace Moment

/-- Where a session stands that has read nothing but drafts. -/
structure Matches (m : Moment) (root : Option SourceId) (ds : List Draft)
    (read rest : List Token) : Prop where
  importers : m.importers = []
  source : m.state.source = root
  state : m.state.Matches ds read rest

variable {settings : Settings} {root : Option SourceId} {all read tokens rest : List Token}
  {m : Moment} {ds todo : List Draft} {x : Draft}

theorem matches_start (settings : Settings) (root : Option SourceId) (tokens : List Token) :
    (start settings root tokens).Matches root [] [] tokens := by
  refine ⟨rfl, rfl, ?_, ?_, Cursor.rest_ofTokens tokens, ?_⟩
  · cases root <;> rfl
  · cases root <;> rfl
  · have hplain : (start settings root tokens).state.document.IsPlain := by
      cases root <;> exact Document.isPlain_setMain _
    refine ⟨hplain, ?_, ?_, spell_nil.2 rfl, ?_, ?_⟩
    · cases root <;> exact .nil
    · cases root <;> rfl
    · rfl
    · exact fun b hb => absurd hb List.not_mem_nil

/-- The next draft is read. -/
theorem Reached.declare (hm : Reached settings root all m)
    (hchecks : settings.checks = Check.standard) (h : m.Matches root ds read (tokens ++ rest))
    (hx : x.IsPlain) (hnew : x.name ∉ ds.map Draft.name)
    (hbuiltin : Builtin.ofKeyword? x.name = none) (htokens : Spell tokens x.pieces)
    (hclear : Clear (tokens ++ rest)) :
    ∃ m', Reached settings root all m' ∧ m'.Matches root (ds ++ [x]) (read ++ tokens) rest := by
  obtain ⟨levels, importers, atHead, s⟩ := m
  obtain ⟨himporters, hsource, hs⟩ := h
  simp only at himporters hsource hs
  subst himporters
  have hdeclares : (⟨levels, [], atHead, s⟩ : Moment).Declares none s := by
    obtain ⟨t, tail, rfl, hkind, himport, hpackage⟩ := exists_head_draft htokens
    exact declares_of_clear hs.rest (hs.rest ▸ hclear) hkind himport hpackage
  obtain ⟨hmatches, hsame⟩ := hs.declare (hm.sound) hx hnew hbuiltin htokens hclear
  have hmove : Move settings ⟨levels, [], atHead, s⟩ _ := .declare hdeclares
  rw [hchecks] at hmove
  exact ⟨_, hm.tail hmove.step, rfl, hsame.trans hsource, hmatches⟩

/-- All drafts are read, one after the other. -/
theorem Reached.exists_matches (hm : Reached settings root all m)
    (hchecks : settings.checks = Check.standard) (h : m.Matches root ds read tokens)
    (hds : Drafts (ds ++ todo)) (htokens : Spell tokens (todo.flatMap Draft.pieces)) :
    ∃ m', Reached settings root all m' ∧ m'.Matches root (ds ++ todo) (read ++ tokens) [] := by
  induction todo generalizing ds read tokens m with
  | nil =>
    rw [List.flatMap_nil, spell_nil] at htokens
    subst htokens
    exact ⟨m, hm, by simpa using h⟩
  | cons x todo ih =>
    have hclear : Clear tokens := clear_of_spell htokens fun p hp => by
      obtain ⟨x, _, hp⟩ := List.mem_flatMap.1 hp
      exact Draft.kind_ne_comment p hp
    obtain ⟨a, b, rfl, ha, hb⟩ := spell_append.1 htokens
    have hx : x ∈ ds ++ x :: todo := by simp
    have hnew : x.name ∉ ds.map Draft.name := by
      have hdistinct := hds.distinct
      rw [List.map_append, List.map_cons] at hdistinct
      exact fun hmem => List.disjoint_of_nodup_append hdistinct hmem List.mem_cons_self
    obtain ⟨m₁, hm₁, h₁⟩ :=
      hm.declare hchecks h (hds.plain x hx) hnew (hds.builtins x hx) ha hclear
    rw [List.append_cons] at hds ⊢
    rw [← List.append_assoc]
    exact ih hm₁ h₁ hds hb

end Moment

end Idl.Grammar
