import Idl.Proofs.Grammar.Source

/-!
The imports at the head of a source, as its tokens give them. A complete import gives a name,
a broken one is skipped, and anything else ends the head. To read an import comes to the same.
-/

namespace Idl.Grammar

/-- What is left when a statement breaks in front of some tokens. -/
def behindBroken (tokens : List Token) : List Token :=
  (resumption 0 tokens).dropWhile isClosing

/-- The name that an import gives whose keyword stands in front of the tokens, if the import is
complete, and what is left behind the import. -/
def importName (tokens : List Token) : Option String × List Token :=
  let tokens := tokens.dropWhile Token.isComment
  match tokens.head?.filter (·.kind == .string) with
  | none => (none, behindBroken tokens)
  | some name =>
    let tokens := tokens.tail.dropWhile Token.isComment
    match tokens.head?.filter isSemicolon with
    | none => (none, behindBroken tokens)
    | some _ => (some name.value, tokens.tail)

theorem behindBroken_suffix (tokens : List Token) : behindBroken tokens <:+ tokens :=
  (List.dropWhile_suffix _).trans (resumption_suffix 0 tokens)

theorem importName_suffix (tokens : List Token) : (importName tokens).2 <:+ tokens := by
  have hskip := List.dropWhile_suffix (l := tokens) Token.isComment
  unfold importName
  simp only
  split
  · exact (behindBroken_suffix _).trans hskip
  · have hname := ((List.dropWhile_suffix Token.isComment).trans (List.tail_suffix _)).trans hskip
    split
    · exact (behindBroken_suffix _).trans hname
    · exact (List.tail_suffix _).trans hname

/-- The names that the complete imports at the head of a source give, in their order. -/
def headImports (tokens : List Token) : List String :=
  match _h : tokens.dropWhile Token.isComment with
  | [] => []
  | t :: rest =>
    if t.isKeyword "import" then
      (importName rest).1.toList ++ headImports (importName rest).2
    else []
  termination_by tokens.length
  decreasing_by
    have hrest := (importName_suffix rest).length_le
    have hskip := (List.dropWhile_suffix (l := tokens) Token.isComment).length_le
    rw [_h, List.length_cons] at hskip
    omega

theorem headImports_of_import {tokens rest : List Token} {t : Token}
    (h : tokens.dropWhile Token.isComment = t :: rest) (ht : t.isKeyword "import" = true) :
    headImports tokens = (importName rest).1.toList ++ headImports (importName rest).2 := by
  rw [headImports]
  split
  · rename_i hnil
    rw [h] at hnil
    cases hnil
  · rename_i t' rest' hcons
    cases h.symm.trans hcons
    rw [if_pos ht]

theorem headImports_eq_nil {tokens : List Token}
    (h : ∀ t, (tokens.dropWhile Token.isComment).head? = some t → t.isKeyword "import" = false) :
    headImports tokens = [] := by
  rw [headImports]
  split
  · rfl
  · rename_i t rest hcons
    rw [hcons] at h
    rw [h t rfl]
    rfl

section Read

variable {s s' : State} {accept : Token → Bool} {kind : Message.Kind}
  {params : List (Message.Param × String)} {t : Token}

theorem expect_of_some (h : s.current.filter accept = some t) :
    expect accept kind params s = .ok t s.advance := by
  have hdemand : demand accept kind params s = .ok t s := by
    simp only [demand, run_bind_get, h]
    rfl
  rw [expect, run_bind_of_ok hdemand]
  rfl

theorem expect_of_none (h : s.current.filter accept = none) :
    expect accept kind params s = .error .reported (s.report (.of kind s.here params)) := by
  have hdemand : demand accept kind params s =
      .error .reported (s.report (.of kind s.here params)) := by
    simp only [demand, run_bind_get, h]
    rfl
  rw [expect, run_bind_of_error hdemand]

/-- An import is read if it is complete; otherwise the reading goes on as the tokens tell. -/
theorem importStatement_run {rest : List Token} (hs : s.cursor.rest = t :: rest)
    (ht : t.isKeyword "import" = true) (comment : Option Comment) :
    (∃ name i, (importName rest).1 = some name ∧ i.source = name ∧
      importStatement comment s =
        .ok i { s with cursor := { s.cursor with rest := (importName rest).2 } }) ∨
    (importName rest).1 = none ∧
      ∃ e s', importStatement comment s = .error e s' ∧
        s'.recoverOutside.cursor.rest = (importName rest).2 := by
  have hkeyword : s.current.filter (·.isKeyword "import") = some t := by
    simp [State.current, Cursor.current, hs, Option.filter, ht]
  have hadvance : s.advance.cursor.rest = rest.dropWhile Token.isComment := by
    simp [State.advance, State.shift, State.skipComments, Cursor.shift, Cursor.skipComments, hs]
  rw [importStatement, expectKeyword, run_bind_of_ok (expect_of_some hkeyword)]
  unfold importName
  simp only
  have hname : s.advance.current = (rest.dropWhile Token.isComment).head? := by
    rw [← hadvance]
    rfl
  split
  · rename_i hnone
    rw [← hname] at hnone
    refine .inr ⟨rfl, _, _, run_bind_of_error (expect_of_none hnone) _, ?_⟩
    rw [← hadvance]
    rfl
  · rename_i name hsome
    rw [← hname] at hsome
    rw [run_bind_of_ok (expect_of_some hsome)]
    have hadvance' : s.advance.advance.cursor.rest =
        (rest.dropWhile Token.isComment).tail.dropWhile Token.isComment := by
      rw [← hadvance]
      rfl
    have hend : s.advance.advance.current =
        ((rest.dropWhile Token.isComment).tail.dropWhile Token.isComment).head? := by
      rw [← hadvance']
      rfl
    split
    · rename_i hnone
      rw [← hend] at hnone
      have hdemand : expectSemicolon s.advance.advance = .error .reported
          (s.advance.advance.report (.of .expectSemicolon s.advance.advance.here [])) := by
        simp only [expectSemicolon, demand, bind_assoc, run_bind_get, hnone]
        rfl
      refine .inr ⟨rfl, _, _, run_bind_of_error hdemand _, ?_⟩
      rw [← hadvance']
      rfl
    · rename_i last hlast
      rw [← hend] at hlast
      have hdemand : expectSemicolon s.advance.advance = .ok () s.advance.advance.shift := by
        simp only [expectSemicolon, demand, bind_assoc, run_bind_get, hlast]
        rfl
      rw [run_bind_of_ok hdemand, ← hadvance']
      exact .inl ⟨_, _, rfl, rfl, rfl⟩

end Read

end Idl.Grammar
