import Idl.Proofs.Text.Place
import Idl.Proofs.Token.Lexer

/-!
How the tokens of a text lie in it. Each of them is a range of the text that is not empty and that
starts and ends between two characters; the ranges follow one another without overlapping, and
what they leave of the text are the characters that the lexer skips. So putting the tokens between
these gaps gives the text back, whatever the text is. The places of the tokens are read off the
text in front of them, and a line index that is made without the tokens finds the same places.
-/

namespace Idl

namespace Text

/-- What is left of a text behind its first bytes. -/
def dropBytes (count : Nat) : List Char → List Char
  | [] => []
  | c :: rest => if count = 0 then c :: rest else dropBytes (count - c.utf8Size) rest

/-- The characters of a text that start in its first bytes. -/
def takeBytes (count : Nat) : List Char → List Char
  | [] => []
  | c :: rest => if count = 0 then [] else c :: takeBytes (count - c.utf8Size) rest

/-- The characters of a text between two of its offsets. -/
def slice (text : List Char) (start stop : Nat) : List Char :=
  takeBytes (stop - start) (dropBytes start text)

variable (a b c : List Char)

@[simp]
theorem dropBytes_append : dropBytes (byteCount a) (a ++ b) = b := by
  induction a with
  | nil => cases b <;> simp [dropBytes]
  | cons x a ih =>
    have hx : x.utf8Size + byteCount a ≠ 0 := by
      have := x.utf8Size_pos
      omega
    simp only [List.cons_append, dropBytes, byteCount, hx, if_false, Nat.add_sub_cancel_left, ih]

@[simp]
theorem takeBytes_append : takeBytes (byteCount a) (a ++ b) = a := by
  induction a with
  | nil => cases b <;> simp [takeBytes]
  | cons x a ih =>
    have hx : x.utf8Size + byteCount a ≠ 0 := by
      have := x.utf8Size_pos
      omega
    simp only [List.cons_append, takeBytes, byteCount, hx, if_false, Nat.add_sub_cancel_left, ih]

@[simp]
theorem slice_append : slice (a ++ (b ++ c)) (byteCount a) (byteCount (a ++ b)) = b := by
  rw [slice, dropBytes_append, byteCount_append, Nat.add_sub_cancel_left, takeBytes_append]

theorem Place.offset_after (p : Place) (text : List Char) :
    (p.after text).offset = p.offset + byteCount text := by
  induction text generalizing p with
  | nil => rfl
  | cons c rest ih =>
    have hnext : (p.next c).offset = p.offset + c.utf8Size := by
      by_cases h : c = '\n'
      · subst h
        rfl
      · rw [Place.next, if_neg h]
    rw [byteCount, ← Nat.add_assoc, ← hnext, ← ih]
    rfl

theorem lines_of_not_mem {text : List Char} (h : '\n' ∉ text) (hne : text ≠ []) :
    lines text = [text] := by
  fun_induction lines text with
  | case1 => exact absurd rfl hne
  | case2 rest => exact absurd List.mem_cons_self h
  | case3 rest => exact absurd (List.mem_cons_of_mem _ List.mem_cons_self) h
  | case4 c rest _ _ hempty ih =>
    cases rest with
    | nil => rfl
    | cons d rest =>
      rw [ih (fun hm => h (List.mem_cons_of_mem c hm)) (List.cons_ne_nil d rest)] at hempty
      cases hempty
  | case5 c rest _ _ line more hlines ih =>
    cases rest with
    | nil => cases hlines
    | cons d rest =>
      rw [ih (fun hm => h (List.mem_cons_of_mem c hm)) (List.cons_ne_nil d rest)] at hlines
      cases hlines
      rfl

end Text

namespace Token

open Text

/-- What a text has in front of its tokens and behind the last; `stop` is the end of the token
before these. -/
def gaps (text : List Char) (stop : Nat) : List Token → List (List Char)
  | [] => [dropBytes stop text]
  | t :: tokens => slice text stop t.start :: gaps text t.stop tokens

/-- The gaps with a token between any two. -/
def interleave : List (List Char) → List Token → List Char
  | gap :: gaps, t :: tokens => gap ++ (t.text.toList ++ interleave gaps tokens)
  | gaps, _ => gaps.flatten

/-- A token is a range of the text, with the line and the column of its first character. -/
structure LiesIn (t : Token) (text : List Char) : Prop where
  range : ∃ before after, text = before ++ (t.text.toList ++ after) ∧
    t.start = byteCount before ∧ t.stop = byteCount (before ++ t.text.toList)
  nonempty : t.start < t.stop
  line : t.line = 1 + (takeBytes t.start text).count '\n'
  column : t.column = 1 + byteCount (lastLine (takeBytes t.start text))
  endColumn : '\n' ∉ t.text.toList → t.endColumn = t.column + byteCount t.text.toList
  indexed : (LineIndex.ofText text).lineColumn t.start = LineColumn.ofOneBased t.line t.column

/-- The tokens of a text lie in it one behind the other, and nothing is lost between them. -/
structure Layout (text : List Char) (tokens : List Token) : Prop where
  lies : ∀ t ∈ tokens, t.LiesIn text
  ordered : tokens.Pairwise fun t u => t.stop ≤ u.start
  whole : interleave (gaps text 0 tokens) tokens = text
  skipped : ∀ gap ∈ gaps text 0 tokens, ∀ c ∈ gap, c ∈ [' ', '\t', '\r', '\n', '\x0c']

theorem isGap_iff {c : Char} : isGap c = true ↔ c ∈ [' ', '\t', '\r', '\n', '\x0c'] := by
  simp [isGap, or_assoc]

variable {t : Token} {text : List Char} {place : Place}

theorem liesIn_of_mem (h : t ∈ scan {} text) : t.LiesIn text := by
  obtain ⟨before, c, rest, rfl, hplace, -, hw⟩ := exists_lexeme h
  have hne : t.text.toList ≠ [] := by
    rw [hw]
    exact List.cons_ne_nil _ _
  have hstart : t.start = byteCount before := by
    rw [start, hplace, Place.after_eq]
  have hstop : t.stop = byteCount before + byteCount t.text.toList :=
    congrArg (· + byteCount t.text.toList) hstart
  have hbefore : takeBytes t.start (before ++ c :: rest) = before := by
    rw [hstart, takeBytes_append]
  refine
    { range := ⟨before, rest.drop (lexeme c rest).2, ?_, hstart, ?_⟩
      nonempty := ?_
      line := ?_
      column := ?_
      endColumn := fun hline => ?_
      indexed := ?_ }
  · rw [hw, List.cons_append, List.take_append_drop]
  · rw [hstop, byteCount_append]
  · have := byteCount_pos hne
    omega
  · rw [hbefore, Token.line, hplace, Place.after_eq]
  · rw [hbefore, Token.column, hplace, Place.after_eq]
  · rw [Token.endColumn, lines_of_not_mem hline hne, List.headD_cons]
  · rw [start, Token.line, Token.column, hplace]
    exact lineColumn_after before (c :: rest)

theorem le_start_of_mem_scan (h : t ∈ scan place text) : place.offset ≤ t.start := by
  obtain ⟨before, c, rest, -, hplace, -⟩ := exists_lexeme h
  rw [start, hplace, Place.offset_after]
  exact Nat.le_add_right _ _

theorem scan_ordered (place : Place) (text : List Char) :
    (scan place text).Pairwise fun t u => t.stop ≤ u.start := by
  fun_induction scan place text with
  | case1 => exact List.Pairwise.nil
  | case2 place c rest _ ih => exact ih
  | case3 place c rest _ kind length _ text ih =>
    refine List.pairwise_cons.2 ⟨fun u hu => ?_, ih⟩
    have hstart := le_start_of_mem_scan hu
    rw [Place.offset_after] at hstart
    simpa only [stop, String.toList_ofList] using hstart

/-- Behind the end of a token, `before`, the lexer has skipped `blank` and goes on. -/
theorem gaps_scan (place : Place) (text before blank : List Char)
    (hplace : place.offset = byteCount (before ++ blank))
    (hblank : ∀ c ∈ blank, isGap c = true) :
    let tokens := scan place text
    let gaps := gaps (before ++ (blank ++ text)) (byteCount before) tokens
    interleave gaps tokens = blank ++ text ∧ ∀ gap ∈ gaps, ∀ c ∈ gap, isGap c = true := by
  revert before blank
  fun_induction scan place text with
  | case1 =>
    intro before blank _ hblank
    simpa [gaps, interleave] using hblank
  | case2 place c rest hc ih =>
    intro before blank hplace hblank
    have hnext : (place.next c).offset = byteCount (before ++ (blank ++ [c])) := by
      have hafter := Place.offset_after place [c]
      rw [hplace, ← byteCount_append, List.append_assoc] at hafter
      exact hafter
    have hmore : ∀ d ∈ blank ++ [c], isGap d = true := by
      intro d hd
      rcases List.mem_append.1 hd with hd | hd
      · exact hblank d hd
      · rw [List.mem_singleton.1 hd]
        exact hc
    simpa using ih before (blank ++ [c]) hnext hmore
  | case3 place c rest _ kind length _ text ih =>
    intro before blank hplace hblank
    have htext : c :: rest = text ++ rest.drop length := by
      rw [List.cons_append, List.take_append_drop]
    have hplace' : (place.after text).offset = byteCount ((before ++ (blank ++ text)) ++ []) := by
      rw [Place.offset_after, hplace, ← byteCount_append, List.append_nil, List.append_assoc]
    obtain ⟨hwhole, hskipped⟩ := ih (before ++ (blank ++ text)) [] hplace' (List.forall_mem_nil _)
    have hstop : place.offset + byteCount text = byteCount (before ++ (blank ++ text)) := by
      rw [hplace, ← byteCount_append, List.append_assoc]
    have hgap : slice (before ++ (blank ++ c :: rest)) (byteCount before) place.offset = blank := by
      rw [hplace, slice_append]
    have hrest : before ++ (blank ++ c :: rest) =
        before ++ (blank ++ text) ++ ([] ++ rest.drop length) := by
      simp only [htext, List.nil_append, List.append_assoc]
    simp only [gaps, interleave, start, stop, String.toList_ofList, hgap, hstop]
    rw [hrest, hwhole]
    refine ⟨by rw [htext, List.nil_append], fun gap hmem => ?_⟩
    rcases List.mem_cons.1 hmem with rfl | hmem
    · exact hblank
    · exact hskipped gap hmem

/-- What stands behind the last token is a gap. -/
theorem mem_gaps_of_getLast? {tokens : List Token} (h : tokens.getLast? = some t) (stop : Nat) :
    dropBytes t.stop text ∈ gaps text stop tokens := by
  induction tokens generalizing stop with
  | nil => cases h
  | cons u tokens ih =>
    refine List.mem_cons_of_mem _ ?_
    cases tokens with
    | nil =>
      cases h
      exact List.mem_cons_self
    | cons v tokens =>
      rw [List.getLast?_cons_cons] at h
      exact ih h u.stop

/-- Only gaps are skipped behind the last token. -/
theorem gap_of_mem_dropBytes {text : List Char} (h : (scan {} text).getLast? = some t) :
    ∀ c ∈ dropBytes t.stop text, isGap c = true :=
  (gaps_scan {} text [] [] rfl nofun).2 _ (mem_gaps_of_getLast? h _)

/-- A text without tokens is one gap. -/
theorem gap_of_mem {text : List Char} (h : scan {} text = []) : ∀ c ∈ text, isGap c = true := by
  have hgaps := (gaps_scan {} text [] [] rfl nofun).2
  rw [h] at hgaps
  refine hgaps text (List.mem_singleton.2 ?_)
  exact (dropBytes_append [] text).symm

/-- A last token that stays in its line ends where the text does but for a gap. -/
theorem exists_body {text : List Char} (h : (scan {} text).getLast? = some t)
    (hline : '\n' ∉ t.text.toList) : ∃ body blank, text = body ++ blank ∧
      (∀ c ∈ blank, isGap c = true) ∧ t.stop = byteCount body ∧
      t.line = 1 + body.count '\n' ∧ t.endColumn = 1 + byteCount (lastLine body) := by
  have hlies := liesIn_of_mem (List.mem_of_getLast? h)
  obtain ⟨before, after, htext, hstart, hstop⟩ := hlies.range
  have hbefore : takeBytes t.start text = before := by
    rw [htext, hstart, takeBytes_append]
  have hafter : dropBytes t.stop text = after := by
    rw [htext, hstop, ← List.append_assoc, dropBytes_append]
  refine ⟨before ++ t.text.toList, after, by rw [htext, List.append_assoc], ?_, hstop, ?_, ?_⟩
  · exact hafter ▸ gap_of_mem_dropBytes h
  · rw [hlies.line, hbefore, List.count_append, List.count_eq_zero_of_not_mem hline, Nat.add_zero]
  · rw [hlies.endColumn hline, hlies.column, hbefore, lastLine_append hline, byteCount_append,
      Nat.add_assoc]

/-- The lexer loses nothing and moves nothing. -/
theorem tokenize_layout (text : String) : Layout text.toList (tokenize text) := by
  have hgaps := gaps_scan {} text.toList [] [] rfl nofun
  exact
    { lies := fun t h => liesIn_of_mem h
      ordered := scan_ordered {} text.toList
      whole := hgaps.1
      skipped := fun gap hgap c hc => isGap_iff.1 (hgaps.2 gap hgap c hc) }

/-- Two tokens with gaps around them. -/
theorem tokenize_layout_with_gaps :
    let text := "\t a\x0d\n=\x0c"
    gaps text.toList 0 (tokenize text) = [['\t', ' '], ['\r', '\n'], ['\x0c']] ∧
      Layout text.toList (tokenize text) := by
  intro text
  exact ⟨by decide +kernel, tokenize_layout text⟩

end Token

end Idl
