import Idl.Proofs.Token.Lexer

/-!
String literals. Any text can be written as one: a backslash goes in front of quotes and
backslashes, and a line feed is named by a letter. The lexer takes such a literal for one token,
since the pattern of strings describes all of it. To replace the escapes gives the text back,
however many backslashes follow one another, since the pattern and the escapes both read a
backslash together with the character behind it.
-/

namespace Idl

namespace Pattern

theorem matches_many_flatMap {p : Pattern} {f : Char → List Char} (h : ∀ c, Matches p (f c))
    (text : List Char) : Matches (.many p) (text.flatMap f) := by
  induction text with
  | nil => exact .done
  | cons c rest ih => exact .more (h c) ih

end Pattern

namespace Token

open Rule

/-- How a string literal writes a character. -/
def escape : Char → List Char
  | '\\' => ['\\', '\\']
  | '"' => ['\\', '"']
  | '\n' => ['\\', 'n']
  | c => [c]

/-- The string literal for a text. -/
def quoted (text : String) : String :=
  String.ofList ('"' :: (text.toList.flatMap escape ++ ['"']))

/-- A character stands behind a backslash or is neither a quote, a backslash nor a line feed. -/
theorem escape_cases (c : Char) :
    (∃ d, d ≠ '\n' ∧ escape c = ['\\', d]) ∨ (c ∉ ['"', '\\', '\n'] ∧ escape c = [c]) := by
  unfold escape
  split
  · exact .inl ⟨'\\', by decide, rfl⟩
  · exact .inl ⟨'"', by decide, rfl⟩
  · exact .inl ⟨'n', by decide, rfl⟩
  · rename_i hbackslash hquote hline
    refine .inr ⟨?_, rfl⟩
    simp only [List.mem_cons, List.not_mem_nil, or_false, not_or]
    exact ⟨hquote, hbackslash, hline⟩

/-- The pattern of strings describes the literal of every text. -/
theorem matches_string_quoted (text : String) :
    Pattern.Matches Rule.string (quoted text).toList := by
  have hquote : Pattern.Matches (Pattern.char '"') ['"'] := Pattern.matches_char_iff.2 rfl
  have hescape (c : Char) : Pattern.Matches
      (.alt (Pattern.noneOf ['"', '\\', '\n']) (.seq (Pattern.char '\\') (Pattern.noneOf ['\n'])))
      (escape c) := by
    rcases escape_cases c with ⟨d, hd, hc⟩ | ⟨hc, hself⟩
    · rw [hc]
      exact .right (.seq (a := ['\\']) (Pattern.matches_char_iff.2 rfl) (.one (by simpa using hd)))
    · rw [hself]
      exact .left (.one (by simpa using hc))
  rw [quoted, String.toList_ofList]
  exact .seq (a := ['"']) hquote (.seq (Pattern.matches_many_flatMap hescape _) hquote)

/-- A text that a rule describes from its first to its last character is one token. -/
theorem scan_eq_singleton {kind : Kind} {p : Pattern} {c : Char} {rest : List Char}
    (hp : (kind, p) ∈ Rule.all) (h : Pattern.Matches p (c :: rest)) (hc : isGap c = false)
    (place : Text.Place) : scan place (c :: rest) = [⟨kind, String.ofList (c :: rest), place⟩] := by
  have hlexeme : lexeme c rest = (kind, rest.length) := by
    have hmax : ∀ w, IsMatch (c :: (rest ++ [])) w → w.length ≤ rest.length + 1 := by
      rw [List.append_nil]
      exact fun w hw => hw.2.1.length_le
    simpa using lexeme_eq hp h hmax
  rw [scan, if_neg (by simp [hc]), hlexeme]
  simp only [List.take_length, List.drop_length, scan]

/-- Only a backslash is read together with what follows it. -/
theorem unescape_cons {c : Char} (h : c ≠ '\\') (rest : List Char) :
    unescape (c :: rest) = c :: unescape rest := by
  rw [unescape.eq_def]
  split
  case h_1 heq => cases heq
  case h_7 heq => cases heq; rfl
  all_goals
    rename_i heq
    exact absurd (List.cons.inj heq).1 h

theorem unescape_escape (c : Char) (rest : List Char) :
    unescape (escape c ++ rest) = c :: unescape rest := by
  unfold escape
  split
  · simp [unescape]
  · simp [unescape]
  · simp [unescape]
  · rename_i hbackslash _ _
    exact unescape_cons hbackslash rest

theorem unescape_flatMap_escape (text : List Char) : unescape (text.flatMap escape) = text := by
  induction text with
  | nil => rfl
  | cons c rest ih => rw [List.flatMap_cons, unescape_escape, ih]

/-- The literal of a text is read as one token, and the token stands for the text. -/
theorem string_literals_decode_what_was_encoded (text : String) :
    ∃ t, tokenize (quoted text) = [t] ∧ t.kind = .string ∧ t.text = quoted text ∧
      t.start = 0 ∧ t.stop = Text.byteCount (quoted text).toList ∧ t.value = text := by
  have hrule : (Kind.string, Rule.string) ∈ Rule.all := by simp [Rule.all]
  have hmatch := matches_string_quoted text
  have htext : (quoted text).toList = '"' :: (text.toList.flatMap escape ++ ['"']) :=
    String.toList_ofList
  refine ⟨⟨.string, quoted text, {}⟩, ?_, rfl, rfl, rfl, Nat.zero_add _, ?_⟩
  · rw [htext] at hmatch
    rw [tokenize, htext, scan_eq_singleton hrule hmatch (by decide)]
    rfl
  · simp only [value, htext, List.drop_succ_cons, List.drop_zero, List.dropLast_concat,
      unescape_flatMap_escape, String.ofList_toList]

/-- Backslashes behind one another, each in front of something that would be an escape. -/
example : (tokenize "\"\\\\n\\\"\\n\"").map Token.value = ["\\n\"\n"] := by decide +kernel

end Token

end Idl
