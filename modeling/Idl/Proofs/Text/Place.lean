import Mathlib.Data.List.Basic
import Mathlib.Data.List.Induction
import Idl.Text.Place

/-!
Places by counting. The place behind a text is known from the text alone: the bytes in it, the
line feeds in it, and the bytes behind the last of these. The line index of the whole text finds
the same line and column from the offset.
-/

namespace Idl.Text

/-- What stands behind the last line feed. -/
def lastLine (text : List Char) : List Char :=
  (text.reverse.takeWhile (· ≠ '\n')).reverse

theorem lastLine_concat (text : List Char) (c : Char) :
    lastLine (text ++ [c]) = if c = '\n' then [] else lastLine text ++ [c] := by
  by_cases h : c = '\n' <;> simp [lastLine, h]

theorem lastLine_append {a b : List Char} (h : '\n' ∉ b) :
    lastLine (a ++ b) = lastLine a ++ b := by
  have hb : ∀ c ∈ b.reverse, decide (c ≠ '\n') = true := fun c hc =>
    decide_eq_true fun heq => h (heq ▸ List.mem_reverse.1 hc)
  rw [lastLine, List.reverse_append, List.takeWhile_append_of_pos hb, List.reverse_append,
    List.reverse_reverse]
  rfl

@[simp]
theorem byteCount_nil : byteCount [] = 0 :=
  rfl

@[simp]
theorem byteCount_singleton (c : Char) : byteCount [c] = c.utf8Size :=
  rfl

theorem byteCount_pos {text : List Char} (h : text ≠ []) : 0 < byteCount text := by
  cases text with
  | nil => exact absurd rfl h
  | cons c rest =>
    have hc : 0 < c.utf8Size := c.utf8Size_pos
    simp only [byteCount]
    omega

theorem Place.after_concat (p : Place) (text : List Char) (c : Char) :
    p.after (text ++ [c]) = (p.after text).next c :=
  p.after_append text [c]

/-- The place behind a text that starts the source. -/
theorem Place.after_eq (text : List Char) :
    ({} : Place).after text =
      ⟨byteCount text, 1 + text.count '\n', 1 + byteCount (lastLine text)⟩ := by
  induction text using List.reverseRecOn with
  | nil => rfl
  | append_singleton text c ih =>
    rw [Place.after_concat, ih, lastLine_concat, Place.next, byteCount_append, List.count_append]
    by_cases h : c = '\n'
    · subst h
      rfl
    · simp [h, byteCount_append, Nat.add_assoc]

namespace LineIndex

theorem startsFrom_append (offset : Nat) (a b : List Char) :
    startsFrom offset (a ++ b) = startsFrom offset a ++ startsFrom (offset + byteCount a) b := by
  induction a generalizing offset with
  | nil => rfl
  | cons c rest ih =>
    simp only [List.cons_append, startsFrom, byteCount, ih, Nat.add_assoc]
    split <;> rfl

theorem length_startsFrom (offset : Nat) (text : List Char) :
    (startsFrom offset text).length = text.count '\n' := by
  induction text generalizing offset with
  | nil => rfl
  | cons c rest ih =>
    simp only [startsFrom]
    split <;> rename_i h <;> simp [h, ih]

/-- A line starts behind its line feed, and the text does not end before that. -/
theorem bounds_of_mem_startsFrom {offset n : Nat} {text : List Char}
    (h : n ∈ startsFrom offset text) : offset < n ∧ n ≤ offset + byteCount text := by
  induction text generalizing offset with
  | nil => cases h
  | cons c rest ih =>
    have hc : 0 < c.utf8Size := c.utf8Size_pos
    have hrest (h : n ∈ startsFrom (offset + c.utf8Size) rest) := ih h
    simp only [startsFrom, byteCount] at h ⊢
    split at h
    · rcases List.mem_cons.1 h with rfl | h
      · omega
      · have := hrest h
        omega
    · have := hrest h
      omega

theorem startsFrom_concat (text : List Char) (c : Char) :
    startsFrom 0 (text ++ [c]) =
      startsFrom 0 text ++ if c = '\n' then [byteCount text + c.utf8Size] else [] := by
  rw [startsFrom_append, Nat.zero_add]
  rfl

/-- The last line that starts in a text is what stands behind the last line feed. -/
theorem lastStart_add (text : List Char) :
    (startsFrom 0 text).getLastD 0 + byteCount (lastLine text) = byteCount text := by
  induction text using List.reverseRecOn with
  | nil => rfl
  | append_singleton text c ih =>
    rw [startsFrom_concat, lastLine_concat, byteCount_append]
    split
    · simp
    · rw [List.append_nil, byteCount_append, ← ih, Nat.add_assoc]

/-- For an offset that stands between two characters, the index counts as the place does. -/
theorem lineColumn_byteCount (before after : List Char) :
    (ofText (before ++ after)).lineColumn (byteCount before) =
      ⟨before.count '\n', byteCount (lastLine before)⟩ := by
  have hclamp : min (byteCount before) (ofText (before ++ after)).size = byteCount before := by
    rw [ofText, byteCount_append]
    exact Nat.min_eq_left (Nat.le_add_right _ _)
  have hstarts : (ofText (before ++ after)).starts =
      0 :: startsFrom 0 before ++ startsFrom (byteCount before) after := by
    rw [ofText, startsFrom_append, Nat.zero_add]
    rfl
  have hbefore : (startsFrom 0 before).countP (· ≤ byteCount before) = before.count '\n' := by
    rw [List.countP_eq_length.2, length_startsFrom]
    intro n hn
    have := bounds_of_mem_startsFrom hn
    exact decide_eq_true (by omega)
  have hafter : (startsFrom (byteCount before) after).countP (· ≤ byteCount before) = 0 := by
    rw [List.countP_eq_zero]
    intro n hn
    have := bounds_of_mem_startsFrom hn
    simp only [decide_eq_true_eq]
    omega
  have hline : (ofText (before ++ after)).starts.countP (· ≤ byteCount before) - 1 =
      before.count '\n' := by
    rw [hstarts, List.cons_append, List.countP_cons_of_pos (by simp), List.countP_append, hbefore,
      hafter]
    rfl
  have hstart : (ofText (before ++ after)).starts.getD (before.count '\n') 0 =
      (startsFrom 0 before).getLastD 0 := by
    rw [hstarts, List.cons_append, ← length_startsFrom 0 before]
    cases h : startsFrom 0 before using List.reverseRecOn with
    | nil => rfl
    | append_singleton l n => simp
  have hcolumn : byteCount before - (startsFrom 0 before).getLastD 0 =
      byteCount (lastLine before) := by
    have := lastStart_add before
    omega
  simp only [lineColumn, hclamp, hline, hstart, hcolumn]

end LineIndex

/-- An index and a place agree, though they count lines and columns from zero and from one. -/
theorem lineColumn_after (before after : List Char) :
    let place := ({} : Place).after before
    (LineIndex.ofText (before ++ after)).lineColumn place.offset =
      LineColumn.ofOneBased place.line place.column := by
  simp only [Place.after_eq, LineIndex.lineColumn_byteCount, LineColumn.ofOneBased,
    Nat.add_sub_cancel_left]

end Idl.Text
