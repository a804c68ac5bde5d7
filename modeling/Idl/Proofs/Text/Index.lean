import Mathlib.Data.List.DropRight
import Mathlib.Data.Prod.Lex
import Idl.Proofs.Text.Place

/-!
Offsets and positions. A line index knows a text by the bytes in it that end a line and by the
number of the others, so what it says of an offset is known from the bytes in front of it, also
inside of a character. The starts of the lines increase; hence the line of an offset is the only
one that starts at the offset or before it and does not end before it, and the offsets of a text
and the positions in its lines are one to one.
-/

namespace Idl.Text

section Bytes

/-- The byte that ends a line. -/
def lineFeed : UInt8 :=
  10

/-- The bytes of a text in UTF-8. -/
def utf8 (text : List Char) : List UInt8 :=
  text.flatMap String.utf8EncodeChar

theorem utf8_cons (c : Char) (rest : List Char) :
    utf8 (c :: rest) = String.utf8EncodeChar c ++ utf8 rest :=
  List.flatMap_cons

theorem length_utf8 (text : List Char) : (utf8 text).length = byteCount text := by
  induction text with
  | nil => rfl
  | cons c rest ih => rw [utf8_cons, List.length_append, String.length_utf8EncodeChar, ih, byteCount]

/-- No byte of another character is taken for a line feed. -/
theorem lineFeed_notMem_utf8EncodeChar {c : Char} (h : c ≠ '\n') :
    lineFeed ∉ String.utf8EncodeChar c := by
  have hself : c.val.toNat ≠ 10 := fun hc => h (Char.ext (UInt32.toNat_inj.1 hc))
  have hbyte {n : Nat} (h : n % 256 ≠ 10) : lineFeed ≠ UInt8.ofNat n := by
    intro heq
    have hn := congrArg UInt8.toNat heq
    simp only [lineFeed, UInt8.toNat_ofNat'] at hn
    exact h hn.symm
  simp only [String.utf8EncodeChar]
  split
  · exact List.not_mem_cons_of_ne_of_not_mem (hbyte (by omega)) List.not_mem_nil
  split
  · simp only [List.mem_cons, List.not_mem_nil, or_false, not_or]
    exact ⟨hbyte (by omega), hbyte (by omega)⟩
  split
  · simp only [List.mem_cons, List.not_mem_nil, or_false, not_or]
    exact ⟨hbyte (by omega), hbyte (by omega), hbyte (by omega)⟩
  · simp only [List.mem_cons, List.not_mem_nil, or_false, not_or]
    exact ⟨hbyte (by omega), hbyte (by omega), hbyte (by omega), hbyte (by omega)⟩

/-- A text of small characters with the same line ends as the bytes. -/
def outline (bytes : List UInt8) : List Char :=
  bytes.map fun b => if b = lineFeed then '\n' else ' '

variable (bytes : List UInt8)

theorem byteCount_outline : byteCount (outline bytes) = bytes.length := by
  induction bytes with
  | nil => rfl
  | cons b rest ih =>
    have hb : (if b = lineFeed then '\n' else ' ').utf8Size = 1 := by split <;> rfl
    rw [outline, List.map_cons, byteCount, hb, List.length_cons, Nat.add_comm, ← outline, ih]

theorem count_outline : (outline bytes).count '\n' = bytes.count lineFeed := by
  rw [outline, List.count_eq_countP, List.countP_map, List.count_eq_countP]
  refine List.countP_congr fun b _ => ?_
  by_cases hb : b = lineFeed <;> simp [hb]

theorem lastLine_outline :
    lastLine (outline bytes) = outline (bytes.rtakeWhile (· ≠ lineFeed)) := by
  have hsame : (fun c => decide (c ≠ '\n')) ∘ (fun b => if b = lineFeed then '\n' else ' ') =
      fun b : UInt8 => decide (b ≠ lineFeed) := by
    funext b
    by_cases hb : b = lineFeed <;> simp [hb]
  rw [lastLine, outline, outline, ← List.map_reverse, List.takeWhile_map, hsame, ← List.map_reverse,
    List.rtakeWhile]

end Bytes

namespace LineIndex

/-- The outline of a text has the index of the text. -/
theorem ofText_outline_utf8 (text : List Char) : ofText (outline (utf8 text)) = ofText text := by
  have hchar (offset : Nat) (c : Char) :
      startsFrom offset (outline (String.utf8EncodeChar c)) = startsFrom offset [c] := by
    by_cases hc : c = '\n'
    · subst hc
      rfl
    · have hnone : startsFrom offset (outline (String.utf8EncodeChar c)) = [] := by
        rw [← List.length_eq_zero_iff, length_startsFrom, count_outline]
        exact List.count_eq_zero.2 (lineFeed_notMem_utf8EncodeChar hc)
      rw [hnone, startsFrom, if_neg hc, startsFrom]
  have hstarts (offset : Nat) :
      startsFrom offset (outline (utf8 text)) = startsFrom offset text := by
    induction text generalizing offset with
    | nil => rfl
    | cons c rest ih =>
      rw [utf8_cons, outline, List.map_append, startsFrom_append, ← outline, ← outline, hchar,
        byteCount_outline, String.length_utf8EncodeChar, ih, ← byteCount_singleton c,
        ← startsFrom_append, List.singleton_append]
  rw [ofText, hstarts, byteCount_outline, length_utf8, ofText]

/-- The line of an offset is the number of line feeds in front of it, and the column is the number
of bytes behind the last of these. -/
theorem lineColumn_ofText {text : List Char} {o : Nat} (ho : o ≤ (utf8 text).length) :
    (ofText text).lineColumn o = ⟨((utf8 text).take o).count lineFeed,
      (((utf8 text).take o).rtakeWhile (· ≠ lineFeed)).length⟩ := by
  have hbefore : byteCount (outline ((utf8 text).take o)) = o := by
    rw [byteCount_outline, List.length_take_of_le ho]
  have hsplit : outline (utf8 text) =
      outline ((utf8 text).take o) ++ outline ((utf8 text).drop o) := by
    rw [outline, outline, outline, ← List.map_append, List.take_append_drop]
  have h := lineColumn_byteCount (outline ((utf8 text).take o)) (outline ((utf8 text).drop o))
  rwa [hbefore, ← hsplit, ofText_outline_utf8, count_outline, lastLine_outline,
    byteCount_outline] at h

/-- The lines start one behind the other, the first at once and none behind the end. -/
structure Regular (index : LineIndex) : Prop where
  first : index.starts[0]? = some 0
  increasing : index.starts.Pairwise (· < ·)
  bounded : ∀ start ∈ index.starts, start ≤ index.size

theorem startsFrom_increasing (offset : Nat) (text : List Char) :
    (offset :: startsFrom offset text).Pairwise (· < ·) := by
  refine List.pairwise_cons.2 ⟨fun n hn => (bounds_of_mem_startsFrom hn).1, ?_⟩
  induction text generalizing offset with
  | nil => exact List.Pairwise.nil
  | cons c rest ih =>
    simp only [startsFrom]
    split
    · exact List.pairwise_cons.2 ⟨fun n hn => (bounds_of_mem_startsFrom hn).1, ih _⟩
    · exact ih _

theorem regular_ofText (text : List Char) : (ofText text).Regular where
  first := rfl
  increasing := startsFrom_increasing 0 text
  bounded := by
    refine List.forall_mem_cons.2 ⟨Nat.zero_le _, fun n hn => ?_⟩
    have h := (bounds_of_mem_startsFrom hn).2
    rwa [Nat.zero_add] at h

/-- Of increasing numbers, those that are at most `o` are the first ones. -/
theorem le_iff_lt_countP {starts : List Nat} (h : starts.Pairwise (· < ·)) {i n : Nat} (o : Nat)
    (hn : starts[i]? = some n) : n ≤ o ↔ i < starts.countP (· ≤ o) := by
  induction starts generalizing i with
  | nil => cases hn
  | cons first rest ih =>
    obtain ⟨hfirst, hrest⟩ := List.pairwise_cons.1 h
    by_cases hle : first ≤ o
    · rw [List.countP_cons_of_pos (by simpa using hle)]
      cases i with
      | zero =>
        cases hn
        simp [hle]
      | succ i => rw [ih hrest hn, Nat.succ_lt_succ_iff]
    · -- Behind a number that is too great all numbers are.
      have hbehind : ∀ m ∈ first :: rest, ¬ m ≤ o := by
        refine List.forall_mem_cons.2 ⟨hle, fun m hm => ?_⟩
        have := hfirst m hm
        omega
      have hnone : (first :: rest).countP (· ≤ o) = 0 :=
        List.countP_eq_zero.2 fun m hm => by simpa using hbehind m hm
      rw [hnone]
      exact iff_of_false (hbehind n (List.mem_of_getElem? hn)) (Nat.not_lt_zero i)

/-- Where the line behind a line starts; the end of the text counts as the end of a line. -/
def nextStart (index : LineIndex) (line : Nat) : Nat :=
  index.starts.getD (line + 1) (index.size + 1)

variable {index : LineIndex} {o : Nat} {p : LineColumn}

/-- The position of an offset leads back to it, and lies in front of the next line. -/
theorem Regular.lineColumn_spec (h : index.Regular) (ho : o ≤ index.size) :
    index.offset (index.lineColumn o) = some o ∧ o < index.nextStart (index.lineColumn o).line := by
  have hpos : 0 < index.starts.countP (· ≤ o) :=
    (le_iff_lt_countP h.increasing o h.first).1 (Nat.zero_le o)
  obtain ⟨line, hline⟩ := Nat.exists_eq_succ_of_ne_zero hpos.ne'
  have hlength : line < index.starts.length := by
    have := List.countP_le_length (p := (· ≤ o)) (l := index.starts)
    omega
  have hstart : index.starts[line]? = some index.starts[line] := List.getElem?_eq_getElem hlength
  have hle : index.starts[line] ≤ o := (le_iff_lt_countP h.increasing o hstart).2 (by omega)
  have hposition : index.lineColumn o = ⟨line, o - index.starts[line]⟩ := by
    rw [lineColumn, Nat.min_eq_left ho, hline, Nat.succ_sub_one, List.getD_eq_getElem?_getD, hstart]
    rfl
  rw [hposition]
  constructor
  · rw [offset, hstart, Option.map_some, Nat.add_sub_cancel' hle]
  · rw [nextStart, List.getD_eq_getElem?_getD]
    cases hnext : index.starts[line + 1]? with
    | none => exact Nat.lt_succ_of_le ho
    | some next =>
      refine Nat.not_le.1 fun hle' => ?_
      have := (le_iff_lt_countP h.increasing o hnext).1 hle'
      omega

/-- No other position does both. -/
theorem Regular.eq_lineColumn (h : index.Regular) (ho : o ≤ index.size)
    (hp : index.offset p = some o) (hnext : o < index.nextStart p.line) :
    index.lineColumn o = p := by
  obtain ⟨start, hstart, rfl⟩ := Option.map_eq_some_iff.1 hp
  have hline : index.starts.countP (· ≤ start + p.column) = p.line + 1 := by
    have hle := (le_iff_lt_countP h.increasing _ hstart).1 (Nat.le_add_right start p.column)
    refine Nat.le_antisymm (Nat.not_lt.1 fun hlt => ?_) hle
    have hlength := List.countP_le_length (p := (· ≤ start + p.column)) (l := index.starts)
    have hmore : index.starts[p.line + 1]? = some (index.nextStart p.line) := by
      rw [nextStart, List.getD_eq_getElem?_getD, List.getElem?_eq_getElem (hlt.trans_le hlength)]
      rfl
    exact absurd ((le_iff_lt_countP h.increasing _ hmore).2 hlt) (Nat.not_le.2 hnext)
  rw [lineColumn, Nat.min_eq_left ho, hline, Nat.add_sub_cancel, List.getD_eq_getElem?_getD, hstart,
    Option.getD_some, Nat.add_sub_cancel_left]

/-- The lines of a text lie between the starts in its index. -/
theorem exists_start_of_piece {text line : List Char} {i : Nat} (offset : Nat)
    (h : (pieces '\n' text)[i]? = some line) :
    ∃ start, (offset :: startsFrom offset text)[i]? = some start ∧
      (offset :: startsFrom offset text).getD (i + 1) (offset + byteCount text + 1) =
        start + byteCount line + 1 := by
  rw [pieces_eq_splitOn] at h
  induction text generalizing offset i line with
  | nil =>
    obtain ⟨rfl, rfl⟩ : i = 0 ∧ line = [] := by
      cases i with
      | zero => exact ⟨rfl, (Option.some.inj h).symm⟩
      | succ i => cases h
    exact ⟨offset, rfl, rfl⟩
  | cons c rest ih =>
    rw [List.splitOn_cons_eq_if_modifyHead] at h
    simp only [byteCount, ← Nat.add_assoc]
    by_cases hc : c = '\n'
    · subst hc
      cases i with
      | zero =>
        cases h
        exact ⟨offset, rfl, rfl⟩
      | succ i => exact ih (offset + '\n'.utf8Size) h
    · -- `c` makes the first line of the rest longer, and the other lines stay what they are.
      rw [if_neg (by simpa using hc)] at h
      simp only [startsFrom, if_neg hc]
      cases i with
      | zero =>
        rw [List.getElem?_modifyHead_zero] at h
        obtain ⟨piece, hpiece, rfl⟩ := Option.map_eq_some_iff.1 h
        obtain ⟨start, hstart, hnext⟩ := ih (offset + c.utf8Size) hpiece
        cases hstart
        refine ⟨offset, rfl, hnext.trans ?_⟩
        rw [byteCount, Nat.add_assoc offset]
      | succ i =>
        rw [List.getElem?_modifyHead_succ] at h
        exact ih (offset + c.utf8Size) h

theorem length_pieces (text : List Char) :
    (pieces '\n' text).length = text.count '\n' + 1 := by
  rw [pieces_eq_splitOn]
  induction text with
  | nil => rfl
  | cons c rest ih =>
    rw [List.splitOn_cons_eq_if_modifyHead, List.count_cons]
    split
    · rw [List.length_cons, ih]
    · rw [List.length_modifyHead, ih, Nat.add_zero]

end LineIndex

namespace LineColumn

/-- The position lies in a line of the text: in front of one of its bytes, or at its end. -/
def IsIn (p : LineColumn) (text : List Char) : Prop :=
  ∃ line, (pieces '\n' text)[p.line]? = some line ∧ p.column ≤ byteCount line

/-- Positions are ordered by their lines, then by their columns. -/
def key (p : LineColumn) : Nat ×ₗ Nat :=
  toLex (p.line, p.column)

end LineColumn

namespace LineIndex

variable {text : List Char} {index : LineIndex} {o : Nat} {p : LineColumn}

theorem isIn_iff : p.IsIn text ↔
    ∃ o, (ofText text).offset p = some o ∧ o < (ofText text).nextStart p.line := by
  have hline {line : List Char} (h : (pieces '\n' text)[p.line]? = some line) :
      ∃ start, (ofText text).starts[p.line]? = some start ∧
        (ofText text).nextStart p.line = start + byteCount line + 1 := by
    obtain ⟨start, hstart, hnext⟩ := exists_start_of_piece 0 h
    rw [Nat.zero_add] at hnext
    exact ⟨start, hstart, hnext⟩
  constructor
  · rintro ⟨line, hpiece, hcolumn⟩
    obtain ⟨start, hstart, hnext⟩ := hline hpiece
    refine ⟨start + p.column, by rw [offset, hstart]; rfl, ?_⟩
    omega
  · rintro ⟨o, ho, hlt⟩
    obtain ⟨start, hstart, rfl⟩ := Option.map_eq_some_iff.1 ho
    have hlength : p.line < (pieces '\n' text).length := by
      have h := (List.getElem?_eq_some_iff.1 hstart).1
      rwa [length_pieces, ← length_startsFrom 0]
    have hpiece := List.getElem?_eq_getElem hlength
    obtain ⟨start', hstart', hnext⟩ := hline hpiece
    cases hstart.symm.trans hstart'
    exact ⟨_, hpiece, by omega⟩

theorem Regular.nextStart_le (h : index.Regular) (line : Nat) :
    index.nextStart line ≤ index.size + 1 := by
  rw [nextStart, List.getD_eq_getElem?_getD]
  cases hnext : index.starts[line + 1]? with
  | none => exact Nat.le_refl _
  | some next => exact Nat.le_succ_of_le (h.bounded next (List.mem_of_getElem? hnext))

theorem lineColumn_monotone (index : LineIndex) :
    Monotone fun o => (index.lineColumn o).key := by
  intro o o' ho
  have hclamp : min o index.size ≤ min o' index.size := by
    omega
  have hcount : index.starts.countP (· ≤ min o index.size) ≤
      index.starts.countP (· ≤ min o' index.size) :=
    List.countP_mono_left fun n _ hn => by
      simp only [decide_eq_true_eq] at hn ⊢
      exact hn.trans hclamp
  simp only [LineColumn.key, lineColumn, Prod.Lex.toLex_le_toLex]
  rcases (Nat.sub_le_sub_right hcount 1).lt_or_eq with hlt | heq
  · exact .inl hlt
  · exact .inr ⟨heq, by rw [heq]; exact Nat.sub_le_sub_right hclamp _⟩

theorem lineColumn_of_le (index : LineIndex) (h : index.size ≤ o) :
    index.lineColumn o = index.lineColumn index.size := by
  rw [lineColumn, lineColumn, Nat.min_eq_right h, Nat.min_self]

/-- No line and no column is greater than the size of the text. -/
theorem lineColumn_le (text : List Char) (o : Nat) :
    ((ofText text).lineColumn o).line ≤ (utf8 text).length ∧
      ((ofText text).lineColumn o).column ≤ (utf8 text).length := by
  have hat {o : Nat} (ho : o ≤ (utf8 text).length) :
      ((ofText text).lineColumn o).line ≤ (utf8 text).length ∧
        ((ofText text).lineColumn o).column ≤ (utf8 text).length := by
    have hlength : ((utf8 text).take o).length ≤ (utf8 text).length := List.length_take_le' _ _
    rw [lineColumn_ofText ho]
    exact ⟨List.count_le_length.trans hlength,
      (List.rtakeWhile_suffix _ _).length_le.trans hlength⟩
  rcases Nat.le_total o (utf8 text).length with ho | ho
  · exact hat ho
  · rw [length_utf8] at ho
    rw [lineColumn_of_le (ofText text) ho]
    exact hat (length_utf8 text).ge

/-- The index of a text tells the line and the column of an offset by counting what stands in
front of it; so it leads from the offsets of the text to the positions in it and back, and keeps
their order. The lines it looks through start one behind the other, and no number it has to do
with is greater than the size of the text. -/
theorem offsets_and_positions_are_one_to_one (text : List Char) :
    let index := ofText text
    let bytes := utf8 text
    (∀ o ≤ bytes.length,
      index.lineColumn o = ⟨(bytes.take o).count lineFeed,
        ((bytes.take o).rtakeWhile (· ≠ lineFeed)).length⟩ ∧
      (index.lineColumn o).IsIn text ∧ index.offset (index.lineColumn o) = some o) ∧
    (∀ p : LineColumn, p.IsIn text →
      ∃ o ≤ bytes.length, index.offset p = some o ∧ index.lineColumn o = p) ∧
    (Monotone fun o => (index.lineColumn o).key) ∧
    (∀ o, bytes.length ≤ o → index.lineColumn o = index.lineColumn bytes.length) ∧
    index.starts.Pairwise (· < ·) ∧ (∀ start ∈ index.starts, start ≤ bytes.length) ∧
    ∀ o, (index.lineColumn o).line ≤ bytes.length ∧ (index.lineColumn o).column ≤ bytes.length := by
  intro index bytes
  have hregular : index.Regular := regular_ofText text
  have hsize : bytes.length = index.size := length_utf8 text
  refine ⟨fun o ho => ?_, fun p hp => ?_, index.lineColumn_monotone, fun o ho => ?_,
    hregular.increasing, hsize ▸ hregular.bounded, lineColumn_le text⟩
  · obtain ⟨hoffset, hnext⟩ := hregular.lineColumn_spec (hsize ▸ ho)
    exact ⟨lineColumn_ofText ho, isIn_iff.2 ⟨o, hoffset, hnext⟩, hoffset⟩
  · obtain ⟨o, hoffset, hnext⟩ := isIn_iff.1 hp
    have ho : o ≤ index.size := Nat.le_of_lt_succ (hnext.trans_le (hregular.nextStart_le p.line))
    exact ⟨o, hsize ▸ ho, hoffset, hregular.eq_lineColumn ho hoffset hnext⟩
  · rw [hsize] at ho ⊢
    exact index.lineColumn_of_le ho

/-- An offset inside of a character, the empty line behind its line, and an offset past the end. -/
theorem offsets_and_positions_are_one_to_one_inside_character :
    let text := "aé\n\nb".toList
    let index := ofText text
    2 ≤ (utf8 text).length ∧ index.lineColumn 2 = ⟨0, 2⟩ ∧ index.offset ⟨0, 2⟩ = some 2 ∧
      LineColumn.IsIn ⟨1, 0⟩ text ∧
      (∃ o ≤ (utf8 text).length, index.offset ⟨1, 0⟩ = some o ∧ index.lineColumn o = ⟨1, 0⟩) ∧
      (utf8 text).length ≤ 40 ∧ index.lineColumn 40 = index.lineColumn (utf8 text).length := by
  intro text index
  obtain ⟨hat, hback, -, hend, -⟩ := offsets_and_positions_are_one_to_one text
  have hlength : (utf8 text).length = 6 := by decide +kernel
  have hinside : 2 ≤ (utf8 text).length := by omega
  have hpast : (utf8 text).length ≤ 40 := by omega
  have hempty : LineColumn.IsIn ⟨1, 0⟩ text := ⟨[], by decide +kernel, Nat.le_refl 0⟩
  obtain ⟨hposition, -, hoffset⟩ := hat 2 hinside
  have hbefore : index.lineColumn 2 = ⟨0, 2⟩ := hposition.trans (by decide +kernel)
  exact ⟨hinside, hbefore, hbefore ▸ hoffset, hempty, hback _ hempty, hpast, hend 40 hpast⟩

end LineIndex

end Idl.Text
