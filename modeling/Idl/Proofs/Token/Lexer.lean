import Idl.Proofs.Token.Longest

/-!
The lexer takes the longest match. The patterns of the rules describe different texts: which rule
can describe a text is known from its first characters, and for numbers from a dot in it. So each
token is the longest beginning of the text in front of it that a pattern describes, and has the
kind of that one pattern; it is invalid just where no pattern describes any beginning.
-/

namespace Idl

namespace Pattern

variable {p q : Pattern} {w : List Char} {c : Char} {cs : List Char}

theorem matches_one_iff {accepts : Char → Bool} :
    Matches (.one accepts) w ↔ ∃ c, accepts c = true ∧ w = [c] :=
  ⟨fun h => by cases h with | one h => exact ⟨_, h, rfl⟩, fun ⟨_, h, hw⟩ => hw ▸ .one h⟩

theorem matches_seq_iff :
    Matches (.seq p q) w ↔ ∃ a b, Matches p a ∧ Matches q b ∧ w = a ++ b :=
  ⟨fun h => by cases h with | seq ha hb => exact ⟨_, _, ha, hb, rfl⟩,
    fun ⟨_, _, ha, hb, hw⟩ => hw ▸ .seq ha hb⟩

theorem matches_alt_iff : Matches (.alt p q) w ↔ Matches p w ∨ Matches q w :=
  ⟨fun h => by
    cases h with
    | left h => exact .inl h
    | right h => exact .inr h, fun h => h.elim .left .right⟩

theorem matches_empty_iff : Matches .empty w ↔ w = [] :=
  ⟨fun h => by cases h; rfl, fun h => h ▸ .empty⟩

theorem matches_char_iff : Matches (char c) w ↔ w = [c] := by
  simp [char, matches_one_iff]

theorem matches_oneOf_iff : Matches (oneOf cs) w ↔ ∃ c ∈ cs, w = [c] := by
  simp [oneOf, matches_one_iff]

theorem matches_maybe_iff : Matches (maybe p) w ↔ w = [] ∨ Matches p w := by
  rw [maybe, matches_alt_iff, matches_empty_iff]

/-- What all characters of one round have in common, all characters of a repetition have. -/
theorem Matches.forall_many {P : Char → Prop} (hp : ∀ a, Matches p a → ∀ c ∈ a, P c)
    (h : Matches (.many p) w) : ∀ c ∈ w, P c := by
  generalize hm : Pattern.many p = m at h
  induction h with
  | empty | one _ | seq _ _ | left _ | right _ => cases hm
  | done => exact fun _ hc => absurd hc List.not_mem_nil
  | more ha _ _ ihb =>
    cases hm
    intro c hc
    rcases List.mem_append.1 hc with hc | hc
    · exact hp _ ha c hc
    · exact ihb rfl c hc

/-- What all texts of the parts have in common, the texts of the whole have. -/
theorem Matches.forall_seq {P : Char → Prop} {p q : Pattern} {w : List Char}
    (hp : ∀ a, Matches p a → ∀ c ∈ a, P c) (hq : ∀ a, Matches q a → ∀ c ∈ a, P c)
    (h : Matches (.seq p q) w) : ∀ c ∈ w, P c := by
  obtain ⟨a, b, ha, hb, rfl⟩ := matches_seq_iff.1 h
  intro c hc
  rcases List.mem_append.1 hc with hc | hc
  · exact hp a ha c hc
  · exact hq b hb c hc

/-- Whether no class of the pattern has the character. -/
def avoids (c : Char) : Pattern → Bool
  | never | empty => true
  | one accepts => !accepts c
  | seq p q | alt p q => avoids c p && avoids c q
  | many p => avoids c p

theorem ne_of_avoids {c : Char} {p : Pattern} (hp : p.avoids c = true) :
    ∀ w, Matches p w → ∀ d ∈ w, d ≠ c := by
  induction p with
  | never => exact fun _ h => by cases h
  | empty =>
    intro w h
    rw [matches_empty_iff.1 h]
    exact fun _ hd => absurd hd List.not_mem_nil
  | one accepts =>
    intro w h d hd hdc
    obtain ⟨e, he, rfl⟩ := matches_one_iff.1 h
    rw [← List.mem_singleton.1 hd, hdc] at he
    simp [avoids, he] at hp
  | seq p q ihp ihq =>
    rw [avoids, Bool.and_eq_true] at hp
    exact fun w h => h.forall_seq (ihp hp.1) (ihq hp.2)
  | alt p q ihp ihq =>
    rw [avoids, Bool.and_eq_true] at hp
    exact fun w h => (matches_alt_iff.1 h).elim (ihp hp.1 w) (ihq hp.2 w)
  | many p ih => exact fun w h => h.forall_many (ih hp)

/-- One or more characters of a class. -/
theorem Matches.atLeastOne {accepts : Char → Bool}
    (h : Matches (Pattern.atLeastOne (.one accepts)) w) :
    ∃ c rest, w = c :: rest ∧ ∀ d ∈ c :: rest, accepts d = true := by
  obtain ⟨a, b, ha, hb, rfl⟩ := matches_seq_iff.1 h
  obtain ⟨c, hc, rfl⟩ := matches_one_iff.1 ha
  have hround (a : List Char) (ha : Matches (.one accepts) a) : ∀ d ∈ a, accepts d = true := by
    obtain ⟨e, he, rfl⟩ := matches_one_iff.1 ha
    simpa using he
  refine ⟨c, b, rfl, fun d hd => ?_⟩
  rcases List.mem_cons.1 hd with rfl | hd
  · exact hc
  · exact hb.forall_many hround d hd

end Pattern

namespace Token.Rule

open Pattern

variable {w : List Char}

/-- The position of the rule that can describe a text; numbers are told apart by their dot. -/
def position : List Char → Nat
  | [] => all.length
  | c :: rest =>
    let number := if rest.contains '.' then 2 else 1
    if c.isDigit then number
    else if isLetter c then 0
    else if c == '-' then if rest.head? == some '-' then 9 else number
    else if c == '<' then if rest.head? == some '-' then 9 else 7
    else if c == '=' then if rest.isEmpty then 6 else 7
    else if c == '/' then if rest.head? == some '/' then 10 else 11
    else if c == '"' then 3
    else if [';', ',', ':'].contains c then 4
    else if ['{', '}', '(', ')', '[', ']'].contains c then 5
    else if ['!', '>'].contains c then 7
    else if ['|', '&', '^', '~'].contains c then 8
    else if c == '.' then 12
    else 13

theorem isDigit_eq_false {c : Char} (h : isLetter c = true) : c.isDigit = false := by
  have hcases : (c.isUpper || c.isLower || c == '_') = true := h
  have hbehind : ¬ c.val ≤ '9'.val := by
    rw [Bool.or_eq_true, Bool.or_eq_true, beq_iff_eq] at hcases
    rcases hcases with (hupper | hlower) | rfl
    · exact fun h => absurd (UInt32.le_trans (of_decide_eq_true hupper).1 h) (by decide)
    · have hlower : 'a'.val ≤ c.val := of_decide_eq_true (Bool.and_eq_true_iff.1 hlower).1
      exact fun h => absurd (UInt32.le_trans hlower h) (by decide)
    · decide
  exact Bool.and_eq_false_iff.2 (.inr (decide_eq_false hbehind))

theorem position_of_identifier (h : Matches identifier w) : position w = 0 := by
  obtain ⟨a, b, ha, _, rfl⟩ := matches_seq_iff.1 h
  obtain ⟨c, hc, rfl⟩ := matches_one_iff.1 ha
  simp [position, isDigit_eq_false hc, hc]

/-- A number has a digit in front, perhaps behind a sign. -/
theorem position_of_digit {sign rest : List Char} {d : Char} (hs : sign = [] ∨ sign = ['-'])
    (hd : d.isDigit = true) :
    position (sign ++ d :: rest) = if rest.contains '.' then 2 else 1 := by
  rcases hs with rfl | rfl
  · simp [position, hd]
  · have hdot : '.' ≠ d := by
      rintro rfl
      cases hd
    have hminus : d ≠ '-' := by
      rintro rfl
      cases hd
    simp [position, isLetter, hdot, hminus]

theorem matches_sign {p : Pattern} (h : Matches (.seq (maybe (char '-')) p) w) :
    ∃ sign v, (sign = [] ∨ sign = ['-']) ∧ Matches p v ∧ w = sign ++ v := by
  obtain ⟨a, b, ha, hb, rfl⟩ := matches_seq_iff.1 h
  rw [matches_maybe_iff, matches_char_iff] at ha
  exact ⟨a, b, ha, hb, rfl⟩

theorem position_of_integer (h : Matches integer w) : position w = 1 := by
  obtain ⟨sign, v, hs, hv, rfl⟩ := matches_sign h
  have hplain {d : Char} {rest : List Char} (hd : d.isDigit = true)
      (hrest : '.' ∉ rest) : position (sign ++ d :: rest) = 1 := by
    rw [position_of_digit hs hd, if_neg (by simpa using hrest)]
  rcases matches_alt_iff.1 hv with hv | hv
  · obtain ⟨a, b, ha, hb, rfl⟩ := matches_seq_iff.1 hv
    obtain ⟨x, y, hx, hy, rfl⟩ := matches_seq_iff.1 hb
    obtain ⟨e, he, rfl⟩ := matches_oneOf_iff.1 hx
    obtain ⟨d, rest, rfl, hdigits⟩ := Matches.atLeastOne hy
    rw [matches_char_iff.1 ha]
    refine hplain rfl fun hdot => ?_
    rcases (List.mem_cons.1 hdot : '.' = e ∨ '.' ∈ d :: rest) with rfl | hdot
    · exact absurd he (by decide)
    · exact absurd (hdigits '.' hdot) (by decide)
  · obtain ⟨d, rest, rfl, hdigits⟩ := Matches.atLeastOne hv
    refine hplain (hdigits d List.mem_cons_self) fun hdot => ?_
    exact absurd (hdigits '.' (List.mem_cons_of_mem d hdot)) (by decide)

theorem position_of_real (h : Matches real w) : position w = 2 := by
  obtain ⟨sign, v, hs, hv, rfl⟩ := matches_sign h
  obtain ⟨a, b, ha, hb, rfl⟩ := matches_seq_iff.1 hv
  obtain ⟨x, y, hx, _, rfl⟩ := matches_seq_iff.1 hb
  obtain ⟨d, rest, rfl, hdigits⟩ := Matches.atLeastOne ha
  rw [matches_char_iff.1 hx, List.cons_append,
    position_of_digit hs (hdigits d List.mem_cons_self), if_pos (by simp)]

theorem position_of_string (h : Matches string w) : position w = 3 := by
  obtain ⟨a, b, ha, _, rfl⟩ := matches_seq_iff.1 h
  rw [matches_char_iff.1 ha]
  rfl

theorem position_of_lineComment (h : Matches lineComment w) : position w = 10 := by
  obtain ⟨a, b, ha, _, rfl⟩ := matches_seq_iff.1 h
  obtain ⟨x, y, hx, hy, rfl⟩ := matches_seq_iff.1 ha
  rw [matches_char_iff.1 hx, matches_char_iff.1 hy]
  rfl

theorem position_of_blockComment (h : Matches blockComment w) : position w = 11 := by
  obtain ⟨a, b, ha, _, rfl⟩ := matches_seq_iff.1 h
  obtain ⟨x, y, hx, hy, rfl⟩ := matches_seq_iff.1 ha
  rw [matches_char_iff.1 hx, matches_char_iff.1 hy]
  rfl

/-- The texts of a rule that describes finitely many of them. -/
theorem position_of_oneOf {cs : List Char} {n : Nat} (hcs : cs.all (position [·] == n) = true)
    (h : Matches (oneOf cs) w) : position w = n := by
  obtain ⟨c, hc, rfl⟩ := matches_oneOf_iff.1 h
  exact beq_iff_eq.1 (List.all_eq_true.1 hcs c hc)

theorem matches_word_iff {cs : List Char} : Matches (word cs) w ↔ w = cs := by
  induction cs generalizing w with
  | nil => exact matches_empty_iff
  | cons c rest ih =>
    cases rest with
    | nil => exact matches_char_iff
    | cons d rest =>
      simp only [word, matches_seq_iff, matches_char_iff] at ih ⊢
      simp [ih]

theorem position_of_relation (h : Matches relation w) : position w = 7 := by
  simp only [relation, choice, matches_alt_iff, matches_word_iff, matches_char_iff] at h
  rcases h with rfl | rfl | rfl | rfl | rfl | rfl <;> rfl

theorem position_of_arrow (h : Matches arrow w) : position w = 9 := by
  simp only [arrow, choice, matches_alt_iff, matches_word_iff] at h
  rcases h with rfl | rfl | rfl <;> rfl

theorem position_of_matches {r : Rule} {i : Nat} (hr : all[i]? = some r)
    (h : Matches r.2 w) : position w = i := by
  match i with
  | 0 => cases hr; exact position_of_identifier h
  | 1 => cases hr; exact position_of_integer h
  | 2 => cases hr; exact position_of_real h
  | 3 => cases hr; exact position_of_string h
  | 4 => cases hr; exact position_of_oneOf rfl h
  | 5 => cases hr; exact position_of_oneOf rfl h
  | 6 => cases hr; rw [matches_char_iff.1 h]; rfl
  | 7 => cases hr; exact position_of_relation h
  | 8 => cases hr; exact position_of_oneOf rfl h
  | 9 => cases hr; exact position_of_arrow h
  | 10 => cases hr; exact position_of_lineComment h
  | 11 => cases hr; exact position_of_blockComment h
  | 12 => cases hr; rw [matches_char_iff.1 h]; rfl
  | 13 => cases hr; rw [matches_char_iff.1 h]; rfl
  | i + 14 => cases hr

/-- No text is described by two rules. -/
theorem eq_of_matches {r r' : Rule} (hr : r ∈ all) (hr' : r' ∈ all) (h : Matches r.2 w)
    (h' : Matches r'.2 w) : r = r' := by
  obtain ⟨i, hi⟩ := List.mem_iff_getElem?.1 hr
  obtain ⟨j, hj⟩ := List.mem_iff_getElem?.1 hr'
  have hij : i = j := (position_of_matches hi h).symm.trans (position_of_matches hj h')
  rw [hij, hj] at hi
  exact (Option.some.inj hi).symm

theorem nullable_eq_false {r : Rule} (h : r ∈ all) : r.2.nullable = false := by
  have hall : ∀ r ∈ all, r.2.nullable = false := by decide
  exact hall r h

theorem productive_oneOf {c : Char} {cs : List Char} : (oneOf (c :: cs)).Productive :=
  ⟨c, by simp⟩

theorem productive_word {c : Char} {cs : List Char} : (word (c :: cs)).Productive := by
  induction cs generalizing c with
  | nil => exact ⟨c, beq_self_eq_true c⟩
  | cons d cs ih => exact ⟨⟨c, beq_self_eq_true c⟩, ih⟩

theorem productive_all : ∀ r ∈ all, r.2.Productive := by
  have hchar (c : Char) : (char c).Productive := ⟨c, beq_self_eq_true c⟩
  have hdigits : digits.Productive := ⟨⟨'0', rfl⟩, '0', rfl⟩
  have hidentifier : identifier.Productive := ⟨⟨'a', rfl⟩, 'a', rfl⟩
  have hinteger : integer.Productive :=
    ⟨⟨trivial, hchar '-'⟩, ⟨hchar '0', productive_oneOf, ⟨'0', rfl⟩, '0', rfl⟩, hdigits⟩
  have hreal : real.Productive :=
    ⟨⟨trivial, hchar '-'⟩, hdigits, hchar '.', hdigits, trivial, productive_oneOf,
      ⟨trivial, productive_oneOf⟩, hdigits⟩
  have hstring : string.Productive :=
    ⟨hchar '"', ⟨⟨'a', rfl⟩, hchar '\\', 'a', rfl⟩, hchar '"'⟩
  have hline : lineComment.Productive := ⟨productive_word, 'a', rfl⟩
  have hstars : (atLeastOne (char '*')).Productive := ⟨hchar '*', hchar '*'⟩
  have hblock : blockComment.Productive :=
    ⟨productive_word, ⟨⟨'a', rfl⟩, hstars, 'a', rfl⟩, hstars, hchar '/'⟩
  have hrelation : relation.Productive :=
    ⟨productive_word, productive_word, hchar '<', hchar '>', productive_word, productive_word⟩
  have harrow : arrow.Productive := ⟨productive_word, productive_word, productive_word⟩
  intro r hr
  simp only [all, List.mem_cons, List.not_mem_nil, or_false] at hr
  rcases hr with rfl | rfl | rfl | rfl | rfl | rfl | rfl | rfl | rfl | rfl | rfl | rfl | rfl | rfl
  all_goals first | assumption | exact productive_oneOf | exact hchar _

end Token.Rule

namespace Token

open Rule

/-- A beginning of the text that is not empty and that one of the patterns describes. -/
def IsMatch (text w : List Char) : Prop :=
  w ≠ [] ∧ w <+: text ∧ ∃ r ∈ Rule.all, Pattern.Matches r.2 w

theorem isMatch_iff {text w : List Char} :
    IsMatch text w ↔ w <+: text ∧ ∃ kind, Describes Rule.all kind w := by
  constructor
  · rintro ⟨_, hw, ⟨kind, p⟩, hr, hm⟩
    exact ⟨hw, kind, p, hr, hm⟩
  · rintro ⟨hw, kind, p, hr, hm⟩
    refine ⟨?_, hw, (kind, p), hr, hm⟩
    rintro rfl
    have hnullable := nullable_eq_false hr
    rw [(Pattern.nullable_iff p).2 hm] at hnullable
    cases hnullable

/-- What the lexer takes at the start of a text that is not empty. -/
theorem lexeme_cases (c : Char) (rest : List Char) :
    let w := c :: rest.take (lexeme c rest).2
    (∃ p, ((lexeme c rest).1, p) ∈ Rule.all ∧ Pattern.Matches p w ∧
      ∀ w', IsMatch (c :: rest) w' → w'.length ≤ w.length) ∨
    ((lexeme c rest).1 = .invalid ∧ (∀ w', ¬ IsMatch (c :: rest) w') ∧
      w.length = max 1 (reach Rule.all (c :: rest))) := by
  intro w
  cases h : longest Rule.all (c :: rest) with
  | some found =>
    obtain ⟨kind, n⟩ := found
    obtain ⟨hle, p, hp, hm⟩ := describes_of_longest h
    have hmatch : IsMatch (c :: rest) ((c :: rest).take n) :=
      isMatch_iff.2 ⟨List.take_prefix _ _, kind, p, hp, hm⟩
    cases n with
    | zero => exact absurd rfl hmatch.1
    | succ n =>
      have hlexeme : lexeme c rest = (kind, n) := by rw [lexeme, h]; rfl
      have hw : w = (c :: rest).take (n + 1) := by simp only [w, hlexeme]; rfl
      refine .inl ⟨p, hlexeme ▸ hp, hw ▸ hm, fun w' hw' => ?_⟩
      obtain ⟨hfront, kind', hd⟩ := isMatch_iff.1 hw'
      rw [hw, List.length_take, Nat.min_eq_left hle]
      exact length_le_of_longest h hfront hd
  | none =>
    have hlexeme : lexeme c rest = (.invalid, reach Rule.all (c :: rest) - 1) := by rw [lexeme, h]
    refine .inr ⟨by rw [hlexeme], fun w' hw' => ?_, ?_⟩
    · obtain ⟨hfront, kind', hd⟩ := isMatch_iff.1 hw'
      exact not_describes_of_longest h hfront hd
    · have hreach := reach_le_length Rule.all (c :: rest)
      simp only [List.length_cons] at hreach
      simp only [w, hlexeme, List.length_cons, List.length_take]
      omega

/-- A token does not go on behind the text. -/
theorem lexeme_le_length (c : Char) (rest : List Char) : (lexeme c rest).2 ≤ rest.length := by
  cases h : longest Rule.all (c :: rest) with
  | some found =>
    obtain ⟨hle, -⟩ := describes_of_longest h
    rw [lexeme, h]
    exact Nat.sub_le_of_le_add hle
  | none =>
    rw [lexeme, h]
    exact Nat.sub_le_of_le_add (reach_le_length Rule.all (c :: rest))

/-- What a rule describes is the token, if no match is longer. -/
theorem lexeme_eq {kind : Kind} {p : Pattern} {c : Char} {w rest : List Char}
    (hp : (kind, p) ∈ Rule.all) (hm : Pattern.Matches p (c :: w))
    (hmax : ∀ w', IsMatch (c :: (w ++ rest)) w' → w'.length ≤ w.length + 1) :
    lexeme c (w ++ rest) = (kind, w.length) := by
  have hmatch : IsMatch (c :: (w ++ rest)) (c :: w) :=
    ⟨List.cons_ne_nil _ _, List.prefix_append (c :: w) rest, (kind, p), hp, hm⟩
  rcases lexeme_cases c (w ++ rest) with ⟨q, hq, hfound, hlongest⟩ | ⟨-, hnone, -⟩
  · have hfront : c :: (w ++ rest).take (lexeme c (w ++ rest)).2 <+: c :: (w ++ rest) :=
      List.cons_prefix_cons.2 ⟨rfl, List.take_prefix _ _⟩
    have hlength : (lexeme c (w ++ rest)).2 = w.length := by
      have hbound := lexeme_le_length c (w ++ rest)
      have hle := hlongest _ hmatch
      have hge := hmax _ ⟨List.cons_ne_nil _ _, hfront, _, hq, hfound⟩
      rw [List.length_cons, List.length_cons, List.length_take_of_le hbound] at hle
      rw [List.length_cons, List.length_take_of_le hbound] at hge
      omega
    rw [hlength, List.take_left] at hfound
    have hkind : (lexeme c (w ++ rest)).1 = kind :=
      congrArg Prod.fst (eq_of_matches hq hp hfound hm)
    exact Prod.ext hkind hlength
  · exact absurd hmatch (hnone _)

/-- Each token stands in the text at its place, as the lexer takes it there. -/
theorem exists_lexeme {place : Text.Place} {text : List Char} {t : Token}
    (h : t ∈ scan place text) :
    ∃ before c rest, text = before ++ c :: rest ∧ t.place = place.after before ∧
      t.kind = (lexeme c rest).1 ∧ t.text.toList = c :: rest.take (lexeme c rest).2 := by
  fun_induction scan place text with
  | case1 => cases h
  | case2 place c rest _ ih =>
    obtain ⟨before, d, rest', rfl, hplace, hkind, htext⟩ := ih h
    exact ⟨c :: before, d, rest', rfl, hplace, hkind, htext⟩
  | case3 place c rest _ kind length hl text ih =>
    rcases List.mem_cons.1 h with rfl | h
    · refine ⟨[], c, rest, rfl, rfl, ?_, ?_⟩
      · rw [hl]
      · rw [hl, String.toList_ofList]
    · obtain ⟨before, d, rest', hrest, hplace, hkind, htext⟩ := ih h
      refine ⟨text ++ before, d, rest', ?_, ?_, hkind, htext⟩
      · rw [List.append_assoc, ← hrest, List.cons_append, List.take_append_drop]
      · rw [hplace, Text.Place.after_append]

/-- A token that is valid is described by a pattern of its kind. -/
theorem exists_rule_of_mem {place : Text.Place} {text : List Char} {t : Token}
    (h : t ∈ scan place text) (hk : t.kind ≠ .invalid) :
    ∃ p, (t.kind, p) ∈ Rule.all ∧ Pattern.Matches p t.text.toList := by
  obtain ⟨_, c, rest, _, _, hkind, htext⟩ := exists_lexeme h
  rw [hkind] at hk
  rw [hkind, htext]
  rcases lexeme_cases c rest with ⟨p, hp, hm, _⟩ | ⟨hinvalid, _⟩
  · exact ⟨p, hp, hm⟩
  · exact absurd hinvalid hk

theorem matches_identifier_of_mem {place : Text.Place} {text : List Char} {t : Token}
    (h : t ∈ scan place text) (hk : t.kind = .identifier) :
    Pattern.Matches identifier t.text.toList := by
  obtain ⟨p, hp, hm⟩ := exists_rule_of_mem h (by rw [hk]; nofun)
  have hpattern : p = identifier := by
    rw [hk] at hp
    simp only [Rule.all, List.mem_cons, Prod.mk.injEq, reduceCtorEq, false_and, or_false,
      List.not_mem_nil, true_and] at hp
    exact hp
  exact hpattern ▸ hm

/-- A token is the longest beginning of the text in front of it that a pattern describes, and it
has the kind of the only pattern that does. It is invalid where there is no such beginning, and
only there; it then takes what can still become a token, but at least one character. -/
theorem tokens_are_longest_matches {text : String} {t : Token} (h : t ∈ tokenize text) :
    ∃ before after, text.toList = before ++ (t.text.toList ++ after) ∧
      t.place = ({} : Text.Place).after before ∧
      ((∃ w, IsMatch (t.text.toList ++ after) w) →
        IsMatch (t.text.toList ++ after) t.text.toList ∧
        (∀ w, IsMatch (t.text.toList ++ after) w → w.length ≤ t.text.toList.length) ∧
        ∃ r ∈ Rule.all, r.1 = t.kind ∧ Pattern.Matches r.2 t.text.toList ∧
          ∀ r' ∈ Rule.all, Pattern.Matches r'.2 t.text.toList → r' = r) ∧
      (t.kind = .invalid ↔ ∀ w, ¬ IsMatch (t.text.toList ++ after) w) ∧
      (t.kind = .invalid → 1 ≤ t.text.toList.length ∧
        (Viable Rule.all t.text.toList ∨ t.text.toList.length = 1) ∧
        ∀ w, w <+: t.text.toList ++ after → Viable Rule.all w →
          w.length ≤ t.text.toList.length) := by
  obtain ⟨before, c, rest, htext, hplace, hkind, hw⟩ := exists_lexeme h
  refine ⟨before, rest.drop (lexeme c rest).2, ?_, hplace, ?_⟩
  · rw [htext, hw, List.cons_append, List.take_append_drop]
  have hrest : t.text.toList ++ rest.drop (lexeme c rest).2 = c :: rest := by
    rw [hw, List.cons_append, List.take_append_drop]
  have hfront : t.text.toList <+: c :: rest := ⟨_, hrest⟩
  have hne : t.text.toList ≠ [] := by rw [hw]; exact List.cons_ne_nil _ _
  rw [hrest]
  rcases lexeme_cases c rest with ⟨p, hp, hm, hmax⟩ | ⟨hinvalid, hnone, hlength⟩
  · rw [← hkind] at hp
    rw [← hw] at hm hmax
    have hmatch : IsMatch (c :: rest) t.text.toList := ⟨hne, hfront, _, hp, hm⟩
    have hvalid : t.kind ≠ .invalid := by
      have hkinds : ∀ r ∈ Rule.all, r.1 ≠ .invalid := by decide
      exact hkinds _ hp
    refine ⟨fun _ => ⟨hmatch, hmax, _, hp, rfl, hm, fun r' hr' hm' => eq_of_matches hr' hp hm' hm⟩,
      ⟨fun h => absurd h hvalid, fun h => absurd hmatch (h _)⟩, fun h => absurd h hvalid⟩
  · rw [← hw] at hlength
    refine ⟨fun ⟨w, hw⟩ => absurd hw (hnone w), ⟨fun _ => hnone, fun _ => hkind.trans hinvalid⟩,
      fun _ => ⟨by omega, ?_, fun w hw' hv => ?_⟩⟩
    · rw [viable_iff_length_le_reach productive_all hfront hne]
      omega
    · cases w with
      | nil => exact Nat.zero_le _
      | cons d w =>
        have hle := (viable_iff_length_le_reach productive_all hw' (List.cons_ne_nil d w)).1 hv
        omega

/-- A real number behind which an exponent was begun and broken off. -/
theorem tokens_are_longest_matches_before_exponent :
    let t : Token := ⟨.real, "1.5", {}⟩
    t ∈ tokenize "1.5e+" ∧ ∃ before after,
      "1.5e+".toList = before ++ (t.text.toList ++ after) ∧
      IsMatch (t.text.toList ++ after) t.text.toList ∧
      ∀ w, IsMatch (t.text.toList ++ after) w → w.length ≤ t.text.toList.length := by
  intro t
  have ht : t ∈ tokenize "1.5e+" := by decide +kernel
  obtain ⟨before, after, htext, _, hlongest, hinvalid, _⟩ := tokens_are_longest_matches ht
  have hexists : ∃ w, IsMatch (t.text.toList ++ after) w :=
    Classical.not_forall_not.1 fun hnone => by cases hinvalid.2 hnone
  obtain ⟨hmatch, hmax, _⟩ := hlongest hexists
  exact ⟨ht, before, after, htext, hmatch, hmax⟩

end Token

end Idl
