import Idl.Proofs.Draft.Basic
import Idl.Proofs.Token.Lexer

/-!
Texts of drafts. No pattern but those of strings and comments describes a text with a blank in
it, so a piece with a blank behind it is read as one token of its own kind, and the rendering of
drafts spells their pieces.
-/

namespace Idl

section Spell

variable {tokens : List Token} {pieces more : List Piece} {p : Piece} {t : Token}

theorem spell_nil : Spell tokens [] ↔ tokens = [] := by
  simp [Spell]

theorem spell_cons : Spell tokens (p :: pieces) ↔
    ∃ t rest, tokens = t :: rest ∧ t.is p.kind p.text = true ∧ Spell rest pieces := by
  cases tokens with
  | nil => simp [Spell]
  | cons t rest =>
    simp only [Spell, Token.is, List.map_cons, List.cons.injEq, Prod.mk.injEq, Bool.and_eq_true,
      beq_iff_eq]
    constructor
    · exact fun h => ⟨t, rest, ⟨rfl, rfl⟩, h⟩
    · rintro ⟨_, _, ⟨rfl, rfl⟩, h⟩
      exact h

theorem spell_singleton :
    Spell tokens [p] ↔ ∃ t, tokens = [t] ∧ t.is p.kind p.text = true := by
  simp [spell_cons, spell_nil]

theorem spell_append : Spell tokens (pieces ++ more) ↔
    ∃ a b, tokens = a ++ b ∧ Spell a pieces ∧ Spell b more := by
  rw [Spell, List.map_append, List.map_eq_append_iff]
  rfl

theorem Spell.append {a b : List Token} (ha : Spell a pieces) (hb : Spell b more) :
    Spell (a ++ b) (pieces ++ more) :=
  spell_append.2 ⟨a, b, rfl, ha, hb⟩

theorem Spell.length_eq (h : Spell tokens pieces) : tokens.length = pieces.length := by
  simpa using congrArg List.length h

theorem uses_append {a b : List Token} (ha : Spell a pieces) :
    uses (a ++ b) (pieces ++ more) = uses a pieces ++ uses b more := by
  rw [uses, List.zip_append ha.length_eq, List.filterMap_append]
  rfl

/-- Where no piece names a type there are no uses of types. -/
theorem uses_eq_nil (h : ∀ p ∈ pieces, p.classifier = none) (tokens : List Token) :
    uses tokens pieces = [] := by
  rw [uses, List.filterMap_eq_nil_iff]
  rintro ⟨t, p⟩ hp
  simp [h p (List.of_mem_zip hp).2]

/-- What types are wanted for, and their names, is known from the pieces. -/
theorem map_uses (h : Spell tokens pieces) :
    (uses tokens pieces).map (fun u => (u.1, u.2.text)) = pieces.filterMap Piece.use? := by
  induction pieces generalizing tokens with
  | nil =>
    rw [spell_nil.1 h]
    rfl
  | cons p pieces ih =>
    obtain ⟨t, rest, rfl, ht, h⟩ := spell_cons.1 h
    have htext : t.text = p.text := by
      simp only [Token.is, Bool.and_eq_true, beq_iff_eq] at ht
      exact ht.2
    have hrest := ih h
    simp only [uses, List.zip_cons_cons, List.filterMap_cons, Piece.use?] at hrest ⊢
    cases hp : p.classifier with
    | none => simpa using hrest
    | some classifier => simpa [htext] using hrest

end Spell

namespace Pattern

/-- To match a text is to be left with the empty text behind all its characters. -/
theorem matches_iff_nullable_foldl {p : Pattern} {w : List Char} :
    Matches p w ↔ (w.foldl (fun p c => p.derive c) p).nullable = true := by
  induction w generalizing p with
  | nil => exact (nullable_iff p).symm
  | cons c w ih => rw [← matches_derive, List.foldl_cons, ih]

end Pattern

namespace Token

open Rule

variable {c : Char} {rest : List Char}

/-- Only what starts like a string or a comment can have a blank in it. -/
theorem ne_blank_of_matches {r : Rule} (hr : r ∈ Rule.all) (hquote : c ≠ '"') (hslash : c ≠ '/')
    (h : Pattern.Matches r.2 (c :: rest)) : ∀ d ∈ c :: rest, d ≠ ' ' := by
  have hstart {first : Char} {p : Pattern}
      (h : Pattern.Matches (.seq (Pattern.char first) p) (c :: rest)) : c = first := by
    obtain ⟨a, b, ha, _, heq⟩ := Pattern.matches_seq_iff.1 h
    rw [Pattern.matches_char_iff.1 ha] at heq
    exact (List.cons.inj heq).1
  have hword {first second : Char} {p : Pattern}
      (h : Pattern.Matches (.seq (Pattern.word [first, second]) p) (c :: rest)) : c = first := by
    obtain ⟨a, b, ha, _, heq⟩ := Pattern.matches_seq_iff.1 h
    rw [matches_word_iff.1 ha] at heq
    exact (List.cons.inj heq).1
  simp only [Rule.all, List.mem_cons, List.not_mem_nil, or_false] at hr
  rcases hr with rfl | rfl | rfl | rfl | rfl | rfl | rfl | rfl | rfl | rfl | rfl | rfl | rfl | rfl
  case inr.inr.inr.inl => exact absurd (hstart h) hquote
  case inr.inr.inr.inr.inr.inr.inr.inr.inr.inr.inl => exact absurd (hword h) hslash
  case inr.inr.inr.inr.inr.inr.inr.inr.inr.inr.inr.inl => exact absurd (hword h) hslash
  all_goals exact Pattern.ne_of_avoids (by decide) _ h

/-- A text that a rule describes is one token in front of a blank. -/
theorem lexeme_blank {kind : Kind} {p : Pattern} (hp : (kind, p) ∈ Rule.all) (hquote : c ≠ '"')
    (hslash : c ≠ '/') (h : Pattern.Matches p (c :: rest)) (after : List Char) :
    lexeme c (rest ++ ' ' :: after) = (kind, rest.length) := by
  refine lexeme_eq hp h fun w' ⟨hne, hfront, r, hr, hm⟩ => ?_
  obtain ⟨d, w, rfl⟩ := List.exists_cons_of_ne_nil hne
  obtain ⟨rfl, htail⟩ := List.cons_prefix_cons.1 hfront
  -- A longer match would have the blank in it.
  refine Nat.not_lt.1 fun hlt => ?_
  have hblank : ' ' ∈ w := by
    have hinside : rest ++ [' '] <+: w := by
      refine List.prefix_of_prefix_length_le ⟨after, List.append_assoc _ _ _⟩ htail ?_
      simpa [Nat.succ_le_iff] using hlt
    exact hinside.subset (by simp)
  exact ne_blank_of_matches hr hquote hslash hm ' ' (List.mem_cons_of_mem d hblank) rfl

/-- What stands in a text as one token of a kind if there is a blank behind it. -/
def IsLexeme (kind : Kind) (text : List Char) : Prop :=
  (∃ r ∈ Rule.all, r.1 = kind ∧ Pattern.Matches r.2 text) ∧
    ∃ c rest, text = c :: rest ∧ c ≠ '"' ∧ c ≠ '/' ∧ isGap c = false

instance (p : Pattern) (text : List Char) : Decidable (Pattern.Matches p text) :=
  decidable_of_iff _ Pattern.matches_iff_nullable_foldl.symm

instance (kind : Kind) (text : List Char) : Decidable (IsLexeme kind text) :=
  match text with
  | [] => isFalse fun h => by obtain ⟨_, _, _, h, _⟩ := h; cases h
  | c :: rest =>
    decidable_of_iff ((∃ r ∈ Rule.all, r.1 = kind ∧ Pattern.Matches r.2 (c :: rest)) ∧
        c ≠ '"' ∧ c ≠ '/' ∧ isGap c = false)
      (and_congr_right fun _ => ⟨fun h => ⟨c, rest, rfl, h⟩, fun ⟨_, _, h, hc⟩ => by
        cases h
        exact hc⟩)

theorem scan_blank {kind : Kind} {text : List Char} (h : IsLexeme kind text) (place : Text.Place)
    (after : List Char) :
    scan place (text ++ ' ' :: after) =
      ⟨kind, String.ofList text, place⟩ :: scan ((place.after text).next ' ') after := by
  obtain ⟨⟨⟨_, p⟩, hp, rfl, hm⟩, c, rest, rfl, hquote, hslash, hgap⟩ := h
  rw [List.cons_append, scan, if_neg (by simp [hgap]), lexeme_blank hp hquote hslash hm]
  simp only [List.take_left, List.drop_left]
  rw [scan, if_pos (by decide)]

theorem isLexeme_identifier {text : List Char} (h : Pattern.Matches identifier text) :
    IsLexeme .identifier text := by
  obtain ⟨a, b, ha, _, rfl⟩ := Pattern.matches_seq_iff.1 h
  obtain ⟨c, hc, rfl⟩ := Pattern.matches_one_iff.1 ha
  have hne (d : Char) (hd : isLetter d = false) : c ≠ d := by
    rintro rfl
    exact Bool.false_ne_true (hd.symm.trans hc)
  refine ⟨⟨(.identifier, identifier), List.mem_cons_self, rfl, h⟩, c, b, rfl, hne _ (by decide),
    hne _ (by decide), ?_⟩
  simp [isGap, hne ' ' (by decide), hne '\t' (by decide), hne '\r' (by decide),
    hne '\n' (by decide), hne '\x0c' (by decide)]

end Token

/-- The text is a name, though it may be a keyword as well. -/
def IsName (text : String) : Prop :=
  Pattern.Matches Token.Rule.identifier text.toList

instance (text : String) : Decidable (IsName text) :=
  inferInstanceAs (Decidable (Pattern.Matches _ _))

/-- The piece can be told from what stands behind a blank. -/
def Piece.IsLexeme (p : Piece) : Prop :=
  Token.IsLexeme p.kind p.text.toList

instance (p : Piece) : Decidable p.IsLexeme :=
  inferInstanceAs (Decidable (Token.IsLexeme _ _))

/-- Pieces with a blank behind each of them are spelled by what the lexer takes for them. -/
theorem spell_scan {pieces : List Piece} (h : ∀ p ∈ pieces, p.IsLexeme) (place : Text.Place) :
    Spell (Token.scan place (pieces.flatMap fun p => p.text.toList ++ [' '])) pieces := by
  induction pieces generalizing place with
  | nil => rw [List.flatMap_nil, Token.scan, spell_nil]
  | cons p pieces ih =>
    rw [List.forall_mem_cons] at h
    rw [List.flatMap_cons, List.append_assoc, List.singleton_append, Token.scan_blank h.1,
      spell_cons]
    exact ⟨_, _, rfl, by simp [Token.is], ih h.2 _⟩

section Fixed

/-- The pieces that are the same in all texts: keywords and marks. -/
def Piece.fixed : List Piece :=
  ["structure", "interface", "method", "enum", "flags", Cast.weak.name, Cast.strong.name,
      Template.reference.keyword, Template.vector.keyword].map word ++
    [semicolon, opening, closing, less, greater] ++
    [.input, .output, .both].map fun direction =>
      { kind := .arrow, text := Direction.arrow direction }

variable {P : Piece → Prop} (hfixed : ∀ p ∈ Piece.fixed, P p)

include hfixed

theorem forall_pieces_type {classifier : String} {e : TypeExpr} (h : P (.leaf classifier e.leaf)) :
    ∀ p ∈ e.pieces classifier, P p := by
  rw [TypeExpr.pieces, List.forall_mem_append, List.forall_mem_cons]
  refine ⟨fun p hp => ?_, h, fun p hp => ?_⟩
  · obtain ⟨template, _, hp⟩ := List.mem_flatMap.1 hp
    simp only [List.mem_cons, List.not_mem_nil, or_false] at hp
    rcases hp with rfl | rfl
    · cases template <;> exact hfixed _ (by decide)
    · exact hfixed _ (by decide)
  · rw [List.eq_of_mem_replicate hp]
    exact hfixed _ (by decide)

/-- A name and a semicolon behind it. -/
theorem forall_pieces_nameEnd {name : String} (h : P (.word name)) :
    ∀ p ∈ [Piece.word name, .semicolon], P p := by
  rw [List.forall_mem_cons, List.forall_mem_singleton]
  exact ⟨h, hfixed _ (by decide)⟩

/-- A body, and a keyword and a name in front of it. -/
theorem forall_pieces_block {keyword name : String} {inner : List Piece}
    (hkeyword : .word keyword ∈ Piece.fixed) (hname : P (.word name)) (hinner : ∀ p ∈ inner, P p) :
    ∀ p ∈ .word keyword :: .word name :: .opening :: (inner ++ [.closing]), P p := by
  simp only [List.forall_mem_cons, List.forall_mem_append]
  exact ⟨hfixed _ hkeyword, hname, hfixed _ (by decide), hinner, hfixed _ (by decide), by simp⟩

end Fixed

namespace Draft

/-- The names in a draft. -/
def names : Draft → List String
  | struct name fields => name :: fields.flatMap fun f => [f.type.leaf, f.name]
  | interface name methods =>
    name :: methods.flatMap fun m =>
      m.name :: m.parameters.flatMap fun p => [p.type.leaf, p.name]
  | enum _ name _ values => name :: values

variable {P : Piece → Prop} {x : Draft}

/-- What is true of keywords and marks and of the names in a draft is true of all its pieces. -/
theorem forall_pieces (hfixed : ∀ p ∈ Piece.fixed, P p)
    (h : ∀ name ∈ x.names, P (.word name) ∧ ∀ classifier, P (.leaf classifier name)) :
    ∀ p ∈ x.pieces, P p := by
  cases x with
  | struct name fields =>
    rw [names, List.forall_mem_cons] at h
    refine forall_pieces_block hfixed (by decide) h.1.1 fun p hp => ?_
    obtain ⟨f, hf, hp⟩ := List.mem_flatMap.1 hp
    have hnames := fun n hn => h.2 n (List.mem_flatMap.2 ⟨f, hf, hn⟩)
    rcases List.mem_append.1 hp with hp | hp
    · exact forall_pieces_type hfixed ((hnames _ (by simp)).2 _) p hp
    · exact forall_pieces_nameEnd hfixed (hnames _ (by simp)).1 p hp
  | interface name methods =>
    rw [names, List.forall_mem_cons] at h
    refine forall_pieces_block hfixed (by decide) h.1.1 fun p hp => ?_
    obtain ⟨m, hm, hp⟩ := List.mem_flatMap.1 hp
    have hmethod := fun n hn => h.2 n (List.mem_flatMap.2 ⟨m, hm, hn⟩)
    rw [List.forall_mem_cons] at hmethod
    refine forall_pieces_block hfixed (by decide) hmethod.1.1 (fun p hp => ?_) p hp
    obtain ⟨a, ha, hp⟩ := List.mem_flatMap.1 hp
    have hnames := fun n hn => hmethod.2 n (List.mem_flatMap.2 ⟨a, ha, hn⟩)
    rcases List.mem_cons.1 hp with rfl | hp
    · cases a.direction <;> exact hfixed _ (by decide)
    rcases List.mem_append.1 hp with hp | hp
    · exact forall_pieces_type hfixed ((hnames _ (by simp)).2 _) p hp
    · exact forall_pieces_nameEnd hfixed (hnames _ (by simp)).1 p hp
  | enum front name flagsBehind values =>
    rw [names, List.forall_mem_cons] at h
    have hfront : ∀ w ∈ front.words, .word w ∈ Piece.fixed := by
      rcases front with ⟨_ | ⟨_ | _⟩, _ | _, _ | _⟩ <;> decide
    have hbehind : ∀ p ∈ behindPieces flagsBehind, p ∈ Piece.fixed := by
      cases flagsBehind <;> decide
    simp only [pieces, List.forall_mem_append, List.forall_mem_cons, List.forall_mem_map]
    refine ⟨fun w hw => hfixed _ (hfront w hw), hfixed _ (by decide), h.1.1,
      fun p hp => hfixed p (hbehind p hp), hfixed _ (by decide), fun p hp => ?_,
      hfixed _ (by decide), by simp⟩
    obtain ⟨v, hv, hp⟩ := List.mem_flatMap.1 hp
    exact forall_pieces_nameEnd hfixed (h.2 v hv).1 p hp

theorem isLexeme_of_names (h : ∀ name ∈ x.names, IsName name) : ∀ p ∈ x.pieces, p.IsLexeme :=
  forall_pieces (by decide) fun name hname =>
    ⟨Token.isLexeme_identifier (h name hname), fun _ => Token.isLexeme_identifier (h name hname)⟩

/-- There are no comments in drafts. -/
theorem kind_ne_comment : ∀ p ∈ x.pieces, p.kind ≠ .comment :=
  forall_pieces (by decide) fun _ _ => ⟨Token.Kind.noConfusion, fun _ => Token.Kind.noConfusion⟩

/-- The rendering of drafts spells their pieces. -/
theorem spell_render {ds : List Draft} (h : ∀ x ∈ ds, ∀ name ∈ x.names, IsName name) :
    Spell (Token.tokenize (render ds)) (ds.flatMap pieces) := by
  rw [Token.tokenize, render, String.toList_ofList]
  refine spell_scan (fun p hp => ?_) _
  obtain ⟨x, hx, hp⟩ := List.mem_flatMap.1 hp
  exact isLexeme_of_names (h x hx) p hp

end Draft

end Idl
