import Idl.Proofs.Reading.Recovery

/-!
Blocks behind headers. A parser that fails in front of the block of a construct leaves the whole
block to the recovery, which goes on right behind it. One that wants a body to be empty may also
fail right behind the opening bracket; the recovery then counts the blocks from there on, and does
not see that one of them is open.
-/

namespace Idl.Grammar

/-- Balanced tokens between the brackets of a body. -/
structure Block where
  opening : Token
  inside : List Token
  closing : Token
  opens : isOpening opening = true
  balanced : closes 0 inside = true
  ends : isClosing closing = true

namespace Block

/-- The tokens from the block on. -/
def andThen (b : Block) (outside : List Token) : List Token :=
  b.opening :: (b.inside ++ b.closing :: outside)

/-- Those from its first item on. -/
def behindComments (b : Block) (outside : List Token) : List Token :=
  b.inside.dropWhile Token.isComment ++ b.closing :: outside

theorem not_isPlain_opening (b : Block) : isPlain false b.opening = false := by
  simp [isPlain, isBracket, b.opens]

theorem isComment_closing (b : Block) : b.closing.isComment = false := by
  have hclosing := b.ends
  simp only [isClosing, Token.is, Bool.and_eq_true, beq_iff_eq] at hclosing
  simp [Token.isComment, hclosing.1]

theorem dropWhile_isComment (b : Block) (outside : List Token) :
    (b.inside ++ b.closing :: outside).dropWhile Token.isComment = b.behindComments outside := by
  rw [behindComments, List.dropWhile_append]
  split
  · rename_i hempty
    rw [List.isEmpty_iff.1 hempty, List.dropWhile_cons_of_neg (by simp [b.isComment_closing])]
    rfl
  · rfl

end Block

theorem isPlain_false_iff {t : Token} :
    isPlain false t = true ↔
      isOpening t = false ∧ isClosing t = false ∧ isSemicolon t = false := by
  simp [isPlain, isBracket, and_assoc]

section Skipping

variable {depth : Nat} {closing : Token} {inside outside tokens : List Token}

/-- Recovery inside of an open block ends behind it. -/
theorem resumption_of_closes (hc : isClosing closing = true) (h : closes depth inside = true) :
    resumption (depth + 1) (inside ++ closing :: outside) = outside := by
  induction inside generalizing depth with
  | nil =>
    obtain rfl : depth = 0 := by simpa [closes] using h
    simp [resumption, hc, isOpening_eq_false hc]
  | cons t inside ih =>
    rw [List.cons_append]
    rcases closes_cons_cases h with ⟨ho, h⟩ | ⟨below, rfl, ht, h⟩ | ⟨hb, h⟩
    · simp only [resumption, ho, if_true]
      exact ih h
    · simp only [resumption, ht, isOpening_eq_false ht, Bool.false_eq_true, if_false, if_true]
      exact ih h
    · obtain ⟨ho, hcl⟩ := Bool.or_eq_false_iff.1 hb
      simp [resumption, ho, hcl, ih h]

/-- Where no block is known to be open, recovery never goes beyond the end of the body. -/
theorem resumption_append (hc : isClosing closing = true) (h : closes depth inside = true) :
    resumption depth (inside ++ closing :: outside) =
      resumption depth inside ++ closing :: outside := by
  induction inside generalizing depth with
  | nil =>
    obtain rfl : depth = 0 := by simpa [closes] using h
    simp [resumption, hc, isOpening_eq_false hc]
  | cons t inside ih =>
    rw [List.cons_append]
    rcases closes_cons_cases h with ⟨ho, h⟩ | ⟨below, rfl, ht, h⟩ | ⟨hb, h⟩
    · simp only [resumption, ho, if_true]
      exact ih h
    · simp only [resumption, ht, isOpening_eq_false ht, Bool.false_eq_true, if_false, if_true]
      cases below with
      | zero => rfl
      | succ below => exact ih h
    · obtain ⟨ho, hcl⟩ := Bool.or_eq_false_iff.1 hb
      simp only [resumption, ho, hcl, Bool.false_eq_true, if_false]
      split
      · rfl
      · exact ih h

/-- In front of a block, recovery ends behind it. -/
theorem resumption_of_before_block (b : Block) (h : Before (b.andThen outside) tokens) :
    resumption 0 tokens = outside := by
  obtain ⟨front, hfront, rfl⟩ := h
  induction front with
  | nil =>
    rw [List.nil_append, Block.andThen]
    simp only [resumption, b.opens, if_true]
    exact resumption_of_closes b.ends b.balanced
  | cons t front ih =>
    obtain ⟨ho, hc, hs⟩ := isPlain_false_iff.1 (hfront t List.mem_cons_self)
    simp only [List.cons_append, resumption, ho, hc, hs, Bool.false_and, Bool.false_eq_true,
      if_false]
    exact ih fun t' ht' => hfront t' (List.mem_cons_of_mem t ht')

theorem closes_dropWhile_isComment (h : closes depth inside = true) :
    closes depth (inside.dropWhile Token.isComment) = true := by
  induction inside with
  | nil => exact h
  | cons t inside ih =>
    rw [List.dropWhile_cons]
    split
    · rename_i hcomment
      obtain ⟨ho, hc, _⟩ := isPlain_false_iff.1 (State.isPlain_of_isComment hcomment)
      rw [closes_cons_of_other (by simp [isBracket, ho, hc])] at h
      exact ih h
    · exact h

/-- Behind the opening bracket of a block, recovery ends inside of it. -/
theorem resumption_behindComments (b : Block) :
    resumption 0 (b.behindComments outside) =
      resumption 0 (b.inside.dropWhile Token.isComment) ++ b.closing :: outside :=
  resumption_append b.ends (closes_dropWhile_isComment b.balanced)

end Skipping

section Shuns

/-- In front of a block a parser fails in front of it, if it fails, or else, if it `enters` the
block, behind its opening bracket. -/
def Shuns {α : Type} (enters : Bool) (p : Parser α) : Prop :=
  ∀ (s : State) (b : Block) outside, Before (b.andThen outside) s.cursor.rest →
    After p s (fun _ _ => True) fun s' =>
      Before (b.andThen outside) s'.cursor.rest ∨
        (enters = true ∧ s'.cursor.rest = b.behindComments outside)

variable {α β : Type} {least : Nat} {enters : Bool} {s s' : State} {outside : List Token}
  {p : Parser α} {f : α → Parser β}

theorem State.Takes.beforeBlock (h : s.Takes least false s') (b : Block)
    (hs : Before (b.andThen outside) s.cursor.rest) :
    Before (b.andThen outside) s'.cursor.rest := by
  obtain ⟨taken, heq, _, hplain⟩ := h
  rw [heq] at hs
  exact hs.of_append b.not_isPlain_opening hplain

theorem Takes.bind_shuns (hp : Takes least false p) (hf : ∀ a, Shuns enters (f a)) :
    Shuns enters (p >>= f) := by
  intro s b outside hs
  apply After.bind
  exact After.mono (hp s) (fun a s' h => hf a s' b outside (h.beforeBlock b hs))
    fun _ h => .inl (h.beforeBlock b hs)

theorem Shuns.bind_still (hp : Shuns enters p) (hf : ∀ a, Still (f a)) :
    Shuns enters (p >>= f) := by
  intro s b outside hs
  apply After.bind
  refine After.mono (hp s b outside hs) (fun a s' _ => ?_) fun _ h => h
  exact After.mono (hf a s') (fun _ _ _ => trivial) fun _ h => h.elim

theorem Shuns.map {g : α → β} (hp : Shuns enters p) : Shuns enters (g <$> p) :=
  hp.bind_still fun _ => still_pure _

theorem shuns_ifAt {kind : Token.Kind} {text : String} {then_ : PUnit → Parser α}
    {else_ : Parser α} (hk : kind ≠ .bracket ∧ kind ≠ .delimiter)
    (ht : Shuns enters (then_ ⟨⟩)) (he : Shuns enters else_) :
    Shuns enters (isAt kind text >>= fun found =>
      if found = true then advance >>= then_ else else_) := by
  intro s b outside hs
  simp only [isAt, bind_assoc, pure_bind]
  apply After.bind
  apply after_get
  split
  · rename_i hc
    obtain ⟨t, hcurrent, hat⟩ := (Option.any_eq_true _ _).1 hc
    apply After.bind
    apply after_modify
    exact ht s.advance b outside
      ((State.takes_advance hcurrent (isPlain_of_is hk hat)).beforeBlock b hs)
  · exact he s b outside hs

/-- In front of a block its opening bracket is taken, or nothing is. -/
theorem after_openBody_before (statement : String) (b : Block)
    (hs : Before (b.andThen outside) s.cursor.rest) :
    After (openBody statement) s
      (fun _ s' => s'.cursor.rest = b.inside ++ b.closing :: outside)
      fun s' => Before (b.andThen outside) s'.cursor.rest := by
  apply After.bind
  refine After.mono (after_demand _ _ _ s) (fun t s' ⟨heq, hcurrent, ht⟩ => ?_) fun s' h => ?_
  · cases heq
    apply after_modify
    obtain ⟨front, hfront, hrest⟩ := hs
    have hhead : (front ++ b.andThen outside).head? = some t := hrest ▸ hcurrent
    cases front with
    | nil => simp [State.shift, Cursor.shift, hrest, Block.andThen]
    | cons first front =>
      cases hhead
      rw [(isPlain_false_iff.1 (hfront t List.mem_cons_self)).1] at ht
      cases ht
  · rw [h]
    exact hs

/-- Nothing can fail in a body whose items stay in it. -/
theorem shuns_body {statement : String} {item : Item} (hi : ItemStays item) :
    Shuns false (body statement item) := by
  intro s b outside hs
  apply After.bind
  refine After.mono (after_openBody_before statement b hs) (fun _ s' h => ?_) fun _ h => .inl h
  exact After.mono (leaves_items hi s' b.closing outside b.ends ⟨b.inside, b.balanced, h⟩)
    (fun _ _ _ => trivial) fun _ h => h.elim

/-- A body that has to be empty fails behind its opening bracket if it is not. -/
theorem shuns_emptyBody (statement : String) : Shuns true (emptyBody statement) := by
  intro s b outside hs
  apply After.bind
  refine After.mono (after_openBody_before statement b hs) (fun _ s' h => ?_) fun _ h => .inl h
  apply After.bind
  apply after_modifyGet
  apply After.bind
  have hskip : s'.leadingComment.2.cursor.rest = b.behindComments outside := by
    change s'.cursor.rest.dropWhile Token.isComment = _
    rw [h, b.dropWhile_isComment]
  refine After.mono (after_demand _ _ _ _) (fun _ _ _ => after_modify trivial) fun s'' h' => ?_
  exact .inr ⟨rfl, by rw [h', hskip]⟩

end Shuns

end Idl.Grammar
