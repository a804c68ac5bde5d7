import Mathlib.Data.List.TakeWhile
import Idl.Proofs.Reading.Body

/-!
Brackets and semicolons. What stands between the brackets of a body is balanced, whatever else is
wrong with it. Most parsers take no bracket at all, and a semicolon only as the last token before
they succeed. So the reading stays inside of a body until it comes to its closing bracket, and an
item that fails leaves its semicolon to the recovery.
-/

namespace Idl.Grammar

section Balance

variable {t c : Token} {tokens outside R : List Token} {depth : Nat}

def isBracket (t : Token) : Bool :=
  isOpening t || isClosing t

/-- Whether the tokens close `depth` open blocks and all blocks that they open, and no others. -/
def closes : Nat → List Token → Bool
  | depth, [] => depth == 0
  | depth, t :: rest =>
    if isOpening t then closes (depth + 1) rest
    else if isClosing t then
      match depth with
      | 0 => false
      | depth + 1 => closes depth rest
    else closes depth rest

/-- The tokens go on inside of a body, behind which stand those `outside`. -/
def Enclosed (outside tokens : List Token) : Prop :=
  ∃ inside, closes 0 inside = true ∧ tokens = inside ++ outside

theorem isOpening_eq_false (h : isClosing t = true) : isOpening t = false := by
  simp only [isClosing, isOpening, Token.is, Bool.and_eq_true, beq_iff_eq] at h ⊢
  simp [h.1, h.2]

theorem isSemicolon_eq_false (h : isBracket t = true) : isSemicolon t = false := by
  simp only [isBracket, isClosing, isOpening, isSemicolon, Token.is, Bool.or_eq_true,
    Bool.and_eq_true, beq_iff_eq] at h ⊢
  rcases h with h | h <;> simp [h.1]

theorem closes_cons_of_opening (h : isOpening t = true) :
    closes depth (t :: tokens) = closes (depth + 1) tokens := by
  simp [closes, h]

theorem closes_cons_of_closing (h : isClosing t = true) :
    closes (depth + 1) (t :: tokens) = closes depth tokens := by
  simp [closes, h, isOpening_eq_false h]

theorem closes_zero_cons_of_closing (h : isClosing t = true) :
    closes 0 (t :: tokens) = false := by
  simp [closes, h, isOpening_eq_false h]

theorem closes_cons_of_other (h : isBracket t = false) :
    closes depth (t :: tokens) = closes depth tokens := by
  simp only [isBracket, Bool.or_eq_false_iff] at h
  simp [closes, h.1, h.2]

/-- The cases of a token among balanced ones. -/
theorem closes_cons_cases (h : closes depth (t :: tokens) = true) :
    (isOpening t = true ∧ closes (depth + 1) tokens = true) ∨
      (∃ below, depth = below + 1 ∧ isClosing t = true ∧ closes below tokens = true) ∨
        (isBracket t = false ∧ closes depth tokens = true) := by
  by_cases ho : isOpening t = true
  · exact .inl ⟨ho, by rwa [closes_cons_of_opening ho] at h⟩
  by_cases hc : isClosing t = true
  · cases depth with
    | zero => rw [closes_zero_cons_of_closing hc] at h; cases h
    | succ below =>
      rw [closes_cons_of_closing hc] at h
      exact .inr (.inl ⟨below, rfl, hc, h⟩)
  · have hb : isBracket t = false := by simp [isBracket, ho, hc]
    exact .inr (.inr ⟨hb, by rwa [closes_cons_of_other hb] at h⟩)

theorem closes_append {inner : Nat} {front : List Token} (h : closes inner front = true) :
    closes (inner + depth) (front ++ tokens) = closes depth tokens := by
  induction front generalizing inner with
  | nil =>
    obtain rfl : inner = 0 := by simpa [closes] using h
    rw [Nat.zero_add, List.nil_append]
  | cons t front ih =>
    rw [List.cons_append]
    rcases closes_cons_cases h with ⟨ho, h⟩ | ⟨below, rfl, hc, h⟩ | ⟨hb, h⟩
    · rw [closes_cons_of_opening ho, Nat.add_right_comm, ih h]
    · rw [Nat.add_right_comm, closes_cons_of_closing hc, ih h]
    · rw [closes_cons_of_other hb, ih h]

/-- An open block has its closing bracket, and balanced tokens in front of it. -/
theorem exists_closing (h : closes (depth + 1) tokens = true) :
    ∃ inside c behind, tokens = inside ++ c :: behind ∧ closes 0 inside = true ∧
      isClosing c = true ∧ closes depth behind = true := by
  induction hn : tokens.length using Nat.strongRecOn generalizing depth tokens with
  | ind n ih =>
    cases tokens with
    | nil => simp [closes] at h
    | cons t tokens =>
      have hlt : tokens.length < n := by rw [← hn]; exact Nat.lt_succ_self _
      rcases closes_cons_cases h with ⟨ho, h⟩ | ⟨below, heq, hc, h⟩ | ⟨hb, h⟩
      · -- The block that starts here is closed before the one around it.
        obtain ⟨inside, c, behind, rfl, hin, hc, h⟩ := ih _ hlt h rfl
        have hshorter : behind.length < n := by
          rw [List.length_append, List.length_cons] at hlt
          omega
        obtain ⟨inside', c', behind', rfl, hin', hc', h⟩ := ih _ hshorter h rfl
        refine ⟨t :: inside ++ c :: inside', c', behind', by simp, ?_, hc', h⟩
        rw [List.cons_append, closes_cons_of_opening ho, Nat.add_comm, ← Nat.zero_add (1 + 0),
          closes_append hin, Nat.add_zero, closes_cons_of_closing hc]
        exact hin'
      · cases heq
        exact ⟨[], t, tokens, rfl, rfl, hc, h⟩
      · obtain ⟨inside, c, behind, rfl, hin, hc, h⟩ := ih _ hlt h rfl
        exact ⟨t :: inside, c, behind, rfl, by rwa [closes_cons_of_other hb], hc, h⟩

/-- What is no bracket can be taken from the front. -/
theorem Enclosed.of_append {front : List Token} (hc : isBracket c = true)
    (h : Enclosed (c :: R) (front ++ tokens)) (hf : ∀ t ∈ front, isBracket t = false) :
    Enclosed (c :: R) tokens := by
  induction front with
  | nil => exact h
  | cons t front ih =>
    have ht := hf t List.mem_cons_self
    refine ih ?_ fun t' ht' => hf t' (List.mem_cons_of_mem t ht')
    obtain ⟨inside, hin, heq⟩ := h
    cases inside with
    | nil =>
      obtain rfl : t = c := (List.cons.inj heq).1
      rw [hc] at ht
      cases ht
    | cons t' inside =>
      obtain ⟨rfl, htail⟩ := List.cons.inj heq
      exact ⟨inside, by rwa [closes_cons_of_other ht] at hin, htail⟩

/-- Recovery stays inside of a body. -/
theorem enclosed_resumption {inside : List Token} (hc : isClosing c = true)
    (h : closes depth inside = true) :
    Enclosed (c :: R) (resumption depth (inside ++ c :: R)) := by
  induction inside generalizing depth with
  | nil =>
    obtain rfl : depth = 0 := by simpa [closes] using h
    have hstop : resumption 0 (c :: R) = c :: R := by
      simp [resumption, hc, isOpening_eq_false hc]
    exact ⟨[], rfl, hstop⟩
  | cons t inside ih =>
    rw [List.cons_append]
    rcases closes_cons_cases h with ⟨ho, h⟩ | ⟨below, rfl, ht, h⟩ | ⟨hb, h⟩
    · simp only [resumption, ho, if_true]
      exact ih h
    · simp only [resumption, ht, isOpening_eq_false ht, Bool.false_eq_true, if_false, if_true]
      cases below with
      | zero => exact ⟨inside, h, rfl⟩
      | succ below => exact ih h
    · obtain ⟨ho, hcl⟩ := Bool.or_eq_false_iff.1 hb
      simp only [resumption, ho, hcl, Bool.false_eq_true, if_false]
      split
      · rename_i hs
        obtain ⟨_, hzero⟩ := Bool.and_eq_true_iff.1 hs
        rw [beq_iff_eq.1 hzero] at h
        exact ⟨inside, h, rfl⟩
      · exact ih h

end Balance

section Taken

/-- No bracket, and no semicolon but at the end of a statement. -/
def isPlain (ending : Bool) (t : Token) : Bool :=
  !isBracket t && (ending || !isSemicolon t)

/-- At least so many tokens have been taken since, all of them plain. -/
def State.Takes (least : Nat) (ending : Bool) (s s' : State) : Prop :=
  ∃ taken, s.cursor.rest = taken ++ s'.cursor.rest ∧ least ≤ taken.length ∧
    ∀ t ∈ taken, isPlain ending t = true

/-- From a state a parser takes plain tokens: at least so many of them if it succeeds, and before
it fails not even a semicolon. -/
def TakesAt {α : Type} (least : Nat) (ending : Bool) (p : Parser α) (s : State) : Prop :=
  After p s (fun _ s' => s.Takes least ending s') (s.Takes 0 false)

/-- A parser that takes plain tokens wherever it is used. -/
def Takes {α : Type} (least : Nat) (ending : Bool) (p : Parser α) : Prop :=
  ∀ s, TakesAt least ending p s

/-- A parser that cannot fail and takes nothing. -/
def Still {α : Type} (p : Parser α) : Prop :=
  ∀ s, After p s (fun _ s' => s'.cursor = s.cursor) fun _ => False

variable {α β : Type} {least more : Nat} {ending : Bool} {s s' s'' : State} {t : Token}
  {p : Parser α} {f : α → Parser β}

namespace State

theorem takes_of_cursor (h : s'.cursor = s.cursor) : s.Takes 0 ending s' :=
  ⟨[], by rw [h]; rfl, Nat.le_refl _, fun _ h => absurd h List.not_mem_nil⟩

theorem Takes.trans (h : s.Takes least ending s') (h' : s'.Takes more ending s'') :
    s.Takes (least + more) ending s'' := by
  obtain ⟨front, heq, hl, hf⟩ := h
  obtain ⟨back, heq', hl', hb⟩ := h'
  refine ⟨front ++ back, by rw [heq, heq', List.append_assoc], ?_, fun t ht => ?_⟩
  · rw [List.length_append]
    exact Nat.add_le_add hl hl'
  · rcases List.mem_append.1 ht with ht | ht
    · exact hf t ht
    · exact hb t ht

theorem Takes.weaken (h : s.Takes least false s') : s.Takes least ending s' := by
  obtain ⟨taken, heq, hl, ht⟩ := h
  refine ⟨taken, heq, hl, fun t hm => ?_⟩
  have hplain := ht t hm
  simp only [isPlain, Bool.false_or, Bool.and_eq_true, Bool.or_eq_true] at hplain ⊢
  exact ⟨hplain.1, .inr hplain.2⟩

theorem Takes.some (h : s.Takes least ending s') : s.Takes 0 ending s' := by
  obtain ⟨taken, heq, _, ht⟩ := h
  exact ⟨taken, heq, Nat.zero_le _, ht⟩

theorem Takes.rest (h : s.Takes least ending s') : s'.cursor.rest <:+ s.cursor.rest := by
  obtain ⟨taken, heq, _⟩ := h
  exact ⟨taken, heq.symm⟩

theorem Takes.remaining_le (h : s.Takes least ending s') :
    s'.remaining + least ≤ s.remaining := by
  obtain ⟨taken, heq, hl, _⟩ := h
  rw [remaining, remaining, heq, List.length_append]
  omega

theorem takes_shift (hc : s.current = some t) (ht : isPlain ending t = true) :
    s.Takes 1 ending s.shift := by
  obtain ⟨rest, hrest⟩ := List.head?_eq_some_iff.1 hc
  refine ⟨[t], ?_, Nat.le_refl _, by simpa using ht⟩
  simp [shift, Cursor.shift, hrest]

theorem isPlain_of_isComment (h : t.isComment = true) : isPlain false t = true := by
  have hk : t.kind = .comment := by simpa [Token.isComment] using h
  simp [isPlain, isBracket, isOpening, isClosing, isSemicolon, Token.is, hk]

theorem takes_skipComments (s : State) : s.Takes 0 false s.skipComments := by
  refine ⟨s.cursor.rest.takeWhile Token.isComment, ?_, Nat.zero_le _, fun t ht => ?_⟩
  · exact List.takeWhile_append_dropWhile.symm
  · exact isPlain_of_isComment (List.mem_takeWhile_imp ht)

theorem takes_advance (hc : s.current = some t) (ht : isPlain false t = true) :
    s.Takes 1 false s.advance :=
  (takes_shift hc ht).trans (takes_skipComments _)

end State

theorem isPlain_of_kind (h : t.kind ≠ .bracket) (h' : t.kind ≠ .delimiter) :
    isPlain false t = true := by
  simp [isPlain, isBracket, isOpening, isClosing, isSemicolon, Token.is, h, h']

theorem Takes.some (h : Takes least ending p) : Takes 0 ending p :=
  fun s => After.mono (h s) (fun _ _ h => h.some) fun _ h => h

theorem Takes.bind (hp : Takes least false p) (hf : ∀ a, Takes more ending (f a)) :
    Takes (least + more) ending (p >>= f) := by
  intro s
  apply After.bind
  refine After.mono (hp s) (fun a s' h => ?_) fun _ h => h
  exact After.mono (hf a s') (fun _ _ h' => h.weaken.trans h') fun _ h' => h.some.trans h'

theorem Takes.bind_left (hp : Takes least false p) (hf : ∀ a, Takes 0 ending (f a)) :
    Takes least ending (p >>= f) :=
  hp.bind hf

theorem Takes.bind_still (hp : Takes least ending p) (hf : ∀ a, Still (f a)) :
    Takes least ending (p >>= f) := by
  intro s
  apply After.bind
  refine After.mono (hp s) (fun a s' h => ?_) fun _ h => h
  exact After.mono (hf a s') (fun _ _ h' => h.trans (State.takes_of_cursor h')) fun _ h' => h'.elim

theorem takes_get {f : State → Parser β} (h : ∀ s, Takes least ending (f s)) :
    Takes least ending (get >>= f) :=
  fun s => h s s

theorem Still.takes (h : Still p) : Takes 0 ending p :=
  fun s => After.mono (h s) (fun _ _ h => State.takes_of_cursor h) fun _ h => h.elim

theorem Still.bind (hp : Still p) (hf : ∀ a, Still (f a)) : Still (p >>= f) := by
  intro s
  apply After.bind
  refine After.mono (hp s) (fun a s' h => ?_) fun _ h => h
  exact After.mono (hf a s') (fun _ _ h' => h'.trans h) fun _ h' => h'

theorem still_pure (a : α) : Still (pure a : Parser α) :=
  fun _ => rfl

theorem still_get : Still get :=
  fun _ => rfl

theorem still_modify {g : State → State} (h : ∀ s, (g s).cursor = s.cursor) :
    Still (modify g) :=
  h

theorem still_modifyGet {g : State → α × State} (h : ∀ s, (g s).2.cursor = s.cursor) :
    Still (modifyGet g) :=
  h

theorem still_modifyDocument (f : Document → Document) : Still (modifyDocument f) :=
  still_modify fun _ => rfl

theorem still_await (name : Option TypeName) (classifier : String)
    (scope : Option StructureId) (slot : Slot) : Still (await name classifier scope slot) := by
  cases name with
  | none => exact still_pure _
  | some name => exact still_modify fun _ => rfl

/-- What always fails takes as many tokens as one likes if it succeeds. -/
theorem takes_fail (m : Message) : Takes least ending (fail m : Parser α) :=
  fun s => State.takes_of_cursor (s := s) rfl

theorem takes_failHere (kind : Message.Kind) (params : List (Message.Param × String)) :
    Takes least ending (failHere kind params : Parser α) :=
  takes_get fun _ => takes_fail _

theorem takes_failAt (t : Token) (kind : Message.Kind)
    (params : List (Message.Param × String)) :
    Takes least ending (failAt t kind params : Parser α) :=
  takes_get fun _ => takes_fail _

theorem takes_unexpected (statement : String) :
    Takes least ending (unexpected statement : Parser α) := by
  refine takes_get fun s => ?_
  split
  · exact takes_failAt _ _ _
  · exact takes_failHere _ _

/-- The token that was demanded is the current one. -/
theorem after_demand (accept : Token → Bool) (kind : Message.Kind)
    (params : List (Message.Param × String)) (s : State) :
    After (demand accept kind params) s
      (fun t s' => s' = s ∧ s.current = some t ∧ accept t = true)
      fun s' => s'.cursor = s.cursor := by
  apply After.bind
  apply after_get
  split
  · rename_i t ht
    exact ⟨rfl, Option.filter_eq_some_iff.1 ht⟩
  · rfl

theorem takes_expect {accept : Token → Bool} (h : ∀ t, accept t = true → isPlain false t = true)
    (kind : Message.Kind) (params : List (Message.Param × String)) :
    Takes 1 false (expect accept kind params) := by
  intro s
  apply After.bind
  refine After.mono (after_demand accept kind params s) (fun t s' ⟨hs, hc, ha⟩ => ?_)
    fun _ h => State.takes_of_cursor h
  cases hs
  exact State.takes_advance hc (h t ha)

theorem takes_expectIdentifier (kind : Message.Kind)
    (params : List (Message.Param × String)) :
    Takes 1 false (expect (·.kind == .identifier) kind params) := by
  refine takes_expect (fun t h => ?_) kind params
  have hk := beq_iff_eq.1 h
  exact isPlain_of_kind (by rw [hk]; exact nofun) (by rw [hk]; exact nofun)

/-- A token of another kind than brackets and delimiters. -/
theorem isPlain_of_is {kind : Token.Kind} {text : String}
    (hk : kind ≠ .bracket ∧ kind ≠ .delimiter) (h : t.is kind text = true) :
    isPlain false t = true := by
  obtain ⟨h, _⟩ := Bool.and_eq_true_iff.1 h
  exact isPlain_of_kind (beq_iff_eq.1 h ▸ hk.1) (beq_iff_eq.1 h ▸ hk.2)

theorem takes_expectKeyword (keyword : String) : Takes 1 false (expectKeyword keyword) :=
  takes_expect (fun _ => isPlain_of_is (by simp)) _ _

theorem takes_expectToken {kind : Token.Kind} (hk : kind ≠ .bracket ∧ kind ≠ .delimiter)
    (text : String) : Takes 1 false (expectToken kind text) :=
  takes_expect (fun _ => isPlain_of_is hk) _ _

theorem takes_expectName (statement : String) : Takes 1 false (expectName statement) :=
  (takes_expectIdentifier _ _).bind_still fun _ => still_get.bind fun _ => still_pure _

theorem takes_expectSemicolon : Takes 1 true expectSemicolon := by
  intro s
  apply After.bind
  refine After.mono (after_demand _ _ _ s) (fun t s' ⟨hs, hc, ha⟩ => ?_)
    fun _ h => State.takes_of_cursor h
  cases hs
  refine State.takes_shift hc ?_
  have hb : isBracket t = false :=
    Bool.eq_false_iff.2 fun h => by rw [isSemicolon_eq_false h] at ha; cases ha
  simp [isPlain, hb]

/-- A plain token is taken. -/
theorem takesAt_advance_bind {f : PUnit → Parser β} (hc : s.current = some t)
    (ht : isPlain false t = true) (hf : Takes least ending (f ⟨⟩)) :
    TakesAt (least + 1) ending (advance >>= f) s := by
  have hadvance := State.takes_advance hc ht
  rw [Nat.add_comm]
  apply After.bind
  apply after_modify
  exact After.mono (hf s.advance) (fun _ _ h => hadvance.weaken.trans h)
    fun _ h => hadvance.some.trans h

theorem TakesAt.mono (h : TakesAt more ending p s) (hle : least ≤ more) :
    TakesAt least ending p s :=
  After.mono h (fun _ _ ⟨taken, heq, hl, ht⟩ => ⟨taken, heq, hle.trans hl, ht⟩) fun _ h => h

/-- A token is taken when it is there, and not otherwise. -/
theorem takes_ifAt {kind : Token.Kind} {text : String} {then_ : PUnit → Parser α}
    {else_ : Parser α} (hk : kind ≠ .bracket ∧ kind ≠ .delimiter)
    (ht : Takes least ending (then_ ⟨⟩)) (he : Takes least ending else_) :
    Takes least ending (isAt kind text >>= fun found =>
      if found = true then advance >>= then_ else else_) := by
  intro s
  simp only [isAt, bind_assoc, pure_bind]
  apply After.bind
  apply after_get
  split
  · rename_i hc
    obtain ⟨t, hcurrent, hat⟩ := (Option.any_eq_true _ _).1 hc
    exact (takesAt_advance_bind hcurrent (isPlain_of_is hk hat) ht).mono (Nat.le_succ _)
  · exact he s

theorem takes_iterate {round : α → Parser (Round α β)} (h : ∀ a, Takes least false (round a))
    (a : α) : Takes least false (iterate round a) := by
  intro s
  refine after_iterate (I := fun _ s' => s.Takes 0 false s') (fun a s' hs => ?_)
    (State.takes_of_cursor rfl)
  refine After.mono (h a s') (fun r s'' h' => ?_) fun _ h' => hs.trans h'
  have htrans := hs.trans h'
  rw [Nat.zero_add] at htrans
  cases r with
  | again a' => exact ⟨htrans.some, .inr htrans.some⟩
  | done b => exact htrans

end Taken

end Idl.Grammar
