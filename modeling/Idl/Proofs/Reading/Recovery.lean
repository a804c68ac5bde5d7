import Idl.Proofs.Reading.Bracket

/-!
Recovery inside of a body. A parser stays in a body if it goes on inside of it wherever it ends;
a body whose items stay in it is read up to its closing bracket. A parser spares the semicolon of
an item if it fails in front of it; the recovery then goes on right behind that semicolon.
-/

namespace Idl.Grammar

variable {α β : Type} {least more : Nat} {ending : Bool} {s s' : State} {c t : Token}
  {R : List Token} {p : Parser α} {f : α → Parser β}

theorem isBracket_of_isClosing (h : isClosing c = true) : isBracket c = true := by
  simp [isBracket, h]

theorem State.Takes.enclosed (h : s.Takes least ending s') (hc : isClosing c = true)
    (hs : Enclosed (c :: R) s.cursor.rest) : Enclosed (c :: R) s'.cursor.rest := by
  obtain ⟨taken, heq, _, ht⟩ := h
  rw [heq] at hs
  refine hs.of_append (isBracket_of_isClosing hc) fun t hm => ?_
  have hplain := ht t hm
  simp only [isPlain, Bool.and_eq_true, Bool.not_eq_true'] at hplain
  exact hplain.1

section Stays

/-- From a state inside of a body a parser goes on inside of it whether it succeeds or fails, and
takes at least so many tokens if it succeeds. -/
def StaysAt (least : Nat) (p : Parser α) (s : State) : Prop :=
  ∀ c R, isClosing c = true → Enclosed (c :: R) s.cursor.rest →
    After p s
      (fun _ s' => Enclosed (c :: R) s'.cursor.rest ∧ s'.cursor.rest <:+ s.cursor.rest ∧
        s'.remaining + least ≤ s.remaining)
      fun s' => Enclosed (c :: R) s'.cursor.rest ∧ s'.cursor.rest <:+ s.cursor.rest

/-- A parser that stays inside of a body wherever it is used. -/
def Stays (least : Nat) (p : Parser α) : Prop :=
  ∀ s, StaysAt least p s

/-- A parser that reads up to the closing bracket of the body that it stands in, and takes it. -/
def Leaves (p : Parser α) : Prop :=
  ∀ (s : State) c R, isClosing c = true → Enclosed (c :: R) s.cursor.rest →
    After p s (fun _ s' => s'.cursor.rest = R) fun _ => False

/-- An item that stays in its body and takes at least one token. -/
def ItemStays (item : Item) : Prop :=
  ∀ comment first (s : State) c R, isClosing c = true → Enclosed (c :: R) s.cursor.rest →
    s.current = some first → isClosing first = false →
    Enclosed (c :: R) (item comment first s).cursor.rest ∧
      (item comment first s).remaining < s.remaining

theorem TakesAt.staysAt (h : TakesAt least ending p s) : StaysAt least p s :=
  fun _ _ hc hs => After.mono h
    (fun _ _ h => ⟨h.enclosed hc hs, h.rest, h.remaining_le⟩)
    fun _ h => ⟨h.enclosed hc hs, h.rest⟩

theorem Takes.stays (h : Takes least ending p) : Stays least p :=
  fun s => (h s).staysAt

theorem Still.stays (h : Still p) : Stays 0 p :=
  (h.takes : Takes 0 false p).stays

theorem Stays.bind (hp : Stays least p) (hf : ∀ a, Stays more (f a)) :
    Stays (least + more) (p >>= f) := by
  intro s c R hc hs
  apply After.bind
  refine After.mono (hp s c R hc hs) (fun a s' ⟨h, hr, hl⟩ => ?_) fun _ h => h
  exact After.mono (hf a s' c R hc h) (fun _ _ ⟨h', hr', hl'⟩ => ⟨h', hr'.trans hr, by omega⟩)
    fun _ ⟨h', hr'⟩ => ⟨h', hr'.trans hr⟩

theorem Stays.bind_left (hp : Stays least p) (hf : ∀ a, Stays 0 (f a)) :
    Stays least (p >>= f) :=
  hp.bind hf

theorem Takes.bind_stays (hp : Takes 0 false p) (hf : ∀ a, Stays least (f a)) :
    Stays least (p >>= f) := by
  have h := hp.stays.bind hf
  rwa [Nat.zero_add] at h

theorem stays_get {f : State → Parser β} (h : ∀ s, Stays least (f s)) :
    Stays least (get >>= f) :=
  fun s => h s s

/-- The reading of a body ends behind its closing bracket. -/
theorem leaves_items {statement : String} {item : Item} (hi : ItemStays item) :
    Leaves (items statement item) := by
  intro s c R hc hs
  refine after_iterate (I := fun _ s' => Enclosed (c :: R) s'.cursor.rest) (fun _ s' h => ?_) hs
  have hskip : Enclosed (c :: R) s'.skipComments.cursor.rest :=
    (State.takes_skipComments s').enclosed hc h
  have hless : s'.skipComments.remaining ≤ s'.remaining :=
    s'.cursor.skipComments_rest_length_le
  unfold bodyRound
  apply After.bind
  apply after_modifyGet
  apply After.bind
  apply after_get
  obtain ⟨inside, hin, hrest⟩ := hskip
  -- There is a current token, since the closing bracket of the body is still ahead.
  have hcurrent : s'.skipComments.current = (inside ++ c :: R).head? := congrArg List.head? hrest
  cases inside with
  | nil =>
    simp only [State.leadingComment, hcurrent, List.nil_append, List.head?_cons, hc, if_true]
    apply After.bind
    apply after_modify
    change (State.shift _).cursor.rest = R
    rw [State.shift, Cursor.shift, State.cursor_misplaced, hrest]
    rfl
  | cons t inside =>
    rw [List.cons_append, List.head?_cons] at hcurrent
    have hclosing : isClosing t = false :=
      Bool.eq_false_iff.2 fun h => by rw [closes_zero_cons_of_closing h] at hin; cases hin
    have henclosed : Enclosed (c :: R) s'.skipComments.cursor.rest := ⟨_, hin, hrest⟩
    simp only [State.leadingComment, hcurrent, hclosing, Bool.false_eq_true, if_false]
    split
    · rename_i hsemicolon
      apply After.bind
      apply after_modify
      have hplain : isPlain true t = true := by
        have hb : isBracket t = false :=
          Bool.eq_false_iff.2 fun h => by
            rw [isSemicolon_eq_false h] at hsemicolon
            cases hsemicolon
        simp [isPlain, hb]
      have hmisplaced (comment : Option Comment) :
          s'.skipComments.Takes 1 true (s'.skipComments.misplaced comment).shift := by
        refine (State.takes_of_cursor (State.cursor_misplaced _ comment)).trans
          (State.takes_shift ?_ hplain)
        rw [State.current, State.cursor_misplaced]
        exact hcurrent
      refine ⟨(hmisplaced _).enclosed hc henclosed, .inl ?_⟩
      exact Nat.lt_of_lt_of_le (hmisplaced _).remaining_le hless
    · apply After.bind
      apply after_modify
      obtain ⟨hstays, hlt⟩ := hi (s'.commentOf? s'.cursor.rest) t s'.skipComments c R hc henclosed
        hcurrent hclosing
      exact ⟨hstays, .inl (Nat.lt_of_lt_of_le hlt hless)⟩

theorem Still.leaves_bind (hp : Still p) (hf : ∀ a, Leaves (f a)) : Leaves (p >>= f) := by
  intro s c R hc hs
  apply After.bind
  refine After.mono (hp s) (fun a s' h => ?_) fun _ h => h
  rw [← h] at hs
  exact hf a s' c R hc hs

/-- A body inside of a body. -/
theorem stays_openBody_bind {statement : String} {f : PUnit → Parser β}
    (hf : ∀ a, Leaves (f a)) : Stays 1 (openBody statement >>= f) := by
  intro s c R hc hs
  apply After.bind
  apply After.bind
  refine After.mono (after_demand _ _ _ s) (fun t s' ⟨heq, hcurrent, ht⟩ => ?_) fun s' h => ?_
  · cases heq
    apply after_modify
    obtain ⟨inside, hin, hrest⟩ := hs
    have hhead : (inside ++ c :: R).head? = some t := hrest ▸ hcurrent
    cases inside with
    | nil =>
      cases hhead
      rw [isOpening_eq_false hc] at ht
      cases ht
    | cons t' inside =>
      cases hhead
      rw [closes_cons_of_opening ht] at hin
      obtain ⟨inside, c', behind, rfl, hin, hc', hbehind⟩ := exists_closing hin
      have hshift : s.shift.cursor.rest = inside ++ c' :: (behind ++ c :: R) := by
        simp [State.shift, Cursor.shift, hrest]
      refine After.mono (hf _ s.shift c' _ hc' ⟨inside, hin, hshift⟩) (fun _ s' h => ?_)
        fun _ h => h.elim
      refine ⟨⟨behind, hbehind, h⟩, ?_, ?_⟩
      · rw [h, hrest]
        exact ⟨t :: inside ++ [c'], by simp⟩
      · rw [State.remaining, State.remaining, h, hrest]
        simp only [List.length_append, List.length_cons]
        omega
  · rw [h]
    exact ⟨hs, List.suffix_rfl⟩

theorem stays_body {statement : String} {item : Item} (hi : ItemStays item) :
    Stays 1 (body statement item) :=
  stays_openBody_bind fun _ => leaves_items hi

/-- An item that is read by a parser that stays in the body, and skipped if that fails. -/
theorem stays_construct {read : Parser α} {accept : α → State → Bool × State} {first : Token}
    (hread : StaysAt 1 read s) (ha : ∀ a s', (accept a s').2.cursor = s'.cursor)
    (hc : isClosing c = true) (hs : Enclosed (c :: R) s.cursor.rest)
    (hfirst : s.current = some first) (hclosing : isClosing first = false) :
    Enclosed (c :: R) (s.construct read accept State.recover).cursor.rest ∧
      (s.construct read accept State.recover).remaining < s.remaining := by
  obtain ⟨rest, hrest⟩ := List.head?_eq_some_iff.1 hfirst
  have hstays := hread c R hc hs
  unfold State.construct
  cases hp : read s with
  | ok a s' =>
    obtain ⟨henclosed, _, hlt⟩ := hstays.of_ok hp
    have hcursor : (if (accept a s').1 = true then (accept a s').2
        else (accept a s').2.rollback s.mark).cursor = s'.cursor := by
      split
      · exact ha a s'
      · exact ha a s'
    simp only [State.remaining, hcursor]
    exact ⟨henclosed, hlt⟩
  | error e s' =>
    obtain ⟨⟨inside, hin, heq⟩, hsuffix⟩ := hstays.of_error hp
    refine ⟨?_, ?_⟩
    · change Enclosed (c :: R) (resumption 0 s'.cursor.rest)
      rw [heq]
      exact enclosed_resumption hc hin
    · rw [hrest] at hsuffix
      have hlt := length_resumption_lt_of_suffix hsuffix hclosing
      rwa [← hrest] at hlt

theorem stays_salvage {read : Parser Unit} {first : Token} (hread : StaysAt 1 read s)
    (hc : isClosing c = true) (hs : Enclosed (c :: R) s.cursor.rest)
    (hfirst : s.current = some first) (hclosing : isClosing first = false) :
    Enclosed (c :: R) (s.salvage read).cursor.rest ∧ (s.salvage read).remaining < s.remaining :=
  stays_construct hread (fun _ _ => rfl) hc hs hfirst hclosing

end Stays

section Spares

variable {tokens tail : List Token}

/-- Before `tail` there are only tokens that are neither brackets nor semicolons. -/
def Before (tail tokens : List Token) : Prop :=
  ∃ front, (∀ t ∈ front, isPlain false t = true) ∧ tokens = front ++ tail

/-- From a state in front of the semicolon of an item a parser fails in front of it, if it fails. -/
def SparesAt (p : Parser α) (s : State) : Prop :=
  ∀ semicolon R, isSemicolon semicolon = true → Before (semicolon :: R) s.cursor.rest →
    After p s (fun _ _ => True) fun s' => Before (semicolon :: R) s'.cursor.rest

/-- A parser that spares the semicolon wherever it is used. -/
def Spares (p : Parser α) : Prop :=
  ∀ s, SparesAt p s

theorem Before.of_append {front : List Token} (ht : isPlain false t = false)
    (h : Before (t :: tail) (front ++ tokens)) (hf : ∀ t ∈ front, isPlain false t = true) :
    Before (t :: tail) tokens := by
  induction front with
  | nil => exact h
  | cons t' front ih =>
    refine ih ?_ fun t hm => hf t (List.mem_cons_of_mem t' hm)
    obtain ⟨plain, hplain, heq⟩ := h
    cases plain with
    | nil =>
      obtain rfl : t' = t := (List.cons.inj heq).1
      rw [hf t' List.mem_cons_self] at ht
      cases ht
    | cons t'' plain =>
      obtain ⟨rfl, htail⟩ := List.cons.inj heq
      exact ⟨plain, fun t hm => hplain t (List.mem_cons_of_mem _ hm), htail⟩

theorem isPlain_of_isSemicolon (h : isSemicolon t = true) : isPlain false t = false := by
  simp [isPlain, h]

theorem State.Takes.before (h : s.Takes least false s') (ht : isSemicolon t = true)
    (hs : Before (t :: tail) s.cursor.rest) : Before (t :: tail) s'.cursor.rest := by
  obtain ⟨taken, heq, _, hplain⟩ := h
  rw [heq] at hs
  exact hs.of_append (isPlain_of_isSemicolon ht) hplain

theorem TakesAt.sparesAt (h : TakesAt least ending p s) : SparesAt p s :=
  fun _ _ ht hs => After.mono h (fun _ _ _ => trivial) fun _ h => h.before ht hs

theorem Takes.spares (h : Takes least ending p) : Spares p :=
  fun s => (h s).sparesAt

theorem Takes.bind_spares (hp : Takes least false p) (hf : ∀ a, Spares (f a)) :
    Spares (p >>= f) := by
  intro s t R ht hs
  apply After.bind
  exact After.mono (hp s) (fun a s' h => hf a s' t R ht (h.before ht hs))
    fun _ h => h.before ht hs

theorem spares_get {f : State → Parser β} (h : ∀ s, Spares (f s)) : Spares (get >>= f) :=
  fun s => h s s

/-- In front of the semicolon there is no body. -/
theorem spares_openBody_bind {statement : String} {f : PUnit → Parser β} :
    Spares (openBody statement >>= f) := by
  intro s t R ht hs
  apply After.bind
  apply After.bind
  refine After.mono (after_demand _ _ _ s) (fun t' s' ⟨_, hcurrent, hopening⟩ => ?_) fun s' h => ?_
  · obtain ⟨front, hfront, heq⟩ := hs
    have hhead : (front ++ t :: R).head? = some t' := heq ▸ hcurrent
    have hplain : isPlain false t' = false := by simp [isPlain, isBracket, hopening]
    cases front with
    | nil =>
      cases hhead
      have hbracket : isBracket t = true := by simp [isBracket, hopening]
      rw [isSemicolon_eq_false hbracket] at ht
      cases ht
    | cons first front =>
      cases hhead
      rw [hfront _ List.mem_cons_self] at hplain
      cases hplain
  · rw [h]
    exact hs

theorem Spares.bind_still (hp : Spares p) (hf : ∀ a, Still (f a)) : Spares (p >>= f) := by
  intro s t R ht hs
  apply After.bind
  refine After.mono (hp s t R ht hs) (fun a s' _ => ?_) fun _ h => h
  exact After.mono (hf a s') (fun _ _ _ => trivial) fun _ h => h.elim

/-- Recovery goes on behind the semicolon. -/
theorem resumption_of_before (ht : isSemicolon t = true) (h : Before (t :: tail) tokens) :
    resumption 0 tokens = tail := by
  obtain ⟨front, hfront, rfl⟩ := h
  induction front with
  | nil =>
    have hbracket : isBracket t = false :=
      Bool.eq_false_iff.2 fun h => by rw [isSemicolon_eq_false h] at ht; cases ht
    obtain ⟨ho, hc⟩ := Bool.or_eq_false_iff.1 hbracket
    simp [resumption, ho, hc, ht]
  | cons t' front ih =>
    have hplain := hfront t' List.mem_cons_self
    simp only [isPlain, isBracket, Bool.false_or, Bool.and_eq_true, Bool.not_eq_true',
      Bool.or_eq_false_iff] at hplain
    obtain ⟨⟨ho, hc⟩, hs⟩ := hplain
    simp only [List.cons_append, resumption, ho, hc, hs, Bool.false_and, Bool.false_eq_true,
      if_false]
    exact ih fun t hm => hfront t (List.mem_cons_of_mem t' hm)

end Spares

end Idl.Grammar
