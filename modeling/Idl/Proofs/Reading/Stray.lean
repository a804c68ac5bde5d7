import Idl.Proofs.Reading.Progress
import Idl.Proofs.Session.Twin

/-!
A semicolon that belongs to nothing. A source is read with it and without it, and the two readings
are compared: in front of the semicolon both are at the same token, and behind it the same tokens
are left. Only where the token in front of it has just been read, one of them is at the semicolon
and the other at what follows. The messages may point elsewhere, for the semicolon can be the end
of the source.
-/

namespace Idl.Grammar

/-- A token that a stray semicolon may follow: the end of a statement, or a bracket of a body. -/
def isBoundary (t : Token) : Bool :=
  isSemicolon t || isOpening t || isClosing t

/-- A stray semicolon between the token in front of it and the tokens behind it. -/
structure Stray where
  front : Token
  semicolon : Token
  rest : List Token
  boundary : isBoundary front = true
  stray : isSemicolon semicolon = true

section Tokens

variable {t : Token}

theorem isBoundary_of_semicolon (h : isSemicolon t = true) : isBoundary t = true := by
  rw [isBoundary, h]
  rfl

theorem isBoundary_of_kind (hd : t.kind ≠ .delimiter) (hb : t.kind ≠ .bracket) :
    isBoundary t = false := by
  simp [isBoundary, isSemicolon, isOpening, isClosing, Token.is, hd, hb]

theorem isBoundary_of_identifier (h : t.kind = .identifier) : isBoundary t = false :=
  isBoundary_of_kind (by simp [h]) (by simp [h])

theorem isBoundary_of_comment (h : t.isComment = true) : isBoundary t = false := by
  have hkind : t.kind = .comment := beq_iff_eq.1 h
  exact isBoundary_of_kind (by simp [hkind]) (by simp [hkind])

theorem isBoundary_comma (h : t.is .delimiter "," = true) : isBoundary t = false := by
  obtain ⟨hkind, htext⟩ := Bool.and_eq_true_iff.1 h
  simp [isBoundary, isSemicolon, isOpening, isClosing, Token.is, beq_iff_eq.1 hkind,
    beq_iff_eq.1 htext]

theorem isComment_of_boundary (h : isBoundary t = true) : t.isComment = false := by
  cases hc : t.isComment with
  | false => rfl
  | true => rw [isBoundary_of_comment hc] at h; cases h

theorem isOpening_of_semicolon (h : isSemicolon t = true) : isOpening t = false := by
  obtain ⟨hkind, _⟩ := Bool.and_eq_true_iff.1 h
  simp [isOpening, Token.is, beq_iff_eq.1 hkind]

theorem isClosing_of_semicolon (h : isSemicolon t = true) : isClosing t = false := by
  obtain ⟨hkind, _⟩ := Bool.and_eq_true_iff.1 h
  simp [isClosing, Token.is, beq_iff_eq.1 hkind]

end Tokens

/-- What is known of the point that a reading has come to: the token there is no boundary, or
the point is not right in front of the stray semicolon, or nothing. -/
inductive Edge where
  | inner
  | clear
  | any

/-- What two readings have left away from the stray semicolon, which only the second one has in
it. If there is no semicolon they have the same left. -/
inductive Apart (x : Option Stray) : List Token → List Token → Prop where
  | before {y : Stray} (hy : y ∈ x) (tokens : List Token) :
      Apart x (tokens ++ y.front :: y.rest) (tokens ++ y.front :: y.semicolon :: y.rest)
  | past (tokens : List Token) : Apart x tokens tokens

/-- What two readings have left at a point of which `edge` is known. -/
def Ahead (x : Option Stray) : Edge → List Token → List Token → Prop
  | .inner, l, l' => Apart x l l' ∧ ∀ t ∈ l.head?, isBoundary t = false
  | .clear, l, l' => Apart x l l'
  | .any, l, l' => Apart x l l' ∨ ∃ y ∈ x, l = y.rest ∧ l' = y.semicolon :: y.rest

namespace Apart

variable {x : Option Stray} {l l' : List Token}

theorem head? (h : Apart x l l') : l'.head? = l.head? := by
  cases h with
  | before hy tokens => cases tokens <;> rfl
  | past => rfl

/-- Behind its next token a reading can only come to the stray semicolon if the token is the one
in front of it. -/
theorem tail (h : Apart x l l') :
    Apart x l.tail l'.tail ∨ ∃ y ∈ x, l = y.front :: y.rest ∧ l'.tail = y.semicolon :: y.rest := by
  cases h with
  | @before y hy tokens =>
    cases tokens with
    | nil => exact .inr ⟨y, hy, rfl, rfl⟩
    | cons t tokens => exact .inl (.before hy tokens)
  | past => exact .inl (.past _)

theorem tail_any (h : Apart x l l') : Ahead x .any l.tail l'.tail := by
  rcases h.tail with hl | ⟨y, hy, rfl, hl⟩
  · exact .inl hl
  · exact .inr ⟨y, hy, rfl, hl⟩

theorem tail_clear (h : Apart x l l') (ht : ∀ t ∈ l.head?, isBoundary t = false) :
    Apart x l.tail l'.tail := by
  rcases h.tail with h | ⟨y, _, rfl, _⟩
  · exact h
  · have hfront := ht y.front rfl
    rw [y.boundary] at hfront
    cases hfront

/-- Who has no more left than there is behind the stray semicolon, is past it. -/
theorem eq_of_length {y : Stray} (h : Apart (some y) l l') (hle : l.length ≤ y.rest.length) :
    l' = l := by
  cases h with
  | past => rfl
  | @before z hz tokens =>
    cases hz
    simp only [List.length_append, List.length_cons] at hle
    omega

/-- Comments are skipped alike, for a boundary is none. -/
theorem comments (h : Apart x l l') :
    l'.takeWhile Token.isComment = l.takeWhile Token.isComment ∧
      Apart x (l.dropWhile Token.isComment) (l'.dropWhile Token.isComment) := by
  cases h with
  | @before y hy tokens =>
    have hfront := isComment_of_boundary y.boundary
    induction tokens with
    | nil =>
      simp only [List.nil_append, List.takeWhile_cons, List.dropWhile_cons, hfront]
      exact ⟨rfl, .before hy []⟩
    | cons t tokens ih =>
      simp only [List.cons_append, List.takeWhile_cons, List.dropWhile_cons]
      cases t.isComment with
      | true => exact ⟨congrArg (t :: ·) ih.1, ih.2⟩
      | false => exact ⟨rfl, .before hy (t :: tokens)⟩
  | past => exact ⟨rfl, .past _⟩

/-- Inside of a block a semicolon is skipped. -/
theorem resumption_semicolon {t : Token} (ht : isSemicolon t = true) (depth : Nat)
    (rest : List Token) : resumption (depth + 1) (t :: rest) = resumption (depth + 1) rest := by
  simp [resumption, isOpening_of_semicolon ht, isClosing_of_semicolon ht]

theorem resumption_boundary {y : Stray} (hy : y ∈ x) (depth : Nat) :
    Ahead x .any (resumption depth (y.front :: y.rest))
      (resumption depth (y.front :: y.semicolon :: y.rest)) := by
  have hskip := resumption_semicolon y.stray
  have hhere : Ahead x .any y.rest (y.semicolon :: y.rest) := .inr ⟨y, hy, rfl, rfl⟩
  generalize hr : y.semicolon :: y.rest = rest at hhere ⊢
  simp only [Grammar.resumption]
  split
  · rw [← hr, hskip]
    exact .inl (.past _)
  · split
    · rcases depth with _ | _ | depth
      · exact hr ▸ .inl (.before hy [])
      · exact hhere
      · simp only [← hr, hskip]
        exact .inl (.past _)
    · split
      · exact hhere
      · rename_i hopening hclosing hother
        have hsemicolon : isSemicolon y.front = true := by
          have hboundary := y.boundary
          simpa [isBoundary, hopening, hclosing] using hboundary
        cases depth with
        | zero => simp [hsemicolon] at hother
        | succ depth =>
          rw [← hr, hskip]
          exact .inl (.past _)

/-- A broken construct is skipped alike, unless it ends in front of the stray semicolon. -/
theorem resumption (h : Apart x l l') (depth : Nat) :
    Ahead x .any (resumption depth l) (resumption depth l') := by
  cases h with
  | past => exact .inl (.past _)
  | @before y hy tokens =>
    induction tokens generalizing depth with
    | nil => exact resumption_boundary hy depth
    | cons t tokens ih =>
      simp only [List.cons_append, Grammar.resumption]
      split
      · exact ih (depth + 1)
      · split
        · rcases depth with _ | _ | depth
          · exact .inl (.before hy (t :: tokens))
          · exact .inl (.before hy tokens)
          · exact ih (depth + 1)
        · split
          · exact .inl (.before hy tokens)
          · exact ih depth

end Apart

namespace Ahead

variable {x : Option Stray} {l l' : List Token} {edge : Edge}

theorem any (h : Ahead x edge l l') : Ahead x .any l l' := by
  cases edge with
  | inner => exact .inl h.1
  | clear => exact .inl h
  | any => exact h

theorem eq_of_none (h : Ahead none edge l l') : l' = l := by
  rcases h.any with h | ⟨_, hy, _⟩
  · cases h with
    | before hy => cases hy
    | past => rfl
  · cases hy

/-- Tokens that start nothing are skipped alike, among them the stray semicolon. -/
theorem dropWhile {skips : Token → Bool} (hs : ∀ t, isSemicolon t = true → skips t = true)
    (h : Ahead x .any l l') : Ahead x .any (l.dropWhile skips) (l'.dropWhile skips) := by
  have hskip (y : Stray) :
      (y.semicolon :: y.rest).dropWhile skips = y.rest.dropWhile skips := by
    rw [List.dropWhile_cons, if_pos (hs _ y.stray)]
  rcases h with h | ⟨y, hy, rfl, rfl⟩
  · cases h with
    | past => exact .inl (.past _)
    | @before y hy tokens =>
      induction tokens with
      | nil =>
        rw [List.nil_append, List.nil_append, List.dropWhile_cons, List.dropWhile_cons, hskip]
        split
        · exact .inl (.past _)
        · exact .inl (.before hy [])
      | cons t tokens ih =>
        simp only [List.cons_append, List.dropWhile_cons]
        split
        · exact ih
        · exact .inl (.before hy (t :: tokens))
  · rw [hskip]
    exact .inl (.past _)

/-- Closing brackets are skipped alike, unless some of them follow the stray semicolon. -/
theorem dropClosing (h : Ahead x .any l l') :
    Ahead x .any (l.dropWhile isClosing) (l'.dropWhile isClosing) ∨
      ∃ y ∈ x, (l.dropWhile isClosing).length < y.rest.length := by
  -- Right in front of the semicolon one reading skips what the other does not.
  have hhere {y : Stray} (hy : y ∈ x) :
      Ahead x .any (y.rest.dropWhile isClosing) ((y.semicolon :: y.rest).dropWhile isClosing) ∨
        ∃ z ∈ x, (y.rest.dropWhile isClosing).length < z.rest.length := by
    rw [List.dropWhile_cons, isClosing_of_semicolon y.stray]
    rcases Nat.lt_or_eq_of_le (List.dropWhile_sublist (l := y.rest) isClosing).length_le with
      hlt | heq
    · exact .inr ⟨y, hy, hlt⟩
    · rw [(List.dropWhile_suffix isClosing).eq_of_length heq]
      exact .inl (.inr ⟨y, hy, rfl, rfl⟩)
  rcases h with h | ⟨y, hy, rfl, rfl⟩
  · cases h with
    | past => exact .inl (.inl (.past _))
    | @before y hy tokens =>
      induction tokens with
      | nil =>
        simp only [List.nil_append]
        rw [List.dropWhile_cons, List.dropWhile_cons]
        split
        · exact hhere hy
        · exact .inl (.inl (.before hy []))
      | cons t tokens ih =>
        simp only [List.cons_append, List.dropWhile_cons]
        split
        · exact ih
        · exact .inl (.inl (.before hy (t :: tokens)))
  · exact hhere hy

end Ahead

namespace State

variable {x : Option Stray} {edge : Edge} {s s' t t' : State}

/-- The state of the reading with the semicolon, beside that of the reading without. -/
inductive Beside (x : Option Stray) (edge : Edge) (s : State) : State → Prop where
  | intro {messages : List Message} {cursor : Cursor}
      (hm : messages.map Message.placeless = s.messages.map Message.placeless)
      (hc : Ahead x edge s.cursor.rest cursor.rest) : Beside x edge s { s with messages, cursor }

/-- The reading without the semicolon has come past the place where it is missing. This happens
where a bracket is followed by a closing one, which the semicolon keeps apart. -/
def Outruns (x : Option Stray) (s : State) : Prop :=
  ∃ y ∈ x, s.remaining < y.rest.length ∨
    isOpening y.front = true ∧ s.remaining ≤ y.rest.length

theorem Outruns.mono (h : s.Outruns x) (hr : t.remaining ≤ s.remaining) : t.Outruns x := by
  obtain ⟨y, hy, hlt | ⟨hopening, hle⟩⟩ := h
  · exact ⟨y, hy, .inl (Nat.lt_of_le_of_lt hr hlt)⟩
  · exact ⟨y, hy, .inr ⟨hopening, Nat.le_trans hr hle⟩⟩

namespace Beside

theorem any (h : s.Beside x edge s') : s.Beside x .any s' := by
  obtain ⟨hm, hc⟩ := h
  exact .intro hm hc.any

theorem inner (h : s.Beside x .clear s') (ht : ∀ t ∈ s.current, isBoundary t = false) :
    s.Beside x .inner s' := by
  obtain ⟨hm, hc⟩ := h
  exact .intro hm ⟨hc, ht⟩

theorem inner_of_current (h : s.Beside x .clear s') {t : Token} (hc : s.current = some t)
    (ht : isBoundary t = false) : s.Beside x .inner s' :=
  h.inner fun u hu => by
    cases hc.symm.trans hu
    exact ht

/-- Where both readings are at the same point, they have the same left. -/
theorem of_rest {messages : List Message} {cursor : Cursor}
    (hm : messages.map Message.placeless = s.messages.map Message.placeless)
    (hc : cursor.rest = s.cursor.rest) : s.Beside x .clear { s with messages, cursor } :=
  .intro hm (hc ▸ .past _)

theorem session (h : s.Beside x edge s') : s.toSession.Twin s'.toSession := by
  obtain ⟨hm, _⟩ := h
  exact .intro hm

/-- What a session goes on to do, is done in both readings. -/
theorem of_session (h : s.Beside x edge s') {session session' : Session}
    (hs : session.Twin session') {pending pending' : List Binding} (hp : pending' = pending) :
    ({ s with toSession := session, pending } : State).Beside x edge
      { s' with toSession := session', pending := pending' } := by
  obtain ⟨_, hc⟩ := h
  obtain ⟨hm⟩ := hs
  exact hp ▸ .intro hm hc

theorem pending (h : s.Beside x edge s') : s'.pending = s.pending := by
  obtain ⟨_, _⟩ := h
  rfl

theorem source (h : s.Beside x edge s') : s'.source = s.source := by
  obtain ⟨_, _⟩ := h
  rfl

theorem current (h : s.Beside x .clear s') : s'.current = s.current := by
  obtain ⟨_, hc⟩ := h
  exact hc.head?

theorem here (h : s.Beside x .clear s') {t : Token} (ht : s.current = some t) :
    s'.here = s.here := by
  have ht' : s'.cursor.current = some t := h.current.trans ht
  have hposition : s'.cursor.position = s.cursor.position := by
    have hcurrent : s.cursor.current = some t := ht
    simp only [Cursor.position, ht', hcurrent]
  simp only [State.here, hposition, h.source]

theorem shift (h : s.Beside x .clear s') : s.shift.Beside x .any s'.shift := by
  obtain ⟨hm, hc⟩ := h
  exact .intro hm hc.tail_any

/-- Behind its next token a reading stands away from the semicolon, unless the token is the one in
front of it. -/
theorem shift_or_front (h : s.Beside x .clear s') :
    s.shift.Beside x .clear s'.shift ∨
      ∃ y ∈ x, s.current = some y.front ∧ s.shift.cursor.rest = y.rest := by
  obtain ⟨hm, hc⟩ := h
  rcases hc.tail with hc | ⟨y, hy, hrest, _⟩
  · exact .inl (.intro hm hc)
  · refine .inr ⟨y, hy, congrArg List.head? hrest, congrArg List.tail hrest⟩

theorem skipComments (h : s.Beside x .clear s') :
    s.skipComments.Beside x .clear s'.skipComments := by
  obtain ⟨hm, hc⟩ := h
  exact .intro hm hc.comments.2

theorem advance (h : s.Beside x .inner s') : s.advance.Beside x .clear s'.advance := by
  obtain ⟨hm, hc⟩ := h
  exact .intro hm (hc.1.tail_clear hc.2).comments.2

theorem commentOf? (h : s.Beside x .clear s') :
    s'.commentOf? s'.cursor.rest = s.commentOf? s.cursor.rest := by
  obtain ⟨_, hc⟩ := h
  simp only [State.commentOf?, hc.comments.1]
  rfl

theorem report (h : s.Beside x edge s') {m m' : Message} (hm : m'.placeless = m.placeless) :
    (s.report m).Beside x edge (s'.report m') :=
  h.of_session (h.session.report hm) h.pending

theorem ask (h : s.Beside x edge s') (t : Option DataType) (defaults : List Default) :
    (s.ask t defaults).Beside x edge (s'.ask t defaults) :=
  h.of_session (h.session.ask t defaults) h.pending

theorem misplaced (h : s.Beside x edge s') (comment : Option Comment) :
    (s.misplaced comment).Beside x edge (s'.misplaced comment) := by
  cases comment with
  | none => exact h
  | some comment => exact h.report rfl

theorem modifyDocument (h : s.Beside x edge s') (f : Document → Document) :
    (s.modifyDocument f).Beside x edge (s'.modifyDocument f) := by
  obtain ⟨hm, hc⟩ := h
  exact .intro hm hc

theorem await (h : s.Beside x edge s') (name : TypeName) (classifier : String)
    (scope : Option StructureId) (slot : Slot) :
    (s.await name classifier scope slot).Beside x edge (s'.await name classifier scope slot) := by
  obtain ⟨hm, hc⟩ := h
  exact .intro hm hc

theorem settle (h : s.Beside x edge s') {f : Session → List Binding → Session × List Binding}
    (hf : ∀ session session' pending, Session.Twin session session' →
      (f session' pending).2 = (f session pending).2 ∧
        (f session pending).1.Twin (f session' pending).1) :
    (s.settle f).Beside x edge (s'.settle f) := by
  obtain ⟨hpending, hs⟩ := hf _ _ s.pending h.session
  simp only [State.settle, h.pending]
  exact h.of_session hs hpending

theorem rollback (h : s.Beside x edge s') (mark : Mark) :
    (s.rollback mark).Beside x edge (s'.rollback mark) := by
  obtain ⟨hm, hc⟩ := h
  exact .intro hm hc

theorem mark (h : s.Beside x edge s') : s'.mark = s.mark := by
  obtain ⟨_, _⟩ := h
  rfl

theorem recover (h : s.Beside x .clear s') : s.recover.Beside x .any s'.recover := by
  obtain ⟨hm, hc⟩ := h
  exact .intro hm (hc.resumption 0)

theorem dropWhile {skips : Token → Bool} (hs : ∀ t, isSemicolon t = true → skips t = true)
    (h : s.Beside x .any s') :
    ({ s with cursor := { s.cursor with rest := s.cursor.rest.dropWhile skips } } : State).Beside x
      .any { s' with cursor := { s'.cursor with rest := s'.cursor.rest.dropWhile skips } } := by
  obtain ⟨hm, hc⟩ := h
  exact .intro hm (hc.dropWhile hs)

/-- Either the readings are away from the stray semicolon, or the one with it is right in front of
it and is beside the other one when it has read it. -/
theorem clear_or_here (h : s.Beside x .any s') :
    s.Beside x .clear s' ∨ ∃ y ∈ x, s.cursor.rest = y.rest ∧ s'.current = some y.semicolon ∧
      s.Beside none .clear s'.shift := by
  obtain ⟨hm, hc | ⟨y, hy, hrest, hrest'⟩⟩ := h
  · exact .inl (.intro hm hc)
  · refine .inr ⟨y, hy, hrest, ?_, .of_rest hm ?_⟩
    · simp only [State.current, Cursor.current, hrest', List.head?_cons]
    · rw [hrest, Cursor.shift, hrest']
      rfl

/-- Behind the stray semicolon the readings have the same left, whichever it was. -/
theorem of_none (h : s.Beside none edge s') (x : Option Stray) : s.Beside x .clear s' := by
  obtain ⟨hm, hc⟩ := h
  exact of_rest hm hc.eq_of_none

end Beside

theorem leadingComment_of_current {t : Token} (hc : s.current = some t)
    (ht : t.isComment = false) : s.leadingComment = (none, s) := by
  obtain ⟨rest, hrest⟩ := List.head?_eq_some_iff.1 hc
  have htake : s.cursor.rest.takeWhile Token.isComment = [] := by
    rw [hrest, List.takeWhile_cons, ht]
    rfl
  have hdrop : s.cursor.rest.dropWhile Token.isComment = s.cursor.rest := by
    rw [hrest, List.dropWhile_cons, ht]
    rfl
  simp only [leadingComment, commentOf?, skipComments, Cursor.skipComments, htake, hdrop]
  rfl

end State

end Idl.Grammar
