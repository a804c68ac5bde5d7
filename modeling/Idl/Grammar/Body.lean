import Idl.Grammar.Basic

/-!
Repetition, comments, recovery and bodies. Every repetition of the grammar is a number of
rounds, and a round after which another one follows has read a token. What cannot be read in a
body is given up: it leaves nothing but its messages, and the reading goes on behind it.
-/

namespace Idl.Grammar

/-- How a round of a repetition ends. -/
inductive Round (α β : Type) where
  | again (next : α)
  | done (result : β)
  deriving DecidableEq, Repr

/-- Rounds from `a` on. No further round follows one that has read no token. -/
def iterate {ε α β : Type} [Inhabited ε] (round : α → EStateM ε State (Round α β)) (a : α)
    (s : State) : EStateM.Result ε State β :=
  match round a s with
  | .ok (.done b) s' => .ok b s'
  | .ok (.again a') s' =>
    if s'.remaining < s.remaining then iterate round a' s' else .error default s'
  | .error e s' => .error e s'
  termination_by s.remaining

namespace State

/-- The comments at the front of some tokens as one comment. -/
def commentOf? (s : State) (tokens : List Token) : Option Comment :=
  let comments := tokens.takeWhile Token.isComment
  comments.head?.map fun first => ⟨comments.flatMap Token.commentLines, s.locationOf first⟩

/-- The comment in front of the next construct, and the state behind it. -/
def leadingComment (s : State) : Option Comment × State :=
  (s.commentOf? s.cursor.rest, s.skipComments)

/-- Warns about a comment that belongs to nothing. -/
def misplaced (s : State) (comment : Option Comment) : State :=
  match comment with
  | some comment => s.report (.of .misplacedComment comment.location)
  | none => s

end State

/-- What is left of the tokens behind a broken construct: what follows the next semicolon or the
block that starts before it, or else the closing bracket of the body around. The `depth` is the
number of blocks that are open. -/
def resumption : Nat → List Token → List Token
  | _, [] => []
  | depth, t :: rest =>
    if isOpening t then resumption (depth + 1) rest
    else if isClosing t then
      match depth with
      | 0 => t :: rest
      | 1 => rest
      | depth + 1 => resumption depth rest
    else if isSemicolon t && depth == 0 then rest
    else resumption depth rest

theorem resumption_suffix (depth : Nat) (tokens : List Token) :
    resumption depth tokens <:+ tokens := by
  fun_induction resumption depth tokens with
  | case1 => exact List.suffix_rfl
  | case2 depth t rest _ ih => exact ih.trans (List.suffix_cons t rest)
  | case3 t rest => exact List.suffix_rfl
  | case4 t rest => exact List.suffix_cons t rest
  | case5 t rest _ _ depth _ ih => exact ih.trans (List.suffix_cons t rest)
  | case6 depth t rest => exact List.suffix_cons t rest
  | case7 depth t rest _ _ _ ih => exact ih.trans (List.suffix_cons t rest)

/-- Only a closing bracket stops the skipping in front of it. -/
theorem length_resumption_lt {t : Token} (rest : List Token) (h : isClosing t = false) :
    (resumption 0 (t :: rest)).length < (t :: rest).length := by
  have shorter (depth : Nat) : (resumption depth rest).length < (t :: rest).length :=
    Nat.lt_succ_of_le (resumption_suffix depth rest).length_le
  simp only [resumption, h, Bool.false_eq_true, if_false]
  split
  · exact shorter 1
  · split
    · exact Nat.lt_succ_self _
    · exact shorter 0

/-- How much of the document and of the waiting names was there. -/
structure Mark where
  extent : Document.Extent
  pending : Nat
  deriving DecidableEq, Repr

namespace State

def recover (s : State) : State :=
  { s with cursor := { s.cursor with rest := resumption 0 s.cursor.rest } }

def mark (s : State) : Mark :=
  ⟨s.document.extent, s.pending.length⟩

/-- Takes away what was added since. -/
def rollback (s : State) (mark : Mark) : State :=
  { s.modifyDocument (·.restore mark.extent) with pending := s.pending.take mark.pending }

/-- Reads a construct and takes it in. If it is broken or not accepted, it leaves nothing but
messages; behind a broken one the reading is resumed. -/
def construct {α : Type} (s : State) (read : Parser α) (accept : α → State → Bool × State)
    (resume : State → State) : State :=
  match read s with
  | .ok a s' =>
    let (accepted, s') := accept a s'
    if accepted then s' else s'.rollback s.mark
  | .error _ s' => resume (s'.rollback s.mark)

/-- Reads an item of a body, or skips it if it is broken. -/
def salvage (s : State) (read : Parser Unit) : State :=
  s.construct read (fun _ s => (true, s)) recover

end State

/-- An item of a body, read with the comment in front of it and its first token. -/
abbrev Item :=
  Option Comment → Token → State → State

/-- Reads one item of a body, a stray semicolon, or the end of the body. -/
def bodyRound (statement : String) (item : Item) : Parser (Round Unit Unit) := do
  let comment ← modifyGet State.leadingComment
  match (← get).current with
  | none => failHere .unexpectedEndOfInput [(.statement, statement)]
  | some t =>
    if isClosing t then
      modify fun s => (s.misplaced comment).shift
      return .done ()
    else if isSemicolon t then
      modify fun s => (s.misplaced comment).shift
      return .again ()
    else
      modify (item comment t)
      return .again ()

def items (statement : String) (item : Item) : Parser Unit :=
  iterate (fun _ => bodyRound statement item) ()

def body (statement : String) (item : Item) : Parser Unit := do
  openBody statement
  items statement item

/-- Reads a body that has to be empty. -/
def emptyBody (statement : String) : Parser Unit := do
  openBody statement
  let comment ← modifyGet State.leadingComment
  let _ ← demand isClosing .expectToken [(.token, "\x7d")]
  modify fun s => (s.misplaced comment).shift

end Idl.Grammar
