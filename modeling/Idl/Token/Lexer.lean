import Idl.Pattern
import Idl.Token

/-!
The lexer. A token is the longest beginning of the text that one of the patterns describes.
Where no pattern describes any beginning, an invalid token takes the characters that could
still have become a token, at least one. Only spaces, tabs, line ends and form feeds between
tokens are skipped, so tokens and gaps together are the whole text.
-/

namespace Idl.Token

def isGap (c : Char) : Bool :=
  c == ' ' || c == '\t' || c == '\r' || c == '\n' || c == '\x0c'

/-- A pattern and the kind of the tokens it describes. -/
abbrev Rule := Kind × Pattern

namespace Rule

open Pattern

def isLetter (c : Char) : Bool :=
  c.isAlpha || c == '_'

def isHexDigit (c : Char) : Bool :=
  c.isDigit || ('a' ≤ c && c ≤ 'f') || ('A' ≤ c && c ≤ 'F')

def digits : Pattern :=
  atLeastOne (.one Char.isDigit)

def identifier : Pattern :=
  .seq (.one isLetter) (.many (.one fun c => isLetter c || c.isDigit))

def integer : Pattern :=
  .seq (maybe (char '-'))
    (.alt (chain [char '0', oneOf ['x', 'X'], atLeastOne (.one isHexDigit)]) digits)

def real : Pattern :=
  chain [maybe (char '-'), digits, char '.', digits,
    maybe (chain [oneOf ['e', 'E'], maybe (oneOf ['+', '-']), digits])]

def string : Pattern :=
  chain [char '"', .many (.alt (noneOf ['"', '\\', '\n']) (.seq (char '\\') (noneOf ['\n']))),
    char '"']

def lineComment : Pattern :=
  .seq (word ['/', '/']) (.many (noneOf ['\n']))

def blockComment : Pattern :=
  chain [word ['/', '*'],
    .many (.alt (noneOf ['*']) (.seq (atLeastOne (char '*')) (noneOf ['*', '/']))),
    atLeastOne (char '*'), char '/']

def relation : Pattern :=
  choice [word ['=', '='], word ['!', '='], char '<', char '>', word ['<', '='], word ['>', '=']]

def arrow : Pattern :=
  choice [word ['-', '-', '>'], word ['<', '-', '-'], word ['<', '-', '>']]

/-- The patterns of all kinds but `invalid`. -/
def all : List Rule :=
  [(.identifier, identifier),
    (.integer, integer),
    (.real, real),
    (.string, string),
    (.delimiter, oneOf [';', ',', ':']),
    (.bracket, oneOf ['{', '}', '(', ')', '[', ']']),
    (.operator, char '='),
    (.relation, relation),
    (.bitwise, oneOf ['|', '&', '^', '~']),
    (.arrow, arrow),
    (.comment, lineComment),
    (.comment, blockComment),
    (.dot, char '.'),
    (.asterisk, char '*')]

/-- The rules that can still match behind `c`, cut down to what has to follow. -/
def step (c : Char) (rules : List Rule) : List Rule :=
  rules.filterMap fun (kind, pattern) =>
    let rest := pattern.derive c
    if rest.isNever then none else some (kind, rest)

/-- The kind of the first rule that matches here. -/
def accepted (rules : List Rule) : Option Kind :=
  (rules.find? fun (_, pattern) => pattern.nullable).map Prod.fst

/-- The longest beginning of the text that a rule describes: its kind and length. -/
def longest (rules : List Rule) : List Char → Option (Kind × Nat)
  | [] => (accepted rules).map (·, 0)
  | c :: rest =>
    let live := step c rules
    match (if live.isEmpty then none else longest live rest) with
    | some (kind, length) => some (kind, length + 1)
    | none => (accepted rules).map (·, 0)

/-- How many characters can be read while some rule can still match. -/
def reach (rules : List Rule) : List Char → Nat
  | [] => 0
  | c :: rest =>
    let live := step c rules
    if live.isEmpty then 0 else reach live rest + 1

end Rule

/-- Kind of the token that starts with `c`, and how many characters of `rest` belong to it. -/
def lexeme (c : Char) (rest : List Char) : Kind × Nat :=
  match Rule.longest Rule.all (c :: rest) with
  | some (kind, length) => (kind, length - 1)
  | none => (.invalid, Rule.reach Rule.all (c :: rest) - 1)

/-- The tokens of a text that starts at `place`, comments included. -/
def scan (place : Text.Place) : List Char → List Token
  | [] => []
  | c :: rest =>
    if isGap c then scan (place.next c) rest
    else
      let (kind, length) := lexeme c rest
      let text := c :: rest.take length
      ⟨kind, String.ofList text, place⟩ :: scan (place.after text) (rest.drop length)
  termination_by text => text.length
  decreasing_by all_goals simp only [List.length_cons, List.length_drop]; omega

def tokenize (text : String) : List Token :=
  scan {} text.toList

end Idl.Token
