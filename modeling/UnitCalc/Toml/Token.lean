import UnitCalc.Toml.Text

/-! Tokens of TOML and the lines they form. -/

namespace UnitCalc.Toml

inductive Token where
  /-- A key, a number or a boolean. -/
  | word (chars : List Char)
  | string (s : Quoted)
  | equals | openBracket | closeBracket | comma | newline
deriving DecidableEq, Repr

/-- Reads a carriage return before a newline as part of the newline. -/
def normalizeNewlines : List Char → List Char
  | '\r' :: '\n' :: cs => '\n' :: normalizeNewlines cs
  | c :: cs => c :: normalizeNewlines cs
  | [] => []

/-- A byte order mark may stand at the head of a file. -/
def withoutMark : List Char → List Char
  | '\ufeff' :: cs => cs
  | cs => cs

def isWordChar (c : Char) : Bool :=
  c.isAlphanum || c = '_' || c = '-' || c = '+' || c = '.' || c = ':'

namespace Token

/-- The token at the head of a text, or none if a blank or a comment stands there, with the number
of characters it takes. -/
def munch? : List Char → Option (Option Token × Nat)
  | [] => none
  | '=' :: _ => some (some .equals, 1)
  | '[' :: _ => some (some .openBracket, 1)
  | ']' :: _ => some (some .closeBracket, 1)
  | ',' :: _ => some (some .comma, 1)
  | '\n' :: _ => some (some .newline, 1)
  | '#' :: cs =>
    let s := cs.takeWhile (· ≠ '\n')
    if s.all (!isControl ·) then some (none, s.length + 1) else none
  | c :: cs =>
    if isBlank c then some (none, 1)
    else if isWordChar c then
      let s := cs.takeWhile isWordChar
      some (some (.word (c :: s)), s.length + 1)
    else
      (quoted? (c :: cs)).map fun (s, rest) => (some (.string s), cs.length + 1 - rest.length)

/-- The tokens of a text after its first `skip` characters. -/
def scan? : (skip : Nat) → List Char → Option (List Token)
  | _, [] => some []
  | skip + 1, _ :: cs => scan? skip cs
  | 0, c :: cs =>
    match munch? (c :: cs) with
    | none => none
    | some (none, n) => scan? (n - 1) cs
    | some (some t, n) => (scan? (n - 1) cs).map (t :: ·)

/-- Drops the newlines inside brackets. -/
def joinArrays : (inside : Bool) → List Token → List Token
  | _, [] => []
  | _, .openBracket :: ts => .openBracket :: joinArrays true ts
  | _, .closeBracket :: ts => .closeBracket :: joinArrays false ts
  | true, .newline :: ts => joinArrays true ts
  | inside, t :: ts => t :: joinArrays inside ts

/-- The tokens between newlines. -/
def splitLines : List Token → List (List Token)
  | [] => [[]]
  | .newline :: ts => [] :: splitLines ts
  | t :: ts =>
    match splitLines ts with
    | [] => [[t]]
    | l :: ls => (t :: l) :: ls

end Token

/-- The lines of a text as tokens; an array stands on one line. -/
def lines? (text : String) : Option (List (List Token)) :=
  (Token.scan? 0 (normalizeNewlines (withoutMark text.toList))).map fun ts =>
    Token.splitLines (Token.joinArrays false ts)

end UnitCalc.Toml
