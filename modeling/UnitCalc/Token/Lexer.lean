import UnitCalc.Token.Basic
import UnitCalc.Token.Identifier

/-! Cutting a source into tokens. At each place that holds no blank the longest lexeme of any kind
is taken; a character that begins none is a token of its own, and is recorded as an error of the
scan besides. The scan walks the text once, and skips the characters of a lexeme after it has been
recorded. -/

namespace UnitCalc

namespace Token

/-! ### Lengths of lexemes

Each function gives the length of the longest lexeme of its kind at the head of a text, and zero
if there is none. -/

def isDigitPart (c : Char) : Bool := c.isDigit || c = '_'

/-- A digit and then digits and underscores. -/
def digitsLength : List Char → Nat
  | [] => 0
  | c :: cs => if c.isDigit then 1 + (cs.takeWhile isDigitPart).length else 0

/-- The mark `e` or `E`, an optional sign, and digits. -/
def exponentLength : List Char → Nat
  | [] => 0
  | e :: cs =>
    if e = 'e' || e = 'E' then
      match cs with
      | '+' :: ds | '-' :: ds => if digitsLength ds = 0 then 0 else 2 + digitsLength ds
      | ds => if digitsLength ds = 0 then 0 else 1 + digitsLength ds
    else 0

/-- A point and digits. -/
def fractionLength : List Char → Nat
  | '.' :: ds => if digitsLength ds = 0 then 0 else 1 + digitsLength ds
  | _ => 0

def identifierLength : List Char → Nat
  | [] => 0
  | c :: cs => if isIdentifierStart c then 1 + (cs.takeWhile isIdentifierPart).length else 0

/-- From `#` to the end of the line. -/
def commentLength : List Char → Nat
  | '#' :: cs => 1 + (cs.takeWhile (· ≠ '\n')).length
  | _ => 0

/-! ### Lexemes -/

/-- Digits, with a fraction or an exponent or both if they are there in full. -/
def number? (cs : List Char) : Option (Kind × Nat) :=
  let whole := digitsLength cs
  if whole = 0 then none
  else
    let fraction := fractionLength (cs.drop whole)
    let exponent := exponentLength (cs.drop (whole + fraction))
    if fraction + exponent = 0 then some (.integer, whole)
    else some (.float, whole + fraction + exponent)

def keywordOrIdentifier (lexeme : List Char) : Kind :=
  if lexeme = "unit".toList then .unit
  else if lexeme = "print".toList then .print
  else .identifier

/-- The characters beyond ASCII whose first byte in UTF-8 begins no character of an identifier. They
lie in areas of private use or without any characters. -/
def clearOfIdentifiers : CodeSet := ⟨[0xE000, 0xF000, 0x40000, 0xC0000, 0x100000, 0x110000]⟩

/-- A keyword is told by the byte that follows it: it stands at the end of a text and before a byte
with which no identifier goes on. Before any other character the same letters are an identifier. -/
def endsKeyword : List Char → Bool
  | [] => true
  | c :: _ => c.toNat < 0x80 || clearOfIdentifiers.contains c

def word? (cs : List Char) : Option (Kind × Nat) :=
  let n := identifierLength cs
  if n = 0 then none
  else if endsKeyword (cs.drop n) then some (keywordOrIdentifier (cs.take n), n)
  else some (.identifier, n)

def symbol? : List Char → Option (Kind × Nat)
  | '=' :: '=' :: _ => some (.doubleEqual, 2)
  | '!' :: '=' :: _ => some (.notEqual, 2)
  | '<' :: '=' :: _ => some (.lessEqual, 2)
  | '>' :: '=' :: _ => some (.greaterEqual, 2)
  | '=' :: _ => some (.equal, 1)
  | '<' :: _ => some (.less, 1)
  | '>' :: _ => some (.greater, 1)
  | '+' :: _ => some (.plus, 1)
  | '-' :: _ => some (.minus, 1)
  | '*' :: _ => some (.star, 1)
  | '/' :: _ => some (.slash, 1)
  | '%' :: _ => some (.percent, 1)
  | '^' :: _ => some (.caret, 1)
  | '(' :: _ => some (.openParen, 1)
  | ')' :: _ => some (.closeParen, 1)
  | '[' :: _ => some (.openBracket, 1)
  | ']' :: _ => some (.closeBracket, 1)
  | ',' :: _ => some (.comma, 1)
  | '\n' :: _ => some (.newline, 1)
  | _ => none

def comment? (cs : List Char) : Option (Kind × Nat) :=
  let n := commentLength cs
  if n = 0 then none else some (.comment, n)

/-- The longest lexeme at the head of a text: its kind and its length. The four forms begin with
different characters, so at most one of them is there. -/
def munch? (cs : List Char) : Option (Kind × Nat) :=
  (number? cs).or <| (word? cs).or <| (symbol? cs).or (comment? cs)

/-! ### The scan -/

def isBlank (c : Char) : Bool := c = ' ' || c = '\t' || c = '\r'

/-- The tokens of a text that starts at byte `offset`, after its first `skip` characters, and the
stray characters among them. -/
def scan : (skip offset : Nat) → List Char → List Token × List Stray
  | _, offset, [] => ([⟨.endOfInput, "", ⟨offset, offset⟩⟩], [])
  | skip + 1, offset, c :: cs => scan skip (offset + c.utf8Size) cs
  | 0, offset, c :: cs =>
    if isBlank c then scan 0 (offset + c.utf8Size) cs
    else
      match munch? (c :: cs) with
      | some (kind, length) =>
        let lexeme := (c :: cs).take length
        let token := ⟨kind, String.ofList lexeme, ⟨offset, offset + byteLength lexeme⟩⟩
        let rest := scan (length - 1) (offset + c.utf8Size) cs
        (token :: rest.1, rest.2)
      | none =>
        let stray := ⟨c, ⟨offset, offset + c.utf8Size⟩⟩
        let rest := scan 0 (offset + c.utf8Size) cs
        (stray.token :: rest.1, stray :: rest.2)

/-- Skipping characters is scanning what comes after them. -/
theorem scan_skip (skip offset : Nat) (cs : List Char) :
    scan skip offset cs = scan 0 (offset + byteLength (cs.take skip)) (cs.drop skip) := by
  induction cs generalizing skip offset with
  | nil => simp [scan]
  | cons c cs ih =>
    cases skip with
    | zero => simp
    | succ skip => rw [scan, ih]; simp [Nat.add_assoc]

end Token

/-- The tokens of a source, comments and newlines included; the last one marks its end. -/
def tokenize (source : String) : List Token := (Token.scan 0 0 source.toList).1

/-- The errors of the scan of a source, in the order of the text. -/
def strayTokens (source : String) : List Stray := (Token.scan 0 0 source.toList).2

end UnitCalc
