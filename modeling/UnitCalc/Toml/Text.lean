/-! Strings of TOML. Double quotes enclose a string with escapes, single quotes one without, and
three quotes of either kind one that may go on over several lines. A reader takes the text after
the opening quotes, and gives the string with the text after the closing ones. Newlines in the
text are single characters. -/

namespace UnitCalc.Toml

/-- Control characters other than the tab may stand neither in a string nor in a comment. -/
def isControl (c : Char) : Bool := (c.toNat < 32 && c ≠ '\t') || c.toNat = 127

def isBlank (c : Char) : Bool := c = ' ' || c = '\t'

/-! ### Escapes -/

/-- The value of a digit in a base up to sixteen. -/
def digit? (base : Nat) (c : Char) : Option Nat :=
  let n :=
    if c.isDigit then some (c.toNat - '0'.toNat)
    else if 'a' ≤ c && c ≤ 'f' then some (c.toNat - 'a'.toNat + 10)
    else if 'A' ≤ c && c ≤ 'F' then some (c.toNat - 'A'.toNat + 10)
    else none
  n.filter (· < base)

/-- The number that digits write in a base. -/
def digits? (base : Nat) (ds : List Char) : Option Nat :=
  ds.foldlM (fun n d => (digit? base d).map (base * n + ·)) 0

/-- The character whose code point the first `width` characters write. -/
def codePoint? (width : Nat) (cs : List Char) : Option Char := do
  let ds := cs.take width
  let n ← if ds.length = width then digits? 16 ds else none
  if n.isValidChar then some (Char.ofNat n) else none

/-- The character that an escape stands for, and how many characters it takes after its
backslash. -/
def escape? : List Char → Option (Char × Nat)
  | 'b' :: _ => some ('\x08', 1)
  | 't' :: _ => some ('\t', 1)
  | 'n' :: _ => some ('\n', 1)
  | 'f' :: _ => some ('\x0c', 1)
  | 'r' :: _ => some ('\r', 1)
  | '"' :: _ => some ('"', 1)
  | '\\' :: _ => some ('\\', 1)
  | 'u' :: cs => (codePoint? 4 cs).map (·, 5)
  | 'U' :: cs => (codePoint? 8 cs).map (·, 9)
  | _ => none

/-! ### Strings on one line -/

/-- Puts a character before what a reader has read. -/
def andThen (c : Char) (read : Option (List Char × List Char)) : Option (List Char × List Char) :=
  read.map fun (s, rest) => (c :: s, rest)

/-- Reads a string up to its double quote, after `skip` characters. -/
def basic? : (skip : Nat) → List Char → Option (List Char × List Char)
  | _, [] => none
  | skip + 1, _ :: cs => basic? skip cs
  | 0, '"' :: cs => some ([], cs)
  | 0, '\\' :: cs => do
    let (c, n) ← escape? cs
    andThen c (basic? n cs)
  | 0, c :: cs => if isControl c then none else andThen c (basic? 0 cs)

/-- Reads a string up to its single quote. -/
def literal? : List Char → Option (List Char × List Char)
  | [] => none
  | '\'' :: cs => some ([], cs)
  | c :: cs => if isControl c then none else andThen c (literal? cs)

/-! ### Strings over several lines -/

/-- After three quotes that close a string: up to two more are still part of it. -/
def closing (quote : Char) : List Char → List Char × List Char
  | a :: b :: cs =>
    if a ≠ quote then ([], a :: b :: cs)
    else if b ≠ quote then ([a], b :: cs)
    else ([a, b], cs)
  | [a] => if a = quote then ([a], []) else ([], [a])
  | [] => ([], [])

/-- Three quotes stand at the head of a text. -/
def startsTriple (quote : Char) (cs : List Char) : Bool := [quote, quote, quote].isPrefixOf cs

/-- After a backslash, the blanks to the end of the line and all blanks and newlines that follow
it: how many characters they take. -/
def continuation? (cs : List Char) : Option Nat :=
  match cs.dropWhile isBlank with
  | '\n' :: _ => some (cs.takeWhile fun c => isBlank c || c = '\n').length
  | _ => none

/-- Reads a string up to its three double quotes, after `skip` characters. -/
def multilineBasic? : (skip : Nat) → List Char → Option (List Char × List Char)
  | _, [] => none
  | skip + 1, _ :: cs => multilineBasic? skip cs
  | 0, '\\' :: cs =>
    match continuation? cs with
    | some n => multilineBasic? n cs
    | none => do
      let (c, n) ← escape? cs
      andThen c (multilineBasic? n cs)
  | 0, c :: cs =>
    if startsTriple '"' (c :: cs) then some (closing '"' (cs.drop 2))
    else if isControl c && c ≠ '\n' then none
    else andThen c (multilineBasic? 0 cs)

/-- Reads a string up to its three single quotes. -/
def multilineLiteral? : List Char → Option (List Char × List Char)
  | [] => none
  | c :: cs =>
    if startsTriple '\'' (c :: cs) then some (closing '\'' (cs.drop 2))
    else if isControl c && c ≠ '\n' then none
    else andThen c (multilineLiteral? cs)

/-- A newline right after the opening quotes is not part of the string. -/
def withoutFirstNewline : List Char → List Char
  | '\n' :: cs => cs
  | cs => cs

/-! ### Strings -/

/-- A string as it is written in a file. -/
structure Quoted where
  content : String
  /-- It stands between three quotes. -/
  multiline : Bool
deriving DecidableEq, Repr

/-- The string that stands at the head of a text, with the text after it. -/
def quoted? (cs : List Char) : Option (Quoted × List Char) :=
  let give (multiline : Bool) (read : Option (List Char × List Char)) :=
    read.map fun (s, rest) => (Quoted.mk (String.ofList s) multiline, rest)
  if startsTriple '"' cs then give true (multilineBasic? 0 (withoutFirstNewline (cs.drop 3)))
  else if startsTriple '\'' cs then give true (multilineLiteral? (withoutFirstNewline (cs.drop 3)))
  else
    match cs with
    | '"' :: cs => give false (basic? 0 cs)
    | '\'' :: cs => give false (literal? cs)
    | _ => none

end UnitCalc.Toml
