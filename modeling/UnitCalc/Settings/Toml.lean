import UnitCalc.Settings.Basic
import UnitCalc.Toml.Token

/-! Reading settings from TOML. A file holds `key = value` lines, blank lines and comments. Values
are integers, booleans, strings, and arrays of strings. Anything else is refused: no setting has a
value of another form. -/

namespace UnitCalc.Settings

open Toml (digit? digits?)

/-! ### Values -/

/-- The strings of an array up to its closing bracket, which ends the line; a comma may follow the
last one. -/
def arrayItems? : List Toml.Token → Option (List String)
  | [.closeBracket] => some []
  | [.string s, .closeBracket] => some [s.content]
  | .string s :: .comma :: ts => (arrayItems? ts).map (s.content :: ·)
  | _ => none

/-- Every underscore stands between two digits, and there is a digit. -/
def isSeparated (isDigit : Char → Bool) : List Char → Bool
  | [] => false
  | [c] => isDigit c
  | c :: '_' :: cs => isDigit c && isSeparated isDigit cs
  | c :: cs => isDigit c && isSeparated isDigit cs

/-- Digits in a base, with underscores between them. -/
def separated? (base : Nat) (cs : List Char) : Option Nat :=
  if isSeparated (fun c => (digit? base c).isSome) cs then digits? base (cs.filter (· ≠ '_'))
  else none

/-- A decimal number without superfluous zeros. -/
def decimal? (cs : List Char) : Option Nat :=
  if cs.length = 1 || cs.head? ≠ some '0' then separated? 10 cs else none

/-- An integer that is not negative and fits in 64 bits with its sign. Only a decimal one may have
a sign. -/
def natural? (cs : List Char) : Option Nat :=
  let n := match cs with
    | '0' :: 'x' :: ds => separated? 16 ds
    | '0' :: 'o' :: ds => separated? 8 ds
    | '0' :: 'b' :: ds => separated? 2 ds
    | '+' :: ds => decimal? ds
    | '-' :: ds => (decimal? ds).filter (· = 0)
    | ds => decimal? ds
  n.filter (· ≤ 9223372036854775807)

def bool? (cs : List Char) : Option Bool :=
  if cs = "true".toList then some true
  else if cs = "false".toList then some false
  else none

/-! ### Settings -/

/-- Sets one key from the tokens of its value. -/
def set? (s : Settings) : (key : String) → List Toml.Token → Option Settings
  | "precision", [.word w] => (natural? w).map fun n => { s with precision := n }
  | "history", [.word w] => (bool? w).map fun b => { s with history := b }
  | "history_file", [.string f] => some { s with historyFile := some f.content }
  | "prelude", .openBracket :: ts => (arrayItems? ts).map fun ps => { s with prelude := ps }
  | _, _ => none

/-- A key may be quoted, on one line. -/
def key? : Toml.Token → Option String
  | .word w => some (String.ofList w)
  | .string s => if s.multiline then none else some s.content
  | _ => none

/-- Applies lines in turn; a key may be set once. -/
def setAll? (seen : List String) (s : Settings) : List (List Toml.Token) → Option Settings
  | [] => some s
  | [] :: ls => setAll? seen s ls
  | (k :: .equals :: value) :: ls => do
    let key ← key? k
    if key ∈ seen then none
    else setAll? (key :: seen) (← s.set? key value) ls
  | _ => none

def ofToml? (text : String) : Option Settings := do
  setAll? [] {} (← Toml.lines? text)

end UnitCalc.Settings
