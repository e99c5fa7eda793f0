import UnitCalc.Token.Basic

/-! Operators and how tightly they bind. -/

namespace UnitCalc

inductive Sign where
  | plus | minus
deriving DecidableEq, Repr

def Sign.symbol : Sign → String
  | plus => "+"
  | minus => "-"

inductive Operator where
  | add | sub | mul | div | mod | pow
  | eq | ne | lt | le | gt | ge
deriving DecidableEq, Repr

namespace Operator

def symbol : Operator → String
  | add => "+" | sub => "-" | mul => "*" | div => "/" | mod => "%" | pow => "^"
  | eq => "=" | ne => "!=" | lt => "<" | le => "<=" | gt => ">" | ge => ">="

def isComparison : Operator → Bool
  | eq | ne | lt | le | gt | ge => true
  | _ => false

/-- A higher number binds tighter. -/
def precedence : Operator → Nat
  | eq | ne | lt | le | gt | ge => 1
  | add | sub => 2
  | mul | div | mod => 3
  | pow => 6

/-- The precedence of two operands that stand next to each other, which are multiplied. -/
def juxtaposition : Nat := 4

/-- The precedence of a sign. -/
def signPrecedence : Nat := 5

/-- The right operand holds the operators that bind tighter than this. Powers group to the right,
and an exponent may begin with a sign; all else groups to the left. -/
def rightPrecedence : Operator → Nat
  | pow => 5
  | op => op.precedence

def all : List Operator := [add, sub, mul, div, mod, pow, eq, ne, lt, le, gt, ge]

def ofSymbol? (symbol : String) : Option Operator := all.find? (·.symbol = symbol)

/-- The operator that a token stands for between two operands. `=` and `==` both compare. -/
def ofKind? : Token.Kind → Option Operator
  | .plus => some add | .minus => some sub | .star => some mul | .slash => some div
  | .percent => some mod | .caret => some pow
  | .equal => some eq | .doubleEqual => some eq | .notEqual => some ne
  | .less => some lt | .lessEqual => some le | .greater => some gt | .greaterEqual => some ge
  | _ => none

end Operator

end UnitCalc
