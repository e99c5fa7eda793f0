import UnitCalc.Line.Basic
import UnitCalc.Value.Basic

/-! The state of a calculation: the units, variables and functions declared so far, and the number
of digits that a quotient keeps. -/

namespace UnitCalc

/-- A function: the names of its parameters and its body, which is evaluated at each call. -/
structure Function where
  params : List String
  body : Expr
deriving DecidableEq, Repr

def Function.text (f : Function) : String := paramsText f.params ++ " = " ++ f.body.text

structure State where
  units : Table Unit
  vars : Table Value
  functions : Table Function
  precision : Nat
deriving DecidableEq

namespace State

def defaultPrecision : Nat := 50

def maxPrecision : Nat := 100

/-- At least one digit is kept, and at most `maxPrecision` are. -/
def clampPrecision (p : Nat) : Nat := max 1 (min p maxPrecision)

/-- The state in which nothing is declared. -/
def initial (precision : Nat) : State := ⟨.empty, .empty, .empty, clampPrecision precision⟩

def setPrecision (s : State) (precision : Nat) : State :=
  { s with precision := clampPrecision precision }

def isDefined (s : State) (name : String) : Bool :=
  s.units.contains name || s.vars.contains name || s.functions.contains name

/-- What a name stands for: a variable's value, else one of a unit, else a function. -/
def lookup (s : State) (name : String) : Option Value :=
  match s.vars.find? name with
  | some v => some v
  | none =>
    if s.units.contains name then some (.ofUnit name)
    else if s.functions.contains name then some (.ofFunction name)
    else none

end State

end UnitCalc
