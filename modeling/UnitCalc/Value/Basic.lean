import UnitCalc.Decimal.Text
import UnitCalc.Dimension

/-! Values: a number, a truth value or the name of a function, with a dimension. -/

namespace UnitCalc

namespace Value

inductive Kind where
  | number (n : Decimal)
  | bool (b : Bool)
  | function (name : String)
deriving DecidableEq

/-- What messages call a value of this kind. -/
def Kind.typeName : Kind → String
  | number _ => "number"
  | bool _ => "boolean"
  | function _ => "function"

def Kind.text : Kind → String
  | number n => n.plain
  | bool true => "true"
  | bool false => "false"
  | function name => s!"<function {name}>"

/-- Equality of kinds; numbers are compared in value. -/
def Kind.same : Kind → Kind → Bool
  | number a, number b => a.same b
  | bool a, bool b => a = b
  | function f, function g => f = g
  | _, _ => false

end Value

structure Value where
  kind : Value.Kind
  unit : Dimension
deriving DecidableEq

namespace Value

def ofDecimal (n : Decimal) : Value := ⟨.number n, .one⟩

/-- One of a base unit. -/
def ofUnit (name : String) : Value := ⟨.number 1, .base name⟩

def ofFunction (name : String) : Value := ⟨.function name, .one⟩

def number? (v : Value) : Option Decimal :=
  match v.kind with
  | .number n => some n
  | _ => none

/-- The kind, and the unit of a value that has one. -/
def text (v : Value) : String :=
  if v.unit.isOne then v.kind.text else v.kind.text ++ " " ++ v.unit.text

def same (v w : Value) : Bool := v.kind.same w.kind && v.unit = w.unit

end Value

end UnitCalc
