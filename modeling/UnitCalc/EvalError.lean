import UnitCalc.Expr.Basic
import UnitCalc.SiPrefix
import UnitCalc.Value.Basic

/-! Why evaluating a line fails. A fault is the reason; an evaluation error is a fault with the
place in the source where it arose. -/

namespace UnitCalc

inductive Fault where
  | undefinedName (name : String)
  | invalidSign (sign : Sign) (operand : Value)
  | invalidOperator (op : Operator) (lhs rhs : Value)
  | invalidSiPrefix (si : SiPrefix) (operand : Value)
  | divisionByZero
  | notCallable (callee : Value)
  | arityMismatch (name : String) (expected found : Nat)
  | callDepthExceeded
  | exponentTooLarge (exponent : Decimal)
  | numberTooLarge
  | incompatibleUnits (op : Operator) (lhs rhs : Dimension)
  | invalidPower (unit : Dimension) (exponent : Value.Kind)
  | unitExponentOutOfRange
  | unitRedeclared (name : String)
  | variableRedefined (name : String)
  | functionRedefined (name : String)
deriving DecidableEq

def Fault.message : Fault → String
  | undefinedName name => s!"undefined name: {name}"
  | invalidSign sign v => "invalid prefix operator '" ++ sign.symbol ++ "' on " ++ v.text
  | invalidOperator op l r =>
    "invalid operator '" ++ op.symbol ++ "' on " ++ l.text ++ " and " ++ r.text
  | invalidSiPrefix si v => "invalid SI prefix '" ++ si.symbol ++ "' on " ++ v.text
  | divisionByZero => "division by zero"
  | notCallable v => v.text ++ " is not a function"
  | arityMismatch name expected found =>
    s!"function {name} takes {expected} argument(s), {found} given"
  | callDepthExceeded => "maximum call depth exceeded"
  | exponentTooLarge e => "exponent " ++ e.full ++ " is too large"
  | numberTooLarge => s!"result has more than {Decimal.maxExtent} digits"
  | incompatibleUnits op l r =>
    "incompatible units (" ++ l.text ++ ") and (" ++ r.text ++ ") for operator '" ++ op.symbol ++
      "'"
  | invalidPower unit e => "invalid power on unit (" ++ unit.text ++ "): " ++ e.text
  | unitExponentOutOfRange => "unit exponent out of range"
  | unitRedeclared name => s!"unit redeclared: {name}"
  | variableRedefined name => s!"variable redefined: {name}"
  | functionRedefined name => s!"function redefined: {name}"

structure EvalError where
  fault : Fault
  span : Span
deriving DecidableEq

def EvalError.message (e : EvalError) : String := e.fault.message

/-- Gives a fault the place where it arose. -/
def locate {α : Type} (span : Span) : Except Fault α → Except EvalError α
  | .ok a => .ok a
  | .error f => .error ⟨f, span⟩

end UnitCalc
