import UnitCalc.Decimal.Arithmetic
import UnitCalc.EvalError

/-! Operations on values. The unit of a result is settled before its kind, so that a fault of
units comes before any other. -/

namespace UnitCalc.Value

/-- The largest magnitude of an exponent. -/
def maxExponent : Nat := 100000

/-- The magnitude of a 64-bit integer as a 64-bit integer. The smallest integer has none that fits,
and the result wraps around to that integer itself. -/
def wrappedMagnitude (e : Int) : Int := if e = -9223372036854775808 then e else e.natAbs

/-- The exponent of `lhs ^ rhs`: a 64-bit integer of moderate size. -/
def integerExponent (lhs rhs : Value) : Except Fault Int :=
  match rhs.kind with
  | .number n =>
    if n.isInteger then
      if exponentFits n.truncate ∧ wrappedMagnitude n.truncate ≤ maxExponent then .ok n.truncate
      else .error (.exponentTooLarge n)
    else .error (.invalidPower lhs.unit rhs.kind)
  | _ => .error (.invalidPower lhs.unit rhs.kind)

def orOutOfRange (d : Option Dimension) : Except Fault Dimension :=
  match d with
  | some d => .ok d
  | none => .error .unitExponentOutOfRange

/-- The unit of `lhs op rhs`. -/
def operationUnit (op : Operator) (lhs rhs : Value) : Except Fault Dimension :=
  match op with
  | .mul => orOutOfRange (lhs.unit.mul rhs.unit)
  | .div => orOutOfRange (lhs.unit.div rhs.unit)
  | .add | .sub | .mod =>
    if lhs.unit = rhs.unit then .ok lhs.unit
    else .error (.incompatibleUnits op lhs.unit rhs.unit)
  | .pow =>
    if !rhs.unit.isOne then .error (.incompatibleUnits op lhs.unit rhs.unit)
    else if lhs.unit.isOne then .ok .one
    else do orOutOfRange (lhs.unit.pow (← integerExponent lhs rhs))
  | .eq | .ne | .lt | .le | .gt | .ge =>
    if lhs.unit = rhs.unit then .ok .one
    else .error (.incompatibleUnits op lhs.unit rhs.unit)

/-- The power of a number. It is refused from the start when the exact power could exceed the
limit of digits; a negative exponent divides at the given precision. -/
def power (precision : Nat) (base : Decimal) (e : Int) : Except Fault Decimal :=
  if Decimal.maxExtent < base.extent * e.natAbs then .error .numberTooLarge
  else
    let p := base.power e.natAbs
    if 0 ≤ e then .ok p
    else if p.isZero then .error .divisionByZero
    else .ok ((Decimal.div 1 p).withDigits precision)

def limited (n : Decimal) : Except Fault Kind :=
  if n.withinLimit then .ok (.number n) else .error .numberTooLarge

/-- An operation on the numbers `a` of `lhs` and `b` of `rhs`. -/
def numberOperation (precision : Nat) (op : Operator) (lhs rhs : Value) (a b : Decimal) :
    Except Fault Kind :=
  match op with
  | .add => limited (a.add b)
  | .sub => limited (a.sub b)
  | .mul => limited (a.mul b)
  | .div =>
    if b.isZero then .error .divisionByZero else limited ((a.div b).withDigits precision)
  | .mod => if b.isZero then .error .divisionByZero else limited (a.rem b)
  | .pow => do limited (← power precision a (← integerExponent lhs rhs))
  | .eq => .ok (.bool (a.compare b = .eq))
  | .ne => .ok (.bool (a.compare b ≠ .eq))
  | .lt => .ok (.bool (a.compare b = .lt))
  | .le => .ok (.bool (a.compare b ≠ .gt))
  | .gt => .ok (.bool (a.compare b = .gt))
  | .ge => .ok (.bool (a.compare b ≠ .lt))

/-- Numbers take every operator, truth values only `=` and `!=`. -/
def operationKind (precision : Nat) (op : Operator) (lhs rhs : Value) : Except Fault Kind :=
  match lhs.kind, rhs.kind, op with
  | .number a, .number b, op => numberOperation precision op lhs rhs a b
  | .bool a, .bool b, .eq => .ok (.bool (a = b))
  | .bool a, .bool b, .ne => .ok (.bool (a ≠ b))
  | _, _, _ => .error (.invalidOperator op lhs rhs)

def operate (precision : Nat) (op : Operator) (lhs rhs : Value) : Except Fault Value := do
  let unit ← operationUnit op lhs rhs
  let kind ← operationKind precision op lhs rhs
  .ok ⟨kind, unit⟩

def applySign (sign : Sign) (v : Value) : Except Fault Value :=
  match v.kind, sign with
  | .number n, .plus => .ok ⟨.number n, v.unit⟩
  | .number n, .minus => .ok ⟨.number n.neg, v.unit⟩
  | _, _ => .error (.invalidSign sign v)

def applySiPrefix (si : SiPrefix) (v : Value) : Except Fault Value :=
  match v.kind with
  | .number n => .ok ⟨.number (n.shift si.exponent), v.unit⟩
  | _ => .error (.invalidSiPrefix si v)

end UnitCalc.Value
