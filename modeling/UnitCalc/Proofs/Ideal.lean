import UnitCalc.Proofs.Evaluators
import UnitCalc.Proofs.Rational

/-! An ideal calculator. Its numbers are rational and its units have integer exponents, neither of
them bounded, and its quotients are not cut to any number of digits. Names mean what they mean in a
state, operands are evaluated in the same order, and calls nest to the same depth. Every state,
expression and value has an ideal counterpart, in which nothing is left of the pairs that its
decimals are kept as. -/

namespace UnitCalc

namespace Ideal

/-- A unit: the exponent of every base unit. -/
abbrev Exponents := String → ℤ

inductive Kind where
  | number (q : ℚ)
  | bool (b : Bool)
  | function (name : String)

structure Value where
  kind : Kind
  unit : Exponents

/-- Why evaluation fails when nothing is bounded but the depth of calls. -/
inductive Fault where
  | undefinedName (name : String)
  | invalidSign (sign : Sign) (operand : Value)
  | invalidOperator (op : Operator) (lhs rhs : Value)
  | invalidSiPrefix (si : SiPrefix) (operand : Value)
  | divisionByZero
  | notCallable (callee : Value)
  | arityMismatch (name : String) (expected found : Nat)
  | callDepthExceeded
  | incompatibleUnits (op : Operator) (lhs rhs : Exponents)
  | invalidPower (unit : Exponents) (exponent : Kind)

structure EvalError where
  fault : Fault
  span : Span

inductive Expr where
  | number (q : ℚ) (span : Span)
  | name (id : Ident)
  | call (callee : Ident) (args : List Expr) (span : Span)
  | signed (sign : Sign) (operand : Expr) (span : Span)
  | binary (op : Operator) (lhs rhs : Expr) (span : Span)
  | unitOf (inner : Expr) (span : Span)
  | paren (inner : Expr) (span : Span)

structure Function where
  params : List String
  body : Expr

structure State where
  units : String → Bool
  vars : String → Option Value
  functions : String → Option Function

/-! ### Operations -/

namespace Value

def applySign (sign : Sign) (v : Value) : Except Fault Value :=
  match v.kind, sign with
  | .number q, .plus => .ok ⟨.number q, v.unit⟩
  | .number q, .minus => .ok ⟨.number (-q), v.unit⟩
  | _, _ => .error (.invalidSign sign v)

def applySiPrefix (si : SiPrefix) (v : Value) : Except Fault Value :=
  match v.kind with
  | .number q => .ok ⟨.number (q * 10 ^ si.exponent), v.unit⟩
  | _ => .error (.invalidSiPrefix si v)

/-- The exponent of `lhs ^ rhs`: an integer. -/
def integerExponent (lhs rhs : Value) : Except Fault ℤ :=
  match rhs.kind with
  | .number q => if q.den = 1 then .ok q.num else .error (.invalidPower lhs.unit rhs.kind)
  | _ => .error (.invalidPower lhs.unit rhs.kind)

open Classical in
/-- The unit of `lhs op rhs`. -/
noncomputable def operationUnit (op : Operator) (lhs rhs : Value) : Except Fault Exponents :=
  match op with
  | .mul => .ok (lhs.unit + rhs.unit)
  | .div => .ok (lhs.unit - rhs.unit)
  | .add | .sub | .mod =>
    if lhs.unit = rhs.unit then .ok lhs.unit
    else .error (.incompatibleUnits op lhs.unit rhs.unit)
  | .pow =>
    if rhs.unit ≠ 0 then .error (.incompatibleUnits op lhs.unit rhs.unit)
    else if lhs.unit = 0 then .ok 0
    else do
      let k ← integerExponent lhs rhs
      .ok (k • lhs.unit)
  | .eq | .ne | .lt | .le | .gt | .ge =>
    if lhs.unit = rhs.unit then .ok 0
    else .error (.incompatibleUnits op lhs.unit rhs.unit)

/-- An operation on the numbers `a` of `lhs` and `b` of `rhs`. -/
def numberOperation (op : Operator) (lhs rhs : Value) (a b : ℚ) : Except Fault Kind :=
  match op with
  | .add => .ok (.number (a + b))
  | .sub => .ok (.number (a - b))
  | .mul => .ok (.number (a * b))
  | .div => if b = 0 then .error .divisionByZero else .ok (.number (a / b))
  | .mod => if b = 0 then .error .divisionByZero else .ok (.number (remainder a b))
  | .pow => do
    let k ← integerExponent lhs rhs
    if a = 0 ∧ k < 0 then .error .divisionByZero else .ok (.number (a ^ k))
  | .eq => .ok (.bool (a = b))
  | .ne => .ok (.bool (a ≠ b))
  | .lt => .ok (.bool (a < b))
  | .le => .ok (.bool (a ≤ b))
  | .gt => .ok (.bool (a > b))
  | .ge => .ok (.bool (a ≥ b))

def operationKind (op : Operator) (lhs rhs : Value) : Except Fault Kind :=
  match lhs.kind, rhs.kind, op with
  | .number a, .number b, op => numberOperation op lhs rhs a b
  | .bool a, .bool b, .eq => .ok (.bool (a = b))
  | .bool a, .bool b, .ne => .ok (.bool (a ≠ b))
  | _, _, _ => .error (.invalidOperator op lhs rhs)

noncomputable def operate (op : Operator) (lhs rhs : Value) : Except Fault Value := do
  let unit ← operationUnit op lhs rhs
  let kind ← operationKind op lhs rhs
  .ok ⟨kind, unit⟩

end Value

/-! ### Evaluation -/

/-- Gives a fault the place where it arose. -/
def locate {α : Type} (span : Span) : Except Fault α → Except EvalError α
  | .ok a => .ok a
  | .error f => .error ⟨f, span⟩

namespace State

/-- The parameters of the function being evaluated, with the values of its arguments. -/
abbrev Scope := List (String × Value)

/-- What a name stands for: a parameter, else a variable, else a unit, else a function. -/
def lookupIn (s : State) (scope : Scope) (name : String) : Option Value :=
  match scope.lookup name, s.vars name with
  | some v, _ => some v
  | none, some v => some v
  | none, none =>
    if s.units name then some ⟨.number 1, Pi.single name 1⟩
    else (s.functions name).map fun _ => ⟨.function name, 0⟩

def evalName (s : State) (scope : Scope) (name : String) : Except Fault Value :=
  match s.lookupIn scope name with
  | some v => .ok v
  | none =>
    match SiPrefix.split? name with
    | none => .error (.undefinedName name)
    | some (si, base) =>
      match s.lookupIn scope base with
      | some v => v.applySiPrefix si
      | none => .error (.undefinedName name)

/-- The function that a value names, if it takes `count` arguments. -/
def callableWith (s : State) (callee : Value) (count : Nat) : Except Fault Function :=
  match callee.kind with
  | .function name =>
    match s.functions name with
    | some f =>
      if f.params.length = count then .ok f
      else .error (.arityMismatch name f.params.length count)
    | none => .error (.undefinedName name)
  | _ => .error (.notCallable callee)

/-- How a function body is evaluated, while the depth limit allows it. -/
abbrev Invoke := Option (Scope → Expr → Except EvalError Value)

mutual
noncomputable def evalWith (s : State) (invoke : Invoke) (scope : Scope) :
    Expr → Except EvalError Value
  | .number q _ => .ok ⟨.number q, 0⟩
  | .name id => locate id.span (s.evalName scope id.name)
  | .call callee args span => do
    let f ← locate callee.span (s.evalName scope callee.name)
    let f ← locate span (s.callableWith f args.length)
    match invoke with
    | none => .error ⟨.callDepthExceeded, span⟩
    | some evalBody => do
      let values ← s.evalAllWith invoke scope args
      evalBody (State.bindArguments f.params values) f.body
  | .signed sign e span => do
    let v ← s.evalWith invoke scope e
    locate span (v.applySign sign)
  | .binary op l r span => do
    let lhs ← s.evalWith invoke scope l
    let rhs ← s.evalWith invoke scope r
    locate span (lhs.operate op rhs)
  | .unitOf e _ => do
    let v ← s.evalWith invoke scope e
    .ok ⟨.number 1, v.unit⟩
  | .paren e _ => s.evalWith invoke scope e

noncomputable def evalAllWith (s : State) (invoke : Invoke) (scope : Scope) :
    List Expr → Except EvalError (List Value)
  | [] => .ok []
  | e :: es => do
    let v ← s.evalWith invoke scope e
    let vs ← s.evalAllWith invoke scope es
    .ok (v :: vs)
end

/-- Evaluation with `depth` nested calls left. -/
noncomputable def evalAt (s : State) : (depth : Nat) → Scope → Expr → Except EvalError Value
  | 0 => s.evalWith none
  | depth + 1 => s.evalWith (some (s.evalAt depth))

noncomputable def eval (s : State) (e : Expr) : Except EvalError Value :=
  s.evalAt State.maxCallDepth [] e

end State

end Ideal

/-! ### Counterparts -/

def Value.Kind.ideal : Value.Kind → Ideal.Kind
  | number n => .number n.toRat
  | bool b => .bool b
  | function name => .function name

def Value.ideal (v : Value) : Ideal.Value := ⟨v.kind.ideal, v.unit.exponent⟩

mutual
def Expr.ideal : Expr → Ideal.Expr
  | .number n span => .number n.toRat span
  | .name id => .name id
  | .call callee args span => .call callee (Expr.idealAll args) span
  | .signed sign e span => .signed sign e.ideal span
  | .binary op l r span => .binary op l.ideal r.ideal span
  | .unitOf e span => .unitOf e.ideal span
  | .paren e span => .paren e.ideal span

def Expr.idealAll : List Expr → List Ideal.Expr
  | [] => []
  | e :: es => e.ideal :: Expr.idealAll es
end

def Function.ideal (f : Function) : Ideal.Function := ⟨f.params, f.body.ideal⟩

/-- The precision of a state has no counterpart. -/
def State.ideal (s : State) : Ideal.State where
  units := s.units.contains
  vars name := (s.vars.find? name).map Value.ideal
  functions name := (s.functions.find? name).map Function.ideal

/-- The faults that the ideal calculator knows. It has none of a limit, and none of declarations,
which evaluation does not make. -/
def Fault.ideal? : Fault → Option Ideal.Fault
  | undefinedName name => some (.undefinedName name)
  | invalidSign sign v => some (.invalidSign sign v.ideal)
  | invalidOperator op l r => some (.invalidOperator op l.ideal r.ideal)
  | invalidSiPrefix si v => some (.invalidSiPrefix si v.ideal)
  | divisionByZero => some .divisionByZero
  | notCallable v => some (.notCallable v.ideal)
  | arityMismatch name expected found => some (.arityMismatch name expected found)
  | callDepthExceeded => some .callDepthExceeded
  | incompatibleUnits op l r => some (.incompatibleUnits op l.exponent r.exponent)
  | invalidPower unit kind => some (.invalidPower unit.exponent kind.ideal)
  | exponentTooLarge _ | numberTooLarge | unitExponentOutOfRange => none
  | unitRedeclared _ | variableRedefined _ | functionRedefined _ => none

/-- The faults of a limit: too many digits, too large an exponent, or one of a unit that does not
fit. -/
def Fault.isLimit : Fault → Bool
  | exponentTooLarge _ | numberTooLarge | unitExponentOutOfRange => true
  | _ => false

/-- Values have the same counterpart when they are equal in value. -/
theorem Value.same_iff_ideal_eq (v w : Value) : v.same w = true ↔ v.ideal = w.ideal := by
  obtain ⟨kind, unit⟩ := v
  obtain ⟨kind', unit'⟩ := w
  have hkind : kind.same kind' = true ↔ kind.ideal = kind'.ideal := by
    cases kind <;> cases kind' <;> simp [Kind.same, Kind.ideal, Decimal.same_iff]
  have hunit : unit = unit' ↔ unit.exponent = unit'.exponent :=
    ⟨fun h => by rw [h], fun h => Dimension.ext_exponent (congrFun h)⟩
  rw [same, Bool.and_eq_true, decide_eq_true_iff, hkind, hunit, ideal, ideal,
    Ideal.Value.mk.injEq]

/-! ### The ideal evaluator -/

theorem Expr.length_idealAll (es : List Expr) : (Expr.idealAll es).length = es.length := by
  induction es with
  | nil => rfl
  | cons e es ih => rw [idealAll, List.length_cons, List.length_cons, ih]

namespace Ideal.State

/-- The function that a call asks for. -/
def called (s : Ideal.State) (scope : Scope) (callee : Ident) (count : Nat) (span : Span) :
    Except EvalError Function :=
  (locate callee.span (s.evalName scope callee.name)).bind fun f =>
    locate span (s.callableWith f count)

theorem evalWith_call (s : Ideal.State) (invoke : Invoke) (scope : Scope) (callee : Ident)
    (args : List Expr) (span : Span) :
    s.evalWith invoke scope (.call callee args span) =
      (s.called scope callee args.length span).bind fun g =>
        match invoke with
        | none => .error ⟨.callDepthExceeded, span⟩
        | some evalBody => (s.evalAllWith invoke scope args).bind fun values =>
            evalBody (State.bindArguments g.params values) g.body := by
  rw [evalWith, called]
  cases locate callee.span (s.evalName scope callee.name) with
  | error err => rfl
  | ok f => rfl

/-- How bodies are evaluated with `depth` nested calls left. -/
noncomputable def bodies (s : Ideal.State) : (depth : Nat) → Invoke
  | 0 => none
  | depth + 1 => some (s.evalAt depth)

/-- What calling a function makes of its arguments, with `depth` nested calls left. -/
noncomputable def enter (s : Ideal.State) (span : Span) (g : Function) :
    (depth : Nat) → Except EvalError (List Value → Except EvalError Value)
  | 0 => .error ⟨.callDepthExceeded, span⟩
  | depth + 1 => .ok fun values => s.evalAt depth (State.bindArguments g.params values) g.body

/-- Evaluation of the counterparts of expressions. -/
noncomputable def evaluator (s : Ideal.State) (depth : Nat) (scope : Scope) :
    Evaluator EvalError Value where
  number n := .ok ⟨.number n.toRat, 0⟩
  name id := locate id.span (s.evalName scope id.name)
  call callee count span := (s.called scope callee count span).bind fun g => s.enter span g depth
  signed sign span v := locate span (v.applySign sign)
  binary op span lhs rhs := locate span (lhs.operate op rhs)
  unitOf v := .ok ⟨.number 1, v.unit⟩
  eval e := s.evalAt depth scope e.ideal
  evalAll es := s.evalAllWith (s.bodies depth) scope (UnitCalc.Expr.idealAll es)
  eval_number n span := by cases depth <;> rfl
  eval_name id := by cases depth <;> rfl
  eval_call callee args span := by
    have heval : s.evalAt depth = s.evalWith (s.bodies depth) := by cases depth <;> rfl
    rw [UnitCalc.Expr.ideal, heval, evalWith_call, UnitCalc.Expr.length_idealAll]
    cases s.called scope callee args.length span with
    | error err => rfl
    | ok g => cases depth <;> rfl
  eval_signed sign e span := by cases depth <;> rfl
  eval_binary op l r span := by cases depth <;> rfl
  eval_unitOf e span := by cases depth <;> rfl
  eval_paren e span := by cases depth <;> rfl
  evalAll_nil := by rw [UnitCalc.Expr.idealAll, evalAllWith]
  evalAll_cons e es := by cases depth <;> rfl

end Ideal.State

end UnitCalc
