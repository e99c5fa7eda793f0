import UnitCalc.State.Basic
import UnitCalc.Value.Arithmetic

/-! Evaluation of expressions. Calls may nest to a fixed depth. The evaluator of function bodies
is a parameter of the evaluator of one expression, and there is none at the depth limit, so that
evaluation is a recursion on the depth that is left around a recursion on the expression. -/

namespace UnitCalc.State

/-- The parameters of the function being evaluated, with the values of its arguments. -/
abbrev Scope := List (String × Value)

/-- How deeply calls may nest. -/
def maxCallDepth : Nat := 256

def lookupIn (s : State) (scope : Scope) (name : String) : Option Value :=
  (scope.lookup name).or (s.lookup name)

/-- The value of a name. A name that is not defined may still be a prefixed one. -/
def evalName (s : State) (scope : Scope) (name : String) : Except Fault Value :=
  match s.lookupIn scope name with
  | some v => .ok v
  | none =>
    match SiPrefix.split? name with
    | none => .error (.undefinedName name)
    | some (si, base) =>
      match s.lookupIn scope base with
      | some v => v.applySiPrefix si
      | none => .error (.undefinedName name)

/-- The function that a value names. -/
def callable (s : State) (callee : Value) : Except Fault (String × Function) :=
  match callee.kind with
  | .function name =>
    match s.functions.find? name with
    | some f => .ok (name, f)
    | none => .error (.undefinedName name)
  | _ => .error (.notCallable callee)

/-- The function that a value names, if it takes `count` arguments. -/
def callableWith (s : State) (callee : Value) (count : Nat) : Except Fault Function := do
  let (name, f) ← s.callable callee
  if f.params.length = count then .ok f
  else .error (.arityMismatch name f.params.length count)

/-- The scope of a function body. The parameters are bound one after the other, so that the last one
of a name counts. -/
def bindArguments {α : Type} (params : List String) (values : List α) : List (String × α) :=
  (params.zip values).reverse

/-- How a function body is evaluated, while the depth limit allows it. -/
abbrev Invoke := Option (Scope → Expr → Except EvalError Value)

mutual
def evalWith (s : State) (invoke : Invoke) (scope : Scope) : Expr → Except EvalError Value
  | .number n _ => .ok (.ofDecimal n)
  | .name id => locate id.span (s.evalName scope id.name)
  | .call callee args span => do
    let f ← locate callee.span (s.evalName scope callee.name)
    let f ← locate span (s.callableWith f args.length)
    match invoke with
    | none => .error ⟨.callDepthExceeded, span⟩
    | some evalBody => do
      let values ← s.evalAllWith invoke scope args
      evalBody (bindArguments f.params values) f.body
  | .signed sign e span => do
    let v ← s.evalWith invoke scope e
    locate span (v.applySign sign)
  | .binary op l r span => do
    let lhs ← s.evalWith invoke scope l
    let rhs ← s.evalWith invoke scope r
    locate span (lhs.operate s.precision op rhs)
  | .unitOf e _ => do
    let v ← s.evalWith invoke scope e
    .ok ⟨.number 1, v.unit⟩
  | .paren e _ => s.evalWith invoke scope e

def evalAllWith (s : State) (invoke : Invoke) (scope : Scope) :
    List Expr → Except EvalError (List Value)
  | [] => .ok []
  | e :: es => do
    let v ← s.evalWith invoke scope e
    let vs ← s.evalAllWith invoke scope es
    .ok (v :: vs)
end

/-- Evaluation with `depth` nested calls left. -/
def evalAt (s : State) : (depth : Nat) → Scope → Expr → Except EvalError Value
  | 0 => s.evalWith none
  | depth + 1 => s.evalWith (some (s.evalAt depth))

def eval (s : State) (e : Expr) : Except EvalError Value := s.evalAt maxCallDepth [] e

end UnitCalc.State
