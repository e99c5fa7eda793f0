import UnitCalc.State.Eval

/-! Running lines. A line either fails and changes nothing, or gives an outcome and at most one
new declaration. -/

namespace UnitCalc

/-- What a line gives: nothing, a value, or a printed expression with its value. -/
inductive Outcome where
  | empty
  | value (v : Value)
  | printed (e : Expr) (v : Value)
deriving DecidableEq

namespace State

/-- Decides what a line means, given the names that are defined. -/
def resolve (s : State) : Line → Option Statement
  | .blank => none
  | .unit name span => some (.declareUnit name span)
  | .binding b => some (if s.isDefined b.name.name then b.asEquation else b.asDeclaration)
  | .print e span => some (.print e span)
  | .expr e => some (.eval e)

def execute (s : State) : Statement → Except EvalError (State × Outcome)
  | .declareUnit name span =>
    if s.units.contains name.name then .error ⟨.unitRedeclared name.name, span⟩
    else .ok ({ s with units := s.units.insert name.name () }, .empty)
  | .declareVariable name rhs span => do
    let v ← s.eval rhs
    if s.vars.contains name.name then .error ⟨.variableRedefined name.name, span⟩
    else .ok ({ s with vars := s.vars.insert name.name v }, .value v)
  | .declareFunction name params rhs span =>
    if s.functions.contains name.name then .error ⟨.functionRedefined name.name, span⟩
    else
      let f : Function := ⟨params.map (·.name), rhs⟩
      .ok ({ s with functions := s.functions.insert name.name f }, .empty)
  | .print e _ => do
    let v ← s.eval e
    .ok (s, .printed e v)
  | .eval e => do
    let v ← s.eval e
    .ok (s, .value v)

def runLine (s : State) (line : Line) : Except EvalError (State × Outcome) :=
  match s.resolve line with
  | none => .ok (s, .empty)
  | some statement => s.execute statement

end State

end UnitCalc
