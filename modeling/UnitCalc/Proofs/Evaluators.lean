import Mathlib.Data.List.Forall2
import UnitCalc.Proofs.Except
import UnitCalc.State.Eval

/-! Comparing evaluators. An evaluator of expressions is known by what it makes of each kind of node
from what it makes of the parts. If two of them treat the nodes alike, they treat all expressions
alike. What that means is left open: the same results, results that differ by the places of errors
or by factors, results that agree but for certain errors. A property of a single evaluator is an
instance too, in which it is compared with itself. -/

namespace UnitCalc

/-- The expressions that an expression is made of. -/
def Expr.parts : Expr → List Expr
  | number _ _ | name _ => []
  | call _ args _ => args
  | signed _ e _ | unitOf e _ | paren e _ => [e]
  | binary _ l r _ => [l, r]

/-! ### Evaluators -/

/-- A way to evaluate expressions: results of nodes from the values of their parts, and evaluation
in the order of the parts, up to the first error. A call is settled before its arguments are looked
at, and is then a function of their values. -/
structure Evaluator (ε α : Type) where
  number : Decimal → Except ε α
  name : Ident → Except ε α
  call : Ident → (count : Nat) → Span → Except ε (List α → Except ε α)
  signed : Sign → Span → α → Except ε α
  binary : Operator → Span → α → α → Except ε α
  unitOf : α → Except ε α
  eval : Expr → Except ε α
  evalAll : List Expr → Except ε (List α)
  eval_number : ∀ n span, eval (.number n span) = number n
  eval_name : ∀ id, eval (.name id) = name id
  eval_call : ∀ callee args span, eval (.call callee args span) =
    (call callee args.length span).bind fun body => (evalAll args).bind body
  eval_signed : ∀ sign e span, eval (.signed sign e span) = (eval e).bind (signed sign span)
  eval_binary : ∀ op l r span, eval (.binary op l r span) =
    (eval l).bind fun lhs => (eval r).bind fun rhs => binary op span lhs rhs
  eval_unitOf : ∀ e span, eval (.unitOf e span) = (eval e).bind unitOf
  eval_paren : ∀ e span, eval (.paren e span) = eval e
  evalAll_nil : evalAll [] = .ok []
  evalAll_cons : ∀ e es, evalAll (e :: es) =
    (eval e).bind fun v => (evalAll es).bind fun vs => .ok (v :: vs)

variable {ε ε' α α' : Type}

/-- Two evaluators treat the nodes of certain expressions alike: they relate the results of nodes
whose parts have related values. -/
structure Alike (C : Expr → Prop) (E : ErrorMatch ε ε') (R : α → α' → Prop) (m : Evaluator ε α)
    (m' : Evaluator ε' α') : Prop where
  parts : ∀ e, C e → ∀ part ∈ e.parts, C part
  number : ∀ n, Related E R (m.number n) (m'.number n)
  name : ∀ id, C (.name id) → Related E R (m.name id) (m'.name id)
  call : ∀ callee args span, C (.call callee args span) →
    Related E (fun body body' => ∀ vs vs', List.Forall₂ R vs vs' →
      Related E R (body vs) (body' vs')) (m.call callee args.length span)
      (m'.call callee args.length span)
  signed : ∀ sign e span, C (.signed sign e span) → ∀ v v', R v v' →
    Related E R (m.signed sign span v) (m'.signed sign span v')
  binary : ∀ op l r span, C (.binary op l r span) → ∀ lhs lhs' rhs rhs', R lhs lhs' → R rhs rhs' →
    m.eval r = .ok rhs → m'.eval r = .ok rhs' →
    Related E R (m.binary op span lhs rhs) (m'.binary op span lhs' rhs')
  unitOf : ∀ e span, C (.unitOf e span) → ∀ v v', R v v' → Related E R (m.unitOf v) (m'.unitOf v')

section

variable {C : Expr → Prop} {E : ErrorMatch ε ε'} {R : α → α' → Prop} {m : Evaluator ε α}
  {m' : Evaluator ε' α'}

mutual
/-- Evaluators that treat nodes alike have related results. -/
theorem Alike.eval (h : Alike C E R m m') (e : Expr) (he : C e) :
    Related E R (m.eval e) (m'.eval e) := by
  have hparts := h.parts e he
  match e with
  | .number n span =>
    rw [m.eval_number, m'.eval_number]
    exact h.number n
  | .name id =>
    rw [m.eval_name, m'.eval_name]
    exact h.name id he
  | .call callee args span =>
    rw [m.eval_call, m'.eval_call]
    refine (h.call callee args span he).bind fun body body' _ _ hbody => ?_
    exact (h.evalAll args hparts).bind fun vs vs' _ _ hvs => hbody vs vs' hvs
  | .signed sign e span =>
    rw [m.eval_signed, m'.eval_signed]
    have hpart := hparts e (List.mem_singleton_self e)
    exact (h.eval e hpart).bind fun v v' _ _ hv => h.signed sign e span he v v' hv
  | .binary op l r span =>
    rw [m.eval_binary, m'.eval_binary]
    obtain ⟨hl, hr⟩ := List.forall_mem_cons.1 hparts
    have hpart := hr r (List.mem_singleton_self r)
    refine (h.eval l hl).bind fun lhs lhs' _ _ hlhs => ?_
    refine (h.eval r hpart).bind fun rhs rhs' hx hy hrhs => ?_
    exact h.binary op l r span he lhs lhs' rhs rhs' hlhs hrhs hx hy
  | .unitOf e span =>
    rw [m.eval_unitOf, m'.eval_unitOf]
    have hpart := hparts e (List.mem_singleton_self e)
    exact (h.eval e hpart).bind fun v v' _ _ hv => h.unitOf e span he v v' hv
  | .paren e span =>
    rw [m.eval_paren, m'.eval_paren]
    exact h.eval e (hparts e (List.mem_singleton_self e))

theorem Alike.evalAll (h : Alike C E R m m') (es : List Expr) (hes : ∀ e ∈ es, C e) :
    Related E (List.Forall₂ R) (m.evalAll es) (m'.evalAll es) := by
  match es with
  | [] =>
    rw [m.evalAll_nil, m'.evalAll_nil]
    exact .ok .nil
  | e :: es =>
    obtain ⟨he, hes⟩ := List.forall_mem_cons.1 hes
    rw [m.evalAll_cons, m'.evalAll_cons]
    refine (h.eval e he).bind fun v v' _ _ hv => ?_
    exact (h.evalAll es hes).bind fun vs vs' _ _ hvs => .ok (.cons hv hvs)
end

end

/-! ### One evaluator -/

/-- Lists of the same values with a property. -/
theorem forall₂_same {P : α → Prop} {as bs : List α} :
    List.Forall₂ (fun a b => P a ∧ a = b) as bs ↔ (∀ a ∈ as, P a) ∧ as = bs := by
  rw [List.forall₂_and_left, List.forall₂_eq_eq_eq]

/-- An evaluator preserves properties of values and of errors, if nodes whose parts have values with
the one have results with the one or the other. -/
abbrev Evaluator.Preserves (m : Evaluator ε α) (C : Expr → Prop) (P : α → Prop) (Q : ε → Prop) :
    Prop :=
  Alike C (.same Q) (fun v w => P v ∧ v = w) m m

namespace Evaluator.Preserves

variable {C : Expr → Prop} {P : α → Prop} {Q : ε → Prop} {m : Evaluator ε α}

theorem eval (h : m.Preserves C P Q) (e : Expr) (he : C e) : Meets P Q (m.eval e) :=
  (related_same.1 (Alike.eval h e he)).1

theorem evalAll (h : m.Preserves C P Q) (es : List Expr) (hes : ∀ e ∈ es, C e) :
    Meets (fun vs => ∀ v ∈ vs, P v) Q (m.evalAll es) := by
  have hall := Alike.evalAll h es hes
  generalize m.evalAll es = x at hall
  cases hall with
  | ok hvs => exact (forall₂_same.1 hvs).1
  | error herr => exact herr.1
  | left herr => exact herr.elim
  | right _ herr => exact herr.elim

end Evaluator.Preserves

/-! ### The evaluator of a state -/

namespace State

theorem evalAt_number (s : State) (depth : Nat) (scope : Scope) (d : Decimal) (span : Span) :
    s.evalAt depth scope (.number d span) = .ok (.ofDecimal d) := by
  cases depth <;> rfl

theorem evalAt_name (s : State) (depth : Nat) (scope : Scope) (id : Ident) :
    s.evalAt depth scope (.name id) = locate id.span (s.evalName scope id.name) := by
  cases depth <;> rfl

theorem evalAt_signed (s : State) (depth : Nat) (scope : Scope) (sign : Sign) (e : Expr)
    (span : Span) : s.evalAt depth scope (.signed sign e span) =
      (s.evalAt depth scope e).bind fun v => locate span (v.applySign sign) := by
  cases depth <;> rfl

theorem evalAt_binary (s : State) (depth : Nat) (scope : Scope) (op : Operator) (l r : Expr)
    (span : Span) : s.evalAt depth scope (.binary op l r span) =
      (s.evalAt depth scope l).bind fun lhs => (s.evalAt depth scope r).bind fun rhs =>
        locate span (lhs.operate s.precision op rhs) := by
  cases depth <;> rfl

theorem evalAt_unitOf (s : State) (depth : Nat) (scope : Scope) (e : Expr) (span : Span) :
    s.evalAt depth scope (.unitOf e span) =
      (s.evalAt depth scope e).bind fun v => .ok ⟨.number 1, v.unit⟩ := by
  cases depth <;> rfl

theorem evalAt_paren (s : State) (depth : Nat) (scope : Scope) (e : Expr) (span : Span) :
    s.evalAt depth scope (.paren e span) = s.evalAt depth scope e := by
  cases depth <;> rfl

/-- The function that a call asks for. -/
def called (s : State) (scope : Scope) (callee : Ident) (count : Nat) (span : Span) :
    Except EvalError Function :=
  (locate callee.span (s.evalName scope callee.name)).bind fun f =>
    locate span (s.callableWith f count)

theorem evalWith_call (s : State) (invoke : Invoke) (scope : Scope) (callee : Ident)
    (args : List Expr) (span : Span) :
    s.evalWith invoke scope (.call callee args span) =
      (s.called scope callee args.length span).bind fun g =>
        match invoke with
        | none => .error ⟨.callDepthExceeded, span⟩
        | some evalBody => (s.evalAllWith invoke scope args).bind fun values =>
            evalBody (bindArguments g.params values) g.body := by
  rw [evalWith, called]
  cases locate callee.span (s.evalName scope callee.name) with
  | error err => rfl
  | ok f => rfl

/-- How bodies are evaluated with `depth` nested calls left. -/
def bodies (s : State) : (depth : Nat) → Invoke
  | 0 => none
  | depth + 1 => some (s.evalAt depth)

/-- What calling a function makes of its arguments, with `depth` nested calls left. -/
def enter (s : State) (span : Span) (g : Function) :
    (depth : Nat) → Except EvalError (List Value → Except EvalError Value)
  | 0 => .error ⟨.callDepthExceeded, span⟩
  | depth + 1 => .ok fun values => s.evalAt depth (bindArguments g.params values) g.body

/-- Evaluation in a state with `depth` nested calls left. -/
def evaluator (s : State) (depth : Nat) (scope : Scope) : Evaluator EvalError Value where
  number n := .ok (.ofDecimal n)
  name id := locate id.span (s.evalName scope id.name)
  call callee count span := (s.called scope callee count span).bind fun g => s.enter span g depth
  signed sign span v := locate span (v.applySign sign)
  binary op span lhs rhs := locate span (lhs.operate s.precision op rhs)
  unitOf v := .ok ⟨.number 1, v.unit⟩
  eval := s.evalAt depth scope
  evalAll := s.evalAllWith (s.bodies depth) scope
  eval_number := s.evalAt_number depth scope
  eval_name := s.evalAt_name depth scope
  eval_call callee args span := by
    have heval : s.evalAt depth = s.evalWith (s.bodies depth) := by cases depth <;> rfl
    rw [heval, evalWith_call]
    cases s.called scope callee args.length span with
    | error err => rfl
    | ok g => cases depth <;> rfl
  eval_signed := s.evalAt_signed depth scope
  eval_binary := s.evalAt_binary depth scope
  eval_unitOf := s.evalAt_unitOf depth scope
  eval_paren := s.evalAt_paren depth scope
  evalAll_nil := by rw [evalAllWith]
  evalAll_cons e es := by cases depth <;> rfl

end State

end UnitCalc
