import UnitCalc.Decimal.Text
import UnitCalc.Expr.Operator

/-! Expressions. Every node carries the span of the text it was read from. Two operands that stand
next to each other are a product like any other. -/

namespace UnitCalc

structure Ident where
  name : String
  span : Span
deriving DecidableEq, Repr

inductive Expr where
  | number (value : Decimal) (span : Span)
  /-- A name, which may turn out to be a prefixed one. -/
  | name (id : Ident)
  | call (callee : Ident) (args : List Expr) (span : Span)
  | signed (sign : Sign) (operand : Expr) (span : Span)
  | binary (op : Operator) (lhs rhs : Expr) (span : Span)
  /-- The unit of an expression, written `[e]`. -/
  | unitOf (inner : Expr) (span : Span)
  | paren (inner : Expr) (span : Span)
deriving Repr

/-- The identifier that a token writes. -/
def Token.ident (t : Token) : Ident := ⟨t.lexeme, t.span⟩

namespace Expr

/-! ### Equality -/

mutual
def beq : Expr → Expr → Bool
  | number d s, number d' s' => d = d' && s = s'
  | name id, name id' => id = id'
  | call f args s, call f' args' s' => f = f' && beqList args args' && s = s'
  | signed sign e s, signed sign' e' s' => sign = sign' && beq e e' && s = s'
  | binary op l r s, binary op' l' r' s' => op = op' && beq l l' && beq r r' && s = s'
  | unitOf e s, unitOf e' s' => beq e e' && s = s'
  | paren e s, paren e' s' => beq e e' && s = s'
  | _, _ => false

def beqList : List Expr → List Expr → Bool
  | [], [] => true
  | e :: es, e' :: es' => beq e e' && beqList es es'
  | _, _ => false
end

mutual
theorem beq_iff : ∀ a b : Expr, beq a b = true ↔ a = b
  | number d s, b => by cases b <;> simp [beq]
  | name id, b => by cases b <;> simp [beq]
  | call f args s, b => by cases b <;> simp [beq, beqList_iff args, and_assoc]
  | signed sign e s, b => by cases b <;> simp [beq, beq_iff e, and_assoc]
  | binary op l r s, b => by cases b <;> simp [beq, beq_iff l, beq_iff r, and_assoc]
  | unitOf e s, b => by cases b <;> simp [beq, beq_iff e]
  | paren e s, b => by cases b <;> simp [beq, beq_iff e]

theorem beqList_iff : ∀ as bs : List Expr, beqList as bs = true ↔ as = bs
  | [], bs => by cases bs <;> simp [beqList]
  | a :: as, bs => by cases bs <;> simp [beqList, beq_iff a, beqList_iff as]
end

instance : DecidableEq Expr := fun a b => decidable_of_iff _ (beq_iff a b)

/-! ### Parts -/

def span : Expr → Span
  | number _ s | call _ _ s | signed _ _ s | binary _ _ _ s | unitOf _ s | paren _ s => s
  | name id => id.span

/-- An operation on two expressions, which reaches from the one to the other. -/
def combine (op : Operator) (lhs rhs : Expr) : Expr :=
  .binary op lhs rhs (lhs.span.merge rhs.span)

def asName? : Expr → Option String
  | name id => some id.name
  | _ => none

/-! ### Text -/

mutual
/-- The expression as written, with single blanks around the operators other than `^`. -/
def text : Expr → String
  | number d _ => d.plain
  | name id => id.name
  | call f args _ => f.name ++ "(" ++ argsText args ++ ")"
  | signed s e _ => s.symbol ++ e.text
  | binary .pow l r _ => l.text ++ "^" ++ r.text
  | binary op l r _ => l.text ++ " " ++ op.symbol ++ " " ++ r.text
  | unitOf e _ => "[" ++ e.text ++ "]"
  | paren e _ => "(" ++ e.text ++ ")"

def argsText : List Expr → String
  | [] => ""
  | [e] => e.text
  | e :: es => e.text ++ ", " ++ argsText es
end

end Expr

end UnitCalc
