import UnitCalc.Expr.Basic

/-! Lines of a program, and statements. A line is what is written. Whether `x = e` declares `x` or
compares it with `e` depends on whether `x` is defined by then, and a statement is a line with
that decided. -/

namespace UnitCalc

/-- What `name = rhs` says, or `name(a, b) = rhs` with parameters. -/
structure Binding where
  name : Ident
  params : Option (List Ident)
  rhs : Expr
  span : Span
deriving DecidableEq, Repr

inductive Line where
  | blank
  | unit (name : Ident) (span : Span)
  | binding (b : Binding)
  | print (e : Expr) (span : Span)
  | expr (e : Expr)
deriving DecidableEq, Repr

inductive Statement where
  | declareUnit (name : Ident) (span : Span)
  | declareVariable (name : Ident) (rhs : Expr) (span : Span)
  | declareFunction (name : Ident) (params : List Ident) (rhs : Expr) (span : Span)
  | print (e : Expr) (span : Span)
  | eval (e : Expr)
deriving DecidableEq, Repr

namespace Binding

def asDeclaration (b : Binding) : Statement :=
  match b.params with
  | none => .declareVariable b.name b.rhs b.span
  | some params => .declareFunction b.name params b.rhs b.span

/-- The left side as an expression; a call reaches to its last parameter. -/
def lhs (b : Binding) : Expr :=
  match b.params with
  | none => .name b.name
  | some params =>
    let last := (params.getLast?.map (·.span)).getD b.name.span
    .call b.name (params.map .name) (b.name.span.merge last)

def asEquation (b : Binding) : Statement := .eval (.combine .eq b.lhs b.rhs)

end Binding

/-! ### Text -/

def paramsText (params : List String) : String := "(" ++ ", ".intercalate params ++ ")"

def bindingText (name : Ident) (params : Option (List Ident)) (rhs : Expr) : String :=
  match params with
  | none => name.name ++ " = " ++ rhs.text
  | some params => name.name ++ paramsText (params.map (·.name)) ++ " = " ++ rhs.text

def Line.text : Line → String
  | blank => ""
  | unit name _ => "unit " ++ name.name
  | binding b => bindingText b.name b.params b.rhs
  | print e _ => "print " ++ e.text
  | expr e => e.text

def Statement.text : Statement → String
  | declareUnit name _ => "unit " ++ name.name
  | declareVariable name rhs _ => bindingText name none rhs
  | declareFunction name params rhs _ => bindingText name (some params) rhs
  | print e _ => "print " ++ e.text
  | eval e => e.text

def Statement.span : Statement → Span
  | declareUnit _ s | declareVariable _ _ s | declareFunction _ _ _ s | print _ s => s
  | eval e => e.span

end UnitCalc
