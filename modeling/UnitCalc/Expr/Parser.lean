import UnitCalc.Expr.Basic
import UnitCalc.ParseError

/-! Reading expressions from the tokens of a line. `stop` is the token that ends the line: it is
the one that an error points at when the tokens run out. Every reader gives back the tokens it
left, with the proof that they are fewer, by which the recursion ends. -/

namespace UnitCalc.Expr

/-- The value of a numeric literal; underscores only separate digits. -/
def literal (t : Token) : Except ParseError Expr :=
  match Decimal.ofString? (String.ofList (t.lexeme.toList.filter (· ≠ '_'))) with
  | none => .error ⟨.invalidNumber t.lexeme, t.span⟩
  | some d =>
    if d.withinLimit then .ok (.number d t.span) else .error ⟨.numberTooLong t.lexeme, t.span⟩

/-- Takes one token of the given kind. -/
def expect (kind : Token.Kind) (stop : Token) (ts : List Token) :
    Except ParseError (Token × { rest : List Token // rest.length < ts.length }) :=
  match ts with
  | [] => .error (.unexpected stop (.token kind))
  | t :: ts =>
    if t.kind = kind then .ok (t, ⟨ts, Nat.lt_succ_self _⟩)
    else .error (.unexpected t (.token kind))

mutual
/-- An operand and the operations on it that bind tighter than `min`. -/
def parse (stop : Token) (min : Nat) (ts : List Token) :
    Except ParseError (Expr × { rest : List Token // rest.length < ts.length }) := do
  let (lhs, ⟨rest, h⟩) ← parseOperand stop ts
  let (e, ⟨rest', h'⟩) ← parseOperations stop min lhs rest
  .ok (e, ⟨rest', by omega⟩)
termination_by 3 * ts.length + 1
decreasing_by all_goals omega

/-- The operations on `lhs` that bind tighter than `min`, from left to right. -/
def parseOperations (stop : Token) (min : Nat) (lhs : Expr) (ts : List Token) :
    Except ParseError (Expr × { rest : List Token // rest.length ≤ ts.length }) :=
  match ts with
  | [] => .ok (lhs, ⟨[], Nat.le_refl _⟩)
  | t :: ts =>
    match Operator.ofKind? t.kind with
    | some op =>
      if op.precedence ≤ min then .ok (lhs, ⟨t :: ts, Nat.le_refl _⟩)
      else do
        let (rhs, ⟨rest, h⟩) ← parse stop op.rightPrecedence ts
        let (e, ⟨rest', h'⟩) ← parseOperations stop min (combine op lhs rhs) rest
        .ok (e, ⟨rest', by simp only [List.length_cons]; omega⟩)
    | none =>
      if t.kind.startsOperand && min < Operator.juxtaposition then do
        let (rhs, ⟨rest, h⟩) ← parse stop Operator.juxtaposition (t :: ts)
        let (e, ⟨rest', h'⟩) ← parseOperations stop min (combine .mul lhs rhs) rest
        .ok (e, ⟨rest', by omega⟩)
      else .ok (lhs, ⟨t :: ts, Nat.le_refl _⟩)
termination_by 3 * ts.length + 2
decreasing_by all_goals simp only [List.length_cons] at *; omega

/-- A signed operand, a literal, a name, a call, or an expression in parentheses or brackets. A
name with an opening parenthesis directly behind it is a call. -/
def parseOperand (stop : Token) (ts : List Token) :
    Except ParseError (Expr × { rest : List Token // rest.length < ts.length }) :=
  match ts with
  | [] => .error (.noExpression stop)
  | t :: ts =>
    match t.kind with
    | .plus => do
      let (e, ⟨rest, h⟩) ← parse stop Operator.signPrecedence ts
      .ok (.signed .plus e (t.span.merge e.span), ⟨rest, by simp only [List.length_cons]; omega⟩)
    | .minus => do
      let (e, ⟨rest, h⟩) ← parse stop Operator.signPrecedence ts
      .ok (.signed .minus e (t.span.merge e.span), ⟨rest, by simp only [List.length_cons]; omega⟩)
    | .integer | .float => do
      let e ← literal t
      .ok (e, ⟨ts, Nat.lt_succ_self _⟩)
    | .identifier =>
      match ts with
      | [] => .ok (.name t.ident, ⟨[], Nat.lt_succ_self _⟩)
      | u :: us =>
        if u.kind = .openParen ∧ u.span.start = t.span.stop then do
          let (args, close, ⟨rest, h⟩) ← parseArguments stop us
          .ok (.call t.ident args (t.span.merge close.span),
            ⟨rest, by simp only [List.length_cons]; omega⟩)
        else .ok (.name t.ident, ⟨u :: us, Nat.lt_succ_self _⟩)
    | .openParen => do
      let (e, ⟨rest, h⟩) ← parse stop 0 ts
      let (close, ⟨rest', h'⟩) ← expect .closeParen stop rest
      .ok (.paren e (t.span.merge close.span), ⟨rest', by simp only [List.length_cons]; omega⟩)
    | .openBracket => do
      let (e, ⟨rest, h⟩) ← parse stop 0 ts
      let (close, ⟨rest', h'⟩) ← expect .closeBracket stop rest
      .ok (.unitOf e (t.span.merge close.span), ⟨rest', by simp only [List.length_cons]; omega⟩)
    | _ => .error (.noExpression t)
termination_by 3 * ts.length
decreasing_by all_goals simp only [List.length_cons] at *; omega

/-- Arguments with commas between them, and maybe one after the last, up to the closing
parenthesis. -/
def parseArguments (stop : Token) (ts : List Token) :
    Except ParseError (List Expr × Token × { rest : List Token // rest.length < ts.length }) :=
  match ts with
  | [] => .error (.noExpression stop)
  | t :: ts =>
    if t.kind = .closeParen then .ok ([], t, ⟨ts, Nat.lt_succ_self _⟩)
    else do
      let (e, ⟨rest, h⟩) ← parse stop 0 (t :: ts)
      match rest, h with
      | [], _ => .error (.unexpected stop (.token .closeParen))
      | u :: us, h =>
        if u.kind = .comma then do
          let (es, close, ⟨rest', h'⟩) ← parseArguments stop us
          .ok (e :: es, close, ⟨rest', by simp only [List.length_cons] at *; omega⟩)
        else if u.kind = .closeParen then
          .ok ([e], u, ⟨us, by simp only [List.length_cons] at *; omega⟩)
        else .error (.unexpected u (.token .closeParen))
termination_by 3 * ts.length + 2
decreasing_by all_goals simp only [List.length_cons] at *; omega
end

end UnitCalc.Expr
