import UnitCalc.Proofs.Lookahead

/-! A cursor on the tokens of a source. The readers of a line are given its tokens, without comments
and without those of other lines. A cursor reads the same from all tokens of the source: it stands
at a place, asks for the token there, goes on behind the comments that follow, and never goes back.
It notes every place at which it has stood. A run of a cursor ends with a result, or because the
text is malformed; or because it asks for a token where there is none, or because it has used up the
rounds that it was given. The modules behind this one show that the last two never happen, and that
the results are those of the readers of lines. -/

namespace UnitCalc

/-- Why a run ends without a result. -/
inductive Halt where
  /-- The text is malformed. -/
  | refused (error : ParseError)
  /-- There is no token at the place. -/
  | outside
  /-- All rounds are used up. -/
  | exhausted
deriving DecidableEq, Repr

/-- The place at which a cursor stands, and those at which it stood before, the latest first. -/
structure Cursor where
  place : Nat
  trail : List Nat
deriving DecidableEq, Repr

namespace Cursor

/-- What runs with a cursor: it gives back the cursor also where it ends without a result. -/
abbrev Reader (α : Type) := EStateM Halt Cursor α

/-- All places at which a cursor has stood. -/
def visited (c : Cursor) : List Nat := c.place :: c.trail

def goTo (c : Cursor) (place : Nat) : Cursor := ⟨place, c.visited⟩

/-- The end of a run that stops at `c`. -/
def conclude {α : Type} (c : Cursor) : Except ParseError α → EStateM.Result Halt Cursor α
  | .ok a => .ok a c
  | .error e => .error (.refused e) c

/-! ### Moves -/

section Readers

variable (tokens : List Token)

/-- The first place from `place` on without a comment. -/
def behindComments (place : Nat) : Nat :=
  place + ((tokens.drop place).takeWhile (·.kind = .comment)).length

def start : Cursor := ⟨behindComments tokens 0, []⟩

/-- The token at which the cursor stands; behind the end it is the last one. -/
def current : Reader Token := fun c =>
  match tokens[min c.place (tokens.length - 1)]? with
  | some t => .ok t c
  | none => .error .outside c

/-- Takes the current token. The end of the input is taken without leaving it. -/
def advance : Reader Token := do
  let t ← current tokens
  modify fun c =>
    c.goTo (behindComments tokens (if t.kind = .endOfInput then c.place else c.place + 1))
  pure t

/-- Takes the current token if it is of the given kind, and says whether it was. -/
def eat (kind : Token.Kind) : Reader Bool := do
  let t ← current tokens
  if t.kind = kind then
    let _ ← advance tokens
    pure true
  else pure false

def expect (kind : Token.Kind) : Reader Token := do
  let t ← current tokens
  if t.kind = kind then advance tokens else throw (.refused (.unexpected t (.token kind)))

def expectIdentifier : Reader Ident := do
  let t ← current tokens
  if t.kind = .identifier then
    let _ ← advance tokens
    pure t.ident
  else throw (.refused ⟨.expectedIdentifier t.kind, t.span⟩)

/-! ### Expressions -/

/-- A literal, a name, or what `inner` reads between parentheses or brackets. -/
def primary (inner : Reader Expr) : Reader Expr := do
  let t ← current tokens
  match t.kind with
  | .integer | .float => do
    let _ ← advance tokens
    fun c => conclude c (Expr.literal t)
  | .identifier => do
    let _ ← advance tokens
    pure (.name t.ident)
  | .openParen => do
    let _ ← advance tokens
    let e ← inner
    let close ← expect tokens .closeParen
    pure (.paren e (t.span.merge close.span))
  | .openBracket => do
    let _ ← advance tokens
    let e ← inner
    let close ← expect tokens .closeBracket
    pure (.unitOf e (t.span.merge close.span))
  | _ => throw (.refused (.noExpression t))

/-- What has been read, or a call of it if it is a name with a parenthesis directly behind it. -/
def applied (args : Reader (List Expr)) (e : Expr) : Reader Expr := do
  let t ← current tokens
  match e with
  | .name id =>
    if t.kind = .openParen ∧ t.span.start = id.span.stop then do
      let _ ← expect tokens .openParen
      let es ← args
      let close ← expect tokens .closeParen
      pure (.call id es (id.span.merge close.span))
    else pure e
  | _ => pure e

mutual
/-- An operand and the operations on it that bind tighter than `min`. -/
def expression : (rounds min : Nat) → Reader Expr
  | 0, _ => throw .exhausted
  | n + 1, min => do
    let lhs ← operand n
    operations n min lhs

def operations : (rounds min : Nat) → Expr → Reader Expr
  | 0, _, _ => throw .exhausted
  | n + 1, min, lhs => do
    let t ← current tokens
    match Operator.ofKind? t.kind with
    | some op =>
      if op.precedence ≤ min then pure lhs
      else do
        let _ ← advance tokens
        let rhs ← expression n op.rightPrecedence
        operations n min (Expr.combine op lhs rhs)
    | none =>
      if t.kind.startsOperand ∧ min < Operator.juxtaposition then do
        let rhs ← expression n Operator.juxtaposition
        operations n min (Expr.combine .mul lhs rhs)
      else pure lhs

def operand : (rounds : Nat) → Reader Expr
  | 0 => throw .exhausted
  | n + 1 => do
    let t ← current tokens
    match Sign.ofKind? t.kind with
    | some sign => do
      let _ ← advance tokens
      let e ← expression n Operator.signPrecedence
      pure (.signed sign e (t.span.merge e.span))
    | none => do
      let e ← primary tokens (expression n 0)
      applied tokens (arguments n) e

/-- Arguments up to a closing parenthesis, which is left; a comma may stand behind the last one. -/
def arguments : (rounds : Nat) → Reader (List Expr)
  | 0 => throw .exhausted
  | n + 1 => do
    let t ← current tokens
    if t.kind = .closeParen then pure []
    else
      let e ← expression n 0
      if ← eat tokens .comma then
        let es ← arguments n
        pure (e :: es)
      else pure [e]
end

/-! ### Lines -/

/-- A binding may begin at the cursor. All tokens from there on are looked at, comments included. -/
def bindingAhead : Reader Bool := do
  let c ← get
  if c.place < tokens.length then pure (Line.headAhead (tokens.drop c.place)) else throw .outside

/-- Parameters up to a closing parenthesis, which is left. -/
def parameters : (rounds : Nat) → (seen : List String) → Reader (List Ident)
  | 0, _ => throw .exhausted
  | n + 1, seen => do
    let t ← current tokens
    if t.kind = .closeParen then pure []
    else
      let p ← expectIdentifier tokens
      if p.name ∈ seen then throw (.refused ⟨.duplicateParameter p.name, p.span⟩)
      else if ← eat tokens .comma then
        let ps ← parameters n (p.name :: seen)
        pure (p :: ps)
      else pure [p]

def parameterList (rounds : Nat) : Reader (Option (List Ident)) := do
  if ← eat tokens .openParen then
    let ps ← parameters tokens rounds []
    let _ ← expect tokens .closeParen
    pure (some ps)
  else pure none

def binding (rounds : Nat) : Reader Binding := do
  let name ← expectIdentifier tokens
  let params ← parameterList tokens rounds
  let _ ← expect tokens .equal
  let rhs ← expression tokens rounds 0
  pure ⟨name, params, rhs, name.span.merge rhs.span⟩

/-- What a line that is not empty says; `t` is its first token. -/
def content (rounds : Nat) (t : Token) : Reader Line := do
  match t.kind with
  | .unit => do
    let _ ← advance tokens
    let name ← expectIdentifier tokens
    pure (.unit name (t.span.merge name.span))
  | .print => do
    let _ ← advance tokens
    let e ← expression tokens rounds 0
    pure (.print e (t.span.merge e.span))
  | .identifier => do
    if ← bindingAhead tokens then
      let b ← binding tokens rounds
      pure (.binding b)
    else
      let e ← expression tokens rounds 0
      pure (.expr e)
  | _ => do
    let e ← expression tokens rounds 0
    pure (.expr e)

/-- A line, without the newline that ends it. -/
def line (rounds : Nat) : Reader Line := do
  let t ← current tokens
  if t.kind.endsLine then pure .blank
  else
    let l ← content tokens rounds t
    let u ← current tokens
    if u.kind.endsLine then pure l else throw (.refused (.unexpected u .endOfLine))

/-! ### Programs -/

/-- Goes on behind the next newline, or to the end of the input. -/
def skipLine : (rounds : Nat) → Reader Unit
  | 0 => throw .exhausted
  | n + 1 => do
    let t ← current tokens
    if t.kind = .endOfInput then pure ()
    else
      let u ← advance tokens
      if u.kind = .newline then pure () else skipLine n

def skipNewlines : (rounds : Nat) → Reader Unit
  | 0 => throw .exhausted
  | n + 1 => do if ← eat tokens .newline then skipNewlines n else pure ()

/-- What a turn of the loop over the lines of a program comes to. -/
inductive Turn where
  /-- A line with its newline. -/
  | line (l : Line)
  /-- A line that the end of the input stops. -/
  | last (l : Line)
  /-- A line behind which neither of them stands. -/
  | unended (l : Line) (error : ParseError)
  | malformed (error : ParseError)
deriving DecidableEq, Repr

def Turn.line? : Turn → Option Line
  | line l | last l | unended l _ => some l
  | malformed _ => none

def Turn.error? : Turn → Option ParseError
  | unended _ e | malformed e => some e
  | line _ | last _ => none

/-- The end of a line that has been read. -/
def lineEnd (rounds : Nat) (l : Line) : Reader Turn := do
  if ← eat tokens .newline then pure (.line l)
  else
    let t ← current tokens
    if t.kind = .endOfInput then pure (.last l)
    else
      skipLine tokens rounds
      pure (.unended l (.unexpected t .endOfLine))

/-- What is done behind a malformed line. -/
def recover (rounds : Nat) (e : ParseError) : Reader Turn := do
  skipLine tokens rounds
  pure (.malformed e)

/-- What is done behind a line, whether it could be read or not. -/
def settle (rounds : Nat) : EStateM.Result Halt Cursor Line → EStateM.Result Halt Cursor Turn
  | .ok l c => (lineEnd tokens rounds l).run c
  | .error (.refused e) c => (recover tokens rounds e).run c
  | .error h c => .error h c

def turn (rounds : Nat) : Reader Turn := fun c =>
  settle tokens rounds ((line tokens rounds).run c)

/-- A turn, with the places at which it began and ended. -/
structure Round where
  start : Nat
  turn : Turn
  stop : Nat
deriving DecidableEq, Repr

def Round.isLast (r : Round) : Bool :=
  match r.turn with
  | .last _ => true
  | _ => false

/-- One turn after the other, until one ends at the end of the input. -/
def program : (rounds : Nat) → Reader (List Round)
  | 0 => throw .exhausted
  | n + 1 => do
    let before ← get
    let turn ← turn tokens n
    let after ← get
    let r : Round := ⟨before.place, turn, after.place⟩
    let t ← current tokens
    if r.isLast ∨ t.kind = .endOfInput then pure [r]
    else
      let rs ← program n
      pure (r :: rs)

end Readers

/-- The lines read in all rounds, unless one of them has an error. -/
def answer (rs : List Round) : Except (List ParseError) (List Line) :=
  match rs.filterMap (·.turn.error?) with
  | [] => .ok (rs.filterMap (·.turn.line?))
  | es => .error es

/-! ### Runs -/

def runProgram (rounds : Nat) (source : String) : EStateM.Result Halt Cursor (List Round) :=
  (program (tokenize source) rounds).run (start (tokenize source))

/-- Reads a source of one line, which newlines may follow. -/
def runLine (rounds : Nat) (source : String) : EStateM.Result Halt Cursor Line :=
  (do
    let l ← line (tokenize source) rounds
    skipNewlines (tokenize source) rounds
    let _ ← expect (tokenize source) .endOfInput
    pure l : Reader Line).run (start (tokenize source))

def runExpression (rounds : Nat) (source : String) : EStateM.Result Halt Cursor Expr :=
  (do
    let e ← expression (tokenize source) rounds 0
    let _ ← expect (tokenize source) .endOfInput
    pure e : Reader Expr).run (start (tokenize source))

end Cursor

end UnitCalc
