import UnitCalc.Expr.Parser
import UnitCalc.Line.Basic
import UnitCalc.Token.Lexer

/-! Reading lines and programs. Comments are dropped and the tokens are grouped into lines, each
with the newline or the end of input that stops it; every line is then read on its own, so a
malformed line does not affect the others. Where a line is malformed by a stray character, the error
is looked up among those of the scan. -/

namespace UnitCalc

/-- The tokens of one line, and the token that ends it. -/
structure TokenLine where
  tokens : List Token
  stop : Token
deriving DecidableEq, Repr

namespace TokenLine

/-- Groups tokens into lines. Tokens after the last line end are dropped. -/
def group : List Token → List TokenLine
  | [] => []
  | t :: ts =>
    if t.kind.endsLine then ⟨[], t⟩ :: group ts
    else
      match group ts with
      | [] => []
      | l :: ls => ⟨t :: l.tokens, l.stop⟩ :: ls

def ofSource (source : String) : List TokenLine :=
  group ((tokenize source).filter (·.kind ≠ .comment))

/-- The token at which a reader stands that has `ts` left of the line. -/
def current (l : TokenLine) (ts : List Token) : Token := ts.headD l.stop

end TokenLine

namespace Line

/-! ### Heads of bindings -/

/-- Parameters, with commas between them, up to `) =`. -/
def bindingParams? : List Token → Option (List Ident × List Token)
  | p :: c :: ts =>
    if p.kind ≠ .identifier then none
    else if c.kind = .comma then
      (bindingParams? ts).map fun (ps, rest) => (p.ident :: ps, rest)
    else if c.kind = .closeParen then
      match ts with
      | e :: rest => if e.kind = .equal then some ([p.ident], rest) else none
      | [] => none
    else none
  | _ => none

/-- The head of a binding, `NAME =` or `NAME(a, b) =` with the parenthesis directly behind the name:
the name, the parameters and the tokens after the equals sign. -/
def bindingHead? : List Token → Option (Ident × Option (List Ident) × List Token)
  | n :: t :: ts =>
    if n.kind ≠ .identifier then none
    else if t.kind = .equal then some (n.ident, none, ts)
    else if t.kind = .openParen ∧ t.span.start = n.span.stop then
      match ts with
      | c :: e :: rest =>
        if c.kind = .closeParen then
          if e.kind = .equal then some (n.ident, some [], rest) else none
        else (bindingParams? ts).map fun (ps, rest) => (n.ident, some ps, rest)
      | _ => none
    else none
  | _ => none

/-- The first parameter whose name occurs before it. -/
def firstRepeated? (seen : List String) : List Ident → Option Ident
  | [] => none
  | p :: ps => if p.name ∈ seen then some p else firstRepeated? (p.name :: seen) ps

/-! ### Lines -/

/-- Nothing may be left of a line. -/
def finish (line : Line) : List Token → Except ParseError Line
  | [] => .ok line
  | t :: _ => .error (.unexpected t .endOfLine)

def parseUnit (l : TokenLine) (start : Token) (ts : List Token) : Except ParseError Line :=
  let t := l.current ts
  if t.kind = .identifier then
    finish (.unit t.ident (start.span.merge t.span)) (ts.drop 1)
  else .error ⟨.expectedIdentifier t.kind, t.span⟩

def parsePrint (l : TokenLine) (start : Token) (ts : List Token) : Except ParseError Line := do
  let (e, ⟨rest, _⟩) ← Expr.parse l.stop 0 ts
  finish (.print e (start.span.merge e.span)) rest

def parseBinding (l : TokenLine) (name : Ident) (params : Option (List Ident)) (ts : List Token) :
    Except ParseError Line :=
  match firstRepeated? [] (params.getD []) with
  | some p => .error ⟨.duplicateParameter p.name, p.span⟩
  | none => do
    let (rhs, ⟨rest, _⟩) ← Expr.parse l.stop 0 ts
    finish (.binding ⟨name, params, rhs, name.span.merge rhs.span⟩) rest

def parseExpr (l : TokenLine) : Except ParseError Line := do
  let (e, ⟨rest, _⟩) ← Expr.parse l.stop 0 l.tokens
  finish (.expr e) rest

def parseTokens (l : TokenLine) : Except ParseError Line :=
  match l.tokens with
  | [] => .ok .blank
  | t :: ts =>
    if t.kind = .unit then parseUnit l t ts
    else if t.kind = .print then parsePrint l t ts
    else
      match bindingHead? l.tokens with
      | some (name, params, rest) => parseBinding l name params rest
      | none => parseExpr l

/-- Reads one line, which empty lines may follow. -/
def ofLines : List TokenLine → Except ParseError Line
  | [] => .ok .blank
  | l :: ls => do
    let line ← parseTokens l
    match ls.findSome? (·.tokens.head?) with
    | none => .ok line
    | some t => .error (.unexpected t (.token .endOfInput))

/-- Reads a source of one line. -/
def ofString (source : String) : Except ParseError Line :=
  (ofLines (TokenLine.ofSource source)).mapError (.lookUp (strayTokens source))

end Line

namespace Expr

/-- Reads one expression, with nothing behind it. -/
def ofLines : List TokenLine → Except ParseError Expr
  | [] => .error ⟨.expectedExpression .endOfInput, ⟨0, 0⟩⟩
  | l :: _ => do
    let (e, ⟨rest, _⟩) ← parse l.stop 0 l.tokens
    let t := l.current rest
    if t.kind = .endOfInput then .ok e else .error (.unexpected t (.token .endOfInput))

/-- Reads a source that is one expression. -/
def ofString (source : String) : Except ParseError Expr :=
  (ofLines (TokenLine.ofSource source)).mapError (.lookUp (strayTokens source))

end Expr

/-! ### Programs -/

/-- The lines of a program: an empty last line does not count, unless it is the only one. -/
def TokenLine.ofProgram (source : String) : List TokenLine :=
  match TokenLine.ofSource source with
  | [l] => [l]
  | ls => if (ls.getLast?.map (·.tokens)) = some [] then ls.dropLast else ls

/-- All results, or else all errors. -/
def collect {α ε : Type} : List (Except ε α) → Except (List ε) (List α)
  | [] => .ok []
  | .ok a :: rs => (collect rs).map (a :: ·)
  | .error e :: rs =>
    match collect rs with
    | .ok _ => .error [e]
    | .error es => .error (e :: es)

/-- Reads a whole program; a program with malformed lines gives one error for each of them. -/
def parseProgram (source : String) : Except (List ParseError) (List Line) :=
  (collect ((TokenLine.ofProgram source).map Line.parseTokens)).mapError
    (List.map (.lookUp (strayTokens source)))

end UnitCalc
