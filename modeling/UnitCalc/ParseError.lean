import UnitCalc.Decimal.Basic
import UnitCalc.Token.Basic

/-! Why a text is not a line or an expression of the language. -/

namespace UnitCalc

namespace ParseError

/-- What should have stood where another token was found. -/
inductive Expected where
  | token (kind : Token.Kind)
  | endOfLine
deriving DecidableEq, Repr

def Expected.describe : Expected → String
  | token kind => kind.describe
  | endOfLine => "end of line"

inductive Cause where
  | unexpectedToken (found : Token.Kind) (expected : Expected)
  | expectedExpression (found : Token.Kind)
  | expectedIdentifier (found : Token.Kind)
  | invalidNumber (lexeme : String)
  | numberTooLong (lexeme : String)
  | duplicateParameter (name : String)
  | strayCharacter (lexeme : String)
deriving DecidableEq, Repr

def Cause.describe : Cause → String
  | unexpectedToken found expected =>
    "unexpected token: found " ++ found.describe ++ ", expected " ++ expected.describe
  | expectedExpression found => "expected expression, found " ++ found.describe
  | expectedIdentifier found => "expected identifier, found " ++ found.describe
  | invalidNumber lexeme | numberTooLong lexeme => s!"invalid number literal: {lexeme}"
  | duplicateParameter name => s!"duplicate parameter name: {name}"
  | strayCharacter lexeme => strayMessage lexeme

def Cause.hint? : Cause → Option String
  | numberTooLong _ => some s!"numbers are limited to {Decimal.maxExtent} digits"
  | expectedExpression .unit => some "'unit' is only allowed at the start of a line"
  | expectedExpression .print => some "'print' is only allowed at the start of a line"
  | _ => none

end ParseError

structure ParseError where
  cause : ParseError.Cause
  span : Span
deriving DecidableEq, Repr

namespace ParseError

def message (e : ParseError) : String :=
  match e.cause.hint? with
  | some hint => e.cause.describe ++ " (hint: " ++ hint ++ ")"
  | none => e.cause.describe

/-- A token that is not the expected one; a stray character is reported as such. -/
def unexpected (found : Token) (expected : Expected) : ParseError :=
  if found.kind = .stray then ⟨.strayCharacter found.lexeme, found.span⟩
  else ⟨.unexpectedToken found.kind expected, found.span⟩

/-- A token that begins no expression; a stray character is reported as such. -/
def noExpression (found : Token) : ParseError :=
  if found.kind = .stray then ⟨.strayCharacter found.lexeme, found.span⟩
  else ⟨.expectedExpression found.kind, found.span⟩

/-- What is said of a stray character is looked up among the errors of the scan, by the span. -/
def lookUp (strays : List Stray) (e : ParseError) : ParseError :=
  match e.cause with
  | .strayCharacter _ =>
    match strays.find? (·.span = e.span) with
    | some s => ⟨.strayCharacter s.lexeme, e.span⟩
    | none => ⟨.expectedExpression .stray, e.span⟩
  | _ => e

end ParseError

end UnitCalc
