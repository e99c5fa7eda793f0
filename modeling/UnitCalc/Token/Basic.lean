import UnitCalc.Source.Span

/-! Tokens: the kinds of lexemes, and what a kind is called in messages. -/

namespace UnitCalc

namespace Token

inductive Kind where
  | unit | print
  | integer | float | identifier
  | plus | minus | star | slash | percent | caret
  | equal | doubleEqual | notEqual | less | greater | lessEqual | greaterEqual
  | openParen | closeParen | openBracket | closeBracket | comma
  | comment | newline | endOfInput
  /-- A character that begins no token. -/
  | stray
deriving DecidableEq, Repr

/-- What messages call a token of this kind. -/
def Kind.describe : Kind → String
  | unit => "unit" | print => "print"
  | integer => "integer" | float => "number" | identifier => "identifier"
  | plus => "+" | minus => "-" | star => "*" | slash => "/" | percent => "%" | caret => "^"
  | equal => "=" | doubleEqual => "==" | notEqual => "!="
  | less => "<" | greater => ">" | lessEqual => "<=" | greaterEqual => ">="
  | openParen => "(" | closeParen => ")" | openBracket => "[" | closeBracket => "]"
  | comma => ","
  | comment => "comment" | newline => "newline" | endOfInput => "end of input"
  | stray => "error"

/-- A token of this kind can begin an operand that stands next to another one. -/
def Kind.startsOperand : Kind → Bool
  | integer | float | identifier | openParen | openBracket => true
  | _ => false

def Kind.endsLine : Kind → Bool
  | newline | endOfInput => true
  | _ => false

end Token

structure Token where
  kind : Token.Kind
  lexeme : String
  span : Span
deriving DecidableEq, Repr

/-- What is said of a character that begins no token. -/
def strayMessage (lexeme : String) : String := s!"unexpected character '{lexeme}'"

/-- A character that begins no token, and where it stands: an error of the scan. -/
structure Stray where
  character : Char
  span : Span
deriving DecidableEq, Repr

namespace Stray

def lexeme (s : Stray) : String := String.singleton s.character

/-- The token that stands among the others in place of the character. -/
def token (s : Stray) : Token := ⟨.stray, s.lexeme, s.span⟩

end Stray

end UnitCalc
