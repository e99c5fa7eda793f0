import UnitCalc.Unicode.Xid

/-! Characters of identifiers. An identifier starts with a character of the Unicode property
`XID_Start` or an underscore and goes on with characters of `XID_Continue`. -/

namespace UnitCalc.Token

def isIdentifierStart (c : Char) : Bool :=
  c.isAlpha || c = '_' || Unicode.xidStart.contains c

def isIdentifierPart (c : Char) : Bool :=
  isIdentifierStart c || c.isDigit || Unicode.xidContinueOnly.contains c

end UnitCalc.Token
