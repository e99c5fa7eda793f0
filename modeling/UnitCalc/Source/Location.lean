import UnitCalc.Source.Span

/-! Lines and columns. Lines and the characters of a line are counted from one, with numbers of 32
bits. An offset past the end of the source is read as its end, and an offset inside a character has
no location. -/

namespace UnitCalc

structure Location where
  line : Nat
  column : Nat
deriving DecidableEq, Repr

namespace Location

def first : Location := ⟨1, 1⟩

/-- A number of 32 bits; the one after the largest is zero. -/
def wrap (n : Nat) : Nat := n % 4294967296

/-- The location after a character that stands at `l`. -/
def after (l : Location) (c : Char) : Location :=
  if c = '\n' then ⟨wrap (l.line + 1), 1⟩ else ⟨l.line, wrap (l.column + 1)⟩

/-- The location `offset` bytes into a text whose first character stands at `l`. -/
def advance (l : Location) : List Char → Nat → Option Location
  | _, 0 => some l
  | [], _ + 1 => some l
  | c :: cs, n + 1 =>
    if c.utf8Size ≤ n + 1 then (l.after c).advance cs (n + 1 - c.utf8Size) else none

def ofOffset? (source : String) (offset : Nat) : Option Location :=
  first.advance source.toList offset

def text (l : Location) : String := s!"{l.line}:{l.column}"

end Location

/-- The number of lines of a source: one more than its newlines. -/
def lineCount (source : String) : Nat := source.toList.count '\n' + 1

end UnitCalc
