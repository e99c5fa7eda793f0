import UnitCalc.Shell.Text
import UnitCalc.Source.Span
import UnitCalc.Unicode.Grapheme

/-! Lines of typed input. A newline ends a line, with a carriage return before it if there is one,
and a backspace in a line takes back the grapheme before it. -/

namespace UnitCalc.Input

/-- A line while it is typed. -/
structure Typed where
  /-- The characters, the last one first. -/
  chars : List Char := []
  /-- The sizes of the graphemes in bytes, the last one first. -/
  sizes : List Nat := []

namespace Typed

def backspace : List Char := ['\x08']

/-- The size of a grapheme is noted in one byte: of 256 bytes or more, only the excess over a
multiple of 256 is taken back. -/
def notedSize (grapheme : List Char) : Nat := byteLength grapheme % 256

/-- Drops characters of `n` bytes in all, unless that would cut a character. -/
def dropBytes? : Nat → List Char → Option (List Char)
  | 0, cs => some cs
  | _ + 1, [] => none
  | n + 1, c :: cs => if c.utf8Size ≤ n + 1 then dropBytes? (n + 1 - c.utf8Size) cs else none

def eraseLast? (t : Typed) : Option Typed :=
  match t.sizes with
  | [] => some t
  | n :: ns => (dropBytes? n t.chars).map (⟨·, ns⟩)

/-- Types a grapheme. -/
def press? (t : Typed) (grapheme : List Char) : Option Typed :=
  if grapheme = backspace then t.eraseLast?
  else some ⟨grapheme.reverse ++ t.chars, notedSize grapheme :: t.sizes⟩

end Typed

/-- What is left of a line after its backspaces, if they leave whole characters. -/
def typedLine? (line : List Char) : Option String :=
  ((Unicode.graphemes line).foldlM Typed.press? {}).map fun t => String.ofList t.chars.reverse

/-- The lines of a text without their ends; the last one may lack its newline. -/
def rawLines (text : String) : List (List Char) :=
  let lines := pieces '\n' text.toList
  let ended := lines.dropLast.map fun l => if l.getLast? = some '\r' then l.dropLast else l
  let last := lines.getLast?.getD []
  if last = [] then ended else ended ++ [last]

/-- The lines of input, each as its backspaces leave it. -/
def lines (text : String) : List (Option String) := (rawLines text).map typedLine?

end UnitCalc.Input
