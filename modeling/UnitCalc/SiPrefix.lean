import UnitCalc.Decimal.Basic

/-! The decimal prefixes of the SI, and how a name such as `km` splits into a prefix and a rest. -/

namespace UnitCalc

inductive SiPrefix where
  | femto | pico | nano | micro | milli | centi | deci
  | deca | hecto | kilo | mega | giga | tera | peta
deriving DecidableEq, Repr

namespace SiPrefix

/-- The exponent of ten that the prefix multiplies by. -/
def exponent : SiPrefix → Int
  | femto => -15 | pico => -12 | nano => -9 | micro => -6 | milli => -3 | centi => -2 | deci => -1
  | deca => 1 | hecto => 2 | kilo => 3 | mega => 6 | giga => 9 | tera => 12 | peta => 15

/-- Micro is written with the micro sign, U+00B5. -/
def symbol : SiPrefix → String
  | femto => "f" | pico => "p" | nano => "n" | micro => "µ" | milli => "m" | centi => "c"
  | deci => "d" | deca => "da" | hecto => "h" | kilo => "k" | mega => "M" | giga => "G"
  | tera => "T" | peta => "P"

def factor (p : SiPrefix) : Decimal := ⟨1, -p.exponent⟩

/-- The prefix that a single letter stands for; `u` is a second spelling of micro. -/
def ofLetter? : Char → Option SiPrefix
  | 'f' => some femto | 'p' => some pico | 'n' => some nano
  | 'u' => some micro | 'µ' => some micro
  | 'm' => some milli | 'c' => some centi | 'd' => some deci
  | 'h' => some hecto | 'k' => some kilo | 'M' => some mega
  | 'G' => some giga | 'T' => some tera | 'P' => some peta
  | _ => none

/-- Splits a prefix off a name, unless nothing would be left. `da` is tried before `d`. -/
def splitChars? : List Char → Option (SiPrefix × List Char)
  | 'd' :: 'a' :: c :: cs => some (deca, c :: cs)
  | p :: c :: cs => (ofLetter? p).map (·, c :: cs)
  | _ => none

def split? (name : String) : Option (SiPrefix × String) :=
  (splitChars? name.toList).map fun (p, rest) => (p, String.ofList rest)

end SiPrefix

end UnitCalc
