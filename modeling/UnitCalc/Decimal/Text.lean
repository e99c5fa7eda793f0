import UnitCalc.Decimal.Basic

/-! Decimals as text. `plain` writes the value without exponent and without superfluous zeros;
`full` writes the pair as it stands; `ofString?` reads a number with an optional sign, point and
exponent. -/

namespace UnitCalc.Decimal

def zeros (k : Nat) : List Char := List.replicate k '0'

def signed (n : Int) (ds : List Char) : String := String.ofList (if n < 0 then '-' :: ds else ds)

/-- Digits with a point before the last `places` of them. -/
def pointed (ds : List Char) (places : Nat) : List Char :=
  if places < ds.length then
    ds.take (ds.length - places) ++ '.' :: ds.drop (ds.length - places)
  else '0' :: '.' :: (zeros (places - ds.length) ++ ds)

/-- The coefficient's digits with the scale written out. -/
def positional (d : Decimal) : List Char :=
  let ds := Digits.ofNat d.coefficient.natAbs
  if d.scale ≤ 0 then ds ++ zeros (-d.scale).toNat else pointed ds d.scale.toNat

def plain (d : Decimal) : String :=
  let d := d.normalize
  signed d.coefficient d.positional

/-- Keeps trailing zeros after the point, and uses an exponent from sixteen places to the left of
the point on. -/
def full (d : Decimal) : String :=
  if d.scale < -15 then
    signed d.coefficient (Digits.ofNat d.coefficient.natAbs) ++ "e+" ++ toString (-d.scale)
  else signed d.coefficient d.positional

/-! ### Reading -/

/-- A run of digits in which underscores may stand anywhere but first. -/
def readDigits? : List Char → Option Nat
  | [] => none
  | c :: cs =>
    if c ≠ '_' && (c :: cs).all (fun c => c.isDigit || c = '_') then
      some (Digits.toNat ((c :: cs).filter (· ≠ '_')))
    else none

/-- Digits with an optional sign. -/
def readSigned? : List Char → Option Int
  | '-' :: cs => (readDigits? cs).map fun n => -(n : Int)
  | '+' :: cs => (readDigits? cs).map Int.ofNat
  | cs => (readDigits? cs).map Int.ofNat

/-- An exponent: digits with an optional sign and without underscores. -/
def readExponent? (cs : List Char) : Option Int :=
  if '_' ∈ cs then none else readSigned? cs

/-- A coefficient with an optional point, as a decimal. A point at the end counts for nothing, and
a sign stands before the first digit, be it in front of the point or behind. -/
def readMantissa? (cs : List Char) : Option Decimal :=
  let whole := cs.takeWhile (· ≠ '.')
  let places := (cs.dropWhile (· ≠ '.')).drop 1
  (readSigned? (whole ++ places)).map fun n => ⟨n, (places.filter (· ≠ '_')).length⟩

/-- The scales that a number may be read with. -/
def scaleFits (scale : Int) : Bool := -9223372036854775808 ≤ scale && scale ≤ 9223372036854775807

def isExponentMark (c : Char) : Bool := c = 'e' || c = 'E'

def ofString? (text : String) : Option Decimal := do
  let cs := text.toList
  let d ← readMantissa? (cs.takeWhile (!isExponentMark ·))
  let e ← match cs.dropWhile (!isExponentMark ·) with
    | [] => some 0
    | _ :: digits => readExponent? digits
  if scaleFits (d.scale - e) then some ⟨d.coefficient, d.scale - e⟩ else none

end UnitCalc.Decimal
