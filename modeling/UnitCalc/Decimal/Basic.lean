import UnitCalc.Decimal.Digits

/-! Decimals: an integer coefficient with a decimal scale. The pair is kept as it arises, so that
`1.50` and `1.5` are equal in value and differ in the room they take; `normalize` gives the one
form of a value whose coefficient has no trailing zero. -/

namespace UnitCalc

/-- The number `coefficient * 10 ^ (-scale)`. -/
structure Decimal where
  coefficient : Int
  scale : Int
deriving DecidableEq, Repr

namespace Decimal

open Digits (tenPow)

instance : OfNat Decimal n := ⟨⟨n, 0⟩⟩

def digitCount (d : Decimal) : Nat := Digits.count d.coefficient.natAbs

/-- Room taken by a decimal: its digits and the size of its scale. -/
def extent (d : Decimal) : Nat := d.digitCount + d.scale.natAbs

/-- The largest extent of a literal and of a computed number. -/
def maxExtent : Nat := 1000000

def withinLimit (d : Decimal) : Bool := d.extent ≤ maxExtent

def isZero (d : Decimal) : Bool := d.coefficient = 0

/-- Recognises the number one as long as it is written with at most 38 decimal places. -/
def isOne (d : Decimal) : Bool :=
  0 ≤ d.scale && d.scale ≤ 38 && d.coefficient = tenPow d.scale.toNat

/-- The coefficient at a scale that is at least the decimal's own. -/
def atScale (d : Decimal) (scale : Int) : Int := d.coefficient * tenPow (scale - d.scale).toNat

/-- The same value with `k` more decimal places. -/
def extend (d : Decimal) (k : Nat) : Decimal := ⟨d.coefficient * tenPow k, d.scale + k⟩

def normalize (d : Decimal) : Decimal :=
  if d.coefficient = 0 then 0
  else
    let (m, k) := Digits.stripZeros d.coefficient.natAbs
    ⟨d.coefficient.sign * m, d.scale - k⟩

def isInteger (d : Decimal) : Bool :=
  d.scale ≤ 0 || d.coefficient % tenPow d.scale.toNat = 0

/-- The integer that a decimal with `isInteger` stands for; other decimals are cut toward zero. -/
def truncate (d : Decimal) : Int :=
  if d.scale ≤ 0 then d.atScale 0 else d.coefficient.tdiv (tenPow d.scale.toNat)

/-! ### Order of values -/

/-- The order of values. A zero needs no common scale: its coefficient tells it from any other. -/
def compare (a b : Decimal) : Ordering :=
  if a.isZero || b.isZero then Ord.compare a.coefficient b.coefficient
  else
    let scale := max a.scale b.scale
    Ord.compare (a.atScale scale) (b.atScale scale)

/-- Equality in value. -/
def same (a b : Decimal) : Bool := a.compare b = .eq

end Decimal

end UnitCalc
