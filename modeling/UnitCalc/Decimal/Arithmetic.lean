import UnitCalc.Decimal.Basic

/-! Arithmetic of decimals. Sum, difference, product, remainder and power are exact; a quotient
is developed to a hundred digits and then cut to the precision in force. Which of the equal
pairs a result is shows in its extent, so each operation fixes the scale of its result. -/

namespace UnitCalc.Decimal

open Digits (tenPow)

def neg (d : Decimal) : Decimal := ⟨-d.coefficient, d.scale⟩

theorem extent_neg (d : Decimal) : d.neg.extent = d.extent := by
  rw [extent, extent, digitCount, digitCount, neg, Int.natAbs_neg]

/-- The places that adding a zero of scale `zero` gives to a number of scale `scale`: those of
the zero, and at most fifteen more than the number has. -/
def placesFromZero (scale zero : Int) : Nat := min (zero - scale).toNat 15

def add (a b : Decimal) : Decimal :=
  if b.isZero then a.extend (placesFromZero a.scale b.scale)
  else if a.isZero then b.extend (placesFromZero b.scale a.scale)
  else
    let scale := max a.scale b.scale
    ⟨a.atScale scale + b.atScale scale, scale⟩

def sub (a b : Decimal) : Decimal :=
  let scale := max a.scale b.scale
  ⟨a.atScale scale - b.atScale scale, scale⟩

/-- A factor one leaves the other factor in its normal form. -/
def mul (a b : Decimal) : Decimal :=
  if a.isOne then b.normalize
  else if b.isOne then a.normalize
  else ⟨a.coefficient * b.coefficient, a.scale + b.scale⟩

/-- The number times `10 ^ k`; only a one changes more than its scale. -/
def shift (d : Decimal) (k : Int) : Decimal :=
  if d.isOne then ⟨1, -k⟩ else ⟨d.coefficient, d.scale - k⟩

/-- The remainder of truncated division, with the sign of `a`. -/
def rem (a b : Decimal) : Decimal :=
  let scale := max a.scale b.scale
  ⟨(a.atScale scale).tmod (b.atScale scale), scale⟩

/-! ### Quotients -/

/-- The digits to which a quotient is developed. -/
def quotientDigits : Nat := 100

/-- The least `k` with `den ≤ num * 10 ^ k`, for a positive `num`. -/
def lift (num den : Nat) : Nat :=
  if den ≤ num then 0
  else
    let k := Digits.count den - Digits.count num
    if den ≤ num * tenPow k then k else k + 1

/-- Appends to `q` at most `room` digits of the quotient whose next digit is `r / den`, rounds
the last one half up, and counts the digits appended. -/
def develop (den : Nat) : Nat → Nat → Nat → Nat × Nat
  | 0, q, r => (if 5 ≤ r / den then q + 1 else q, 0)
  | room + 1, q, r =>
    if r = 0 then (q, 0)
    else
      let (q', k) := develop den room (10 * q + r / den) (10 * (r % den))
      (q', k + 1)

/-- The quotient of positive numbers, as digits and a scale. -/
def quotient (num den : Nat) : Nat × Nat :=
  let k := lift num den
  let q := num * tenPow k / den
  let r := num * tenPow k % den
  if r = 0 then (q, k)
  else
    let (q', k') := develop den (quotientDigits - Digits.count q) q (10 * r)
    (q', k + k')

/-- Divides by a number other than zero. -/
def div (a b : Decimal) : Decimal :=
  if a.isZero || b.isOne then a
  else
    let scale := a.scale - b.scale
    if a.coefficient = b.coefficient then ⟨1, scale⟩
    else
      let (q, k) := quotient a.coefficient.natAbs b.coefficient.natAbs
      ⟨a.coefficient.sign * b.coefficient.sign * q, scale + k⟩

/-- Exactly `digits` digits: a shorter number is filled up with zeros. Digits beyond are cut off
toward zero, and a positive number goes up when the first of them is five or more. -/
def withDigits (d : Decimal) (digits : Nat) : Decimal :=
  let n := d.digitCount
  if n ≤ digits then d.extend (digits - n)
  else
    let unit : Int := tenPow (n - digits)
    let q := d.coefficient.tdiv unit
    let r := d.coefficient.tmod unit
    ⟨if 0 < r ∧ unit ≤ 2 * r then q + 1 else q, d.scale - (n - digits : Nat)⟩

/-! ### Powers -/

/-- The product `result * square ^ e`, by repeated squaring. -/
def powerLoop (square result : Decimal) (e : Nat) : Decimal :=
  if h : e ≤ 1 then if e = 1 then result.mul square else result
  else
    powerLoop (square.mul square) (if e % 2 = 1 then result.mul square else result) (e / 2)
termination_by e
decreasing_by omega

def power (base : Decimal) (e : Nat) : Decimal := powerLoop base 1 e

end UnitCalc.Decimal
