/-! Decimal digits of natural numbers. A number below `10 ^ (2 ^ j)` is cut in two halves of
`2 ^ (j - 1)` digits, so writing it, counting its digits and stripping its trailing zeros take
`j` rounds of division and stay fast on numbers of a million digits. -/

namespace UnitCalc.Digits

/-- The power of ten with exponent `k`. -/
def tenPow (k : Nat) : Nat := Nat.pow 10 k

/-- A number of halvings that reaches single digits: `n < 10 ^ (2 ^ rounds n)`. -/
def rounds (n : Nat) : Nat := Nat.log2 (Nat.log2 n / 3 + 1) + 1

def digitChar (d : Nat) : Char := Char.ofNat ('0'.toNat + d)

def digitValue (c : Char) : Nat := c.toNat - '0'.toNat

/-- The last `2 ^ j` digits of `n`, in front of `tail`. -/
def padded : Nat → Nat → List Char → List Char
  | 0, n, tail => digitChar (n % 10) :: tail
  | j + 1, n, tail => padded j (n / tenPow (2 ^ j)) (padded j (n % tenPow (2 ^ j)) tail)

/-- The digits of `n` without leading zeros. -/
def ofNat (n : Nat) : List Char :=
  if n = 0 then ['0'] else (padded (rounds n) n []).dropWhile (· = '0')

/-- The number that a list of digits writes. -/
def toNat (ds : List Char) : Nat := ds.foldl (fun n d => 10 * n + digitValue d) 0

/-- How many digits of `n` stand before the last one, if fewer than `2 ^ j` do. -/
def leading : Nat → Nat → Nat
  | 0, _ => 0
  | j + 1, n => if n < tenPow (2 ^ j) then leading j n else 2 ^ j + leading j (n / tenPow (2 ^ j))

/-- The number of digits of `n`; zero has one. -/
def count (n : Nat) : Nat := leading (rounds n) n + 1

/-- Divides `n` by the highest power of ten below `10 ^ (2 ^ j)` that divides it, and gives the
quotient with the exponent. -/
def stripped : Nat → Nat → Nat × Nat
  | 0, n => (n, 0)
  | j + 1, n =>
    if n % tenPow (2 ^ j) = 0 then
      let (m, k) := stripped j (n / tenPow (2 ^ j))
      (m, 2 ^ j + k)
    else stripped j n

/-- A positive number without its trailing zeros, and how many they were. -/
def stripZeros (n : Nat) : Nat × Nat := stripped (rounds n) n

end UnitCalc.Digits
