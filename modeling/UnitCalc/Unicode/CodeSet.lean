/-! Sets of code points. A set is given by its boundaries in increasing order: the first code point
in the set, the first one after it that is not, the next one that is again, and so on. -/

namespace UnitCalc

structure CodeSet where
  boundaries : List Nat

namespace CodeSet

/-- An odd number of boundaries is at most `n`. -/
def oddUpTo (n : Nat) : List Nat → Bool
  | [] => false
  | b :: bs => b ≤ n && !oddUpTo n bs

def contains (s : CodeSet) (c : Char) : Bool := oddUpTo c.toNat s.boundaries

end CodeSet

end UnitCalc
