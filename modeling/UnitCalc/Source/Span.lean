/-! Spans: half-open ranges of byte offsets into the UTF-8 text of a source. -/

namespace UnitCalc

structure Span where
  start : Nat
  stop : Nat
deriving DecidableEq, Repr

namespace Span

/-- The span of something that stands in no source: both ends at the largest 32-bit offset. -/
def nowhere : Span := ⟨4294967295, 4294967295⟩

def isNowhere (s : Span) : Bool := s = nowhere

/-- The smallest span that reaches from the earlier start to the later end. -/
def merge (a b : Span) : Span := ⟨min a.start b.start, max a.stop b.stop⟩

def isEmpty (s : Span) : Bool := s.stop ≤ s.start

def text (s : Span) : String := s!"{s.start}..{s.stop}"

end Span

/-- The length of a piece of text in UTF-8 bytes. -/
def byteLength : List Char → Nat
  | [] => 0
  | c :: cs => c.utf8Size + byteLength cs

@[simp] theorem byteLength_nil : byteLength [] = 0 := rfl

@[simp] theorem byteLength_cons (c : Char) (cs : List Char) :
    byteLength (c :: cs) = c.utf8Size + byteLength cs := rfl

@[simp] theorem byteLength_append (xs ys : List Char) :
    byteLength (xs ++ ys) = byteLength xs + byteLength ys := by
  induction xs with
  | nil => simp
  | cons c cs ih => simp [ih, Nat.add_assoc]

theorem byteLength_replicate (n : Nat) (c : Char) :
    byteLength (List.replicate n c) = n * c.utf8Size := by
  induction n with
  | zero => rw [List.replicate_zero, byteLength_nil, Nat.zero_mul]
  | succ n ih => rw [List.replicate_succ, byteLength_cons, ih, Nat.succ_mul, Nat.add_comm]

end UnitCalc
