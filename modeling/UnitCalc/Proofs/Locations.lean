import Mathlib.Algebra.Group.Nat.Defs
import UnitCalc.Source.Location

/-! The location that an offset stands for, told by the text before it: the line is the number of
its newlines, and the column the number of its characters behind the last of them, both counted from
one. A location has these numbers as far as they fit into 32 bits. -/

namespace UnitCalc.Location

/-- Numbers that fit into 32 bits stay what they are. -/
theorem wrap_eq_self_iff {n : Nat} : wrap n = n ↔ n < 2 ^ 32 := by
  unfold wrap
  omega

/-- A location whose numbers are cut down to 32 bits. -/
def wrapped (l : Location) : Location := ⟨wrap l.line, wrap l.column⟩

theorem wrapped_eq_self_iff {l : Location} :
    l.wrapped = l ↔ l.line < 2 ^ 32 ∧ l.column < 2 ^ 32 := by
  cases l
  rw [wrapped, mk.injEq, wrap_eq_self_iff, wrap_eq_self_iff]

/-- The location at which a source goes on that begins with `before`, with numbers of any size. -/
def behind (before : List Char) : Location :=
  ⟨1 + before.count '\n', 1 + (before.reverse.takeWhile (· ≠ '\n')).length⟩

theorem behind_concat (before : List Char) (c : Char) :
    (behind (before ++ [c])).wrapped = (behind before).wrapped.after c := by
  by_cases hc : c = '\n'
  · simp [behind, after, wrapped, wrap, hc, Nat.add_assoc]
  · simp [behind, after, wrapped, wrap, hc, Nat.add_comm]

theorem foldl_after (read before : List Char) :
    before.foldl after (behind read).wrapped = (behind (read ++ before)).wrapped := by
  induction before generalizing read with
  | nil => rw [List.foldl_nil, List.append_nil]
  | cons c before ih =>
    rw [List.foldl_cons, ← behind_concat, ih, List.append_assoc, List.cons_append, List.nil_append]

theorem advance_append (l : Location) (before rest : List Char) :
    l.advance (before ++ rest) (byteLength before) = some (before.foldl after l) := by
  induction before generalizing l with
  | nil => rw [byteLength_nil, advance.eq_def, List.foldl_nil]
  | cons c before ih =>
    have hpos := c.utf8Size_pos
    obtain ⟨n, hn⟩ : ∃ n, byteLength (c :: before) = n + 1 := ⟨byteLength (c :: before) - 1, by
      rw [byteLength_cons]
      omega⟩
    rw [hn, List.cons_append, advance]
    rw [byteLength_cons] at hn
    rw [if_pos (by omega), show n + 1 - c.utf8Size = byteLength before by omega, List.foldl_cons]
    exact ih (l.after c)

theorem ofOffset?_eq {source : String} {before rest : List Char}
    (h : source.toList = before ++ rest) :
    ofOffset? source (byteLength before) = some (behind before).wrapped := by
  have hfirst : first = (behind []).wrapped := rfl
  rw [ofOffset?, h, advance_append, hfirst, foldl_after, List.nil_append]

end UnitCalc.Location
