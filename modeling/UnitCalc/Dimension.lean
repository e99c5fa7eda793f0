import UnitCalc.Table

/-! Dimensions: products of integer powers of named base units. A base unit that does not occur
has exponent zero, and exponents are 64-bit integers, so that an operation whose result needs a
larger exponent has none. -/

namespace UnitCalc

/-- The exponents of base units: 64-bit signed integers. -/
def exponentFits (e : Int) : Prop := -9223372036854775808 ≤ e ∧ e ≤ 9223372036854775807

instance (e : Int) : Decidable (exponentFits e) := inferInstanceAs (Decidable (_ ∧ _))

structure Dimension where
  exponents : Table Int
  admissible : ∀ e ∈ exponents.entries, e.2 ≠ 0 ∧ exponentFits e.2
deriving DecidableEq

namespace Dimension

/-- The dimension of pure numbers. -/
def one : Dimension := ⟨.empty, by simp [Table.empty]⟩

def isOne (d : Dimension) : Bool := d.exponents.entries.isEmpty

def base (name : String) : Dimension :=
  ⟨Table.empty.insert name 1, by simp [Table.insert, Table.place, Table.empty, exponentFits]⟩

def exponent (d : Dimension) (name : String) : Int := (d.exponents.find? name).getD 0

/-- Adds `k` to the exponent of one base unit. -/
def raise (d : Dimension) (name : String) (k : Int) : Option Dimension :=
  if h₀ : d.exponent name + k = 0 then
    some ⟨d.exponents.erase name, fun e he => d.admissible e (List.mem_filter.1 he).1⟩
  else if h : exponentFits (d.exponent name + k) then
    some ⟨d.exponents.insert name (d.exponent name + k), fun e he => by
      rcases Table.mem_place he with rfl | he
      · exact ⟨h₀, h⟩
      · exact d.admissible e he⟩
  else none

def mul (a b : Dimension) : Option Dimension :=
  b.exponents.entries.foldlM (fun d e => d.raise e.1 e.2) a

/-- Each exponent of the divisor is negated first, and its negative must be an exponent too. -/
def div (a b : Dimension) : Option Dimension :=
  b.exponents.entries.foldlM
    (fun d e => if exponentFits (-e.2) then d.raise e.1 (-e.2) else none) a

def pow (a : Dimension) (k : Int) : Option Dimension :=
  a.exponents.entries.foldlM (fun d e => d.raise e.1 (e.2 * k)) one

/-! ### Exponents -/

@[simp] theorem exponent_one (name : String) : one.exponent name = 0 := rfl

theorem exponent_base (name other : String) :
    (base name).exponent other = if other = name then 1 else 0 := by
  rw [exponent, base, Table.find?_insert]
  split <;> rfl

theorem exponent_raise {d d' : Dimension} {name : String} {k : Int} (h : d.raise name k = some d')
    (other : String) :
    d'.exponent other = if other = name then d.exponent name + k else d.exponent other := by
  rw [raise] at h
  split at h
  · rename_i h₀
    cases h
    rw [exponent, Table.find?_erase, h₀]
    split <;> rfl
  · split at h
    · cases h
      rw [exponent, Table.find?_insert]
      split <;> rfl
    · cases h

theorem find?_ne_zero (d : Dimension) (name : String) : d.exponents.find? name ≠ some 0 :=
  fun h => (d.admissible _ (Table.mem_of_find? h)).1 rfl

/-- A dimension is determined by its exponents. -/
theorem ext_exponent {a b : Dimension} (h : ∀ name, a.exponent name = b.exponent name) :
    a = b := by
  have hfind : ∀ name, a.exponents.find? name = b.exponents.find? name := by
    intro name
    have hab := h name
    have ha := a.find?_ne_zero name
    have hb := b.find?_ne_zero name
    simp only [exponent] at hab
    revert hab ha hb
    cases a.exponents.find? name <;> cases b.exponents.find? name <;> simp <;> omega
  obtain ⟨as, has⟩ := a
  obtain ⟨bs, hbs⟩ := b
  have : as = bs := Table.ext_find? hfind
  subst this
  rfl

/-! ### Text -/

def factorText (name : String) (e : Int) : String :=
  if e = 1 then name else s!"{name}^{e}"

/-- The factors with positive exponent and then those with negative exponent, each part in the
order of the names. -/
def text (d : Dimension) : String :=
  if d.isOne then "1"
  else
    let es := d.exponents.entries
    let ordered := es.filter (0 < ·.2) ++ es.filter (·.2 < 0)
    " ".intercalate (ordered.map fun e => factorText e.1 e.2)

end Dimension

end UnitCalc
