import UnitCalc.Proofs.ReadBack

/-! Powers by repeated squaring. A power is refused from the start when the digits of its base,
counted as often as the exponent says, could exceed the limit. What the rounds hold never takes more
room than that count, because a square is formed only for a round to come; so a power that is
admitted is computed exactly and is within the limit. -/

namespace UnitCalc

namespace Decimal

/-- What repeated squaring holds between two rounds: a square, the product so far and the exponent
that is left. -/
structure Squaring where
  square : Decimal
  result : Decimal
  remaining : Nat

namespace Squaring

/-- One round. The product takes in the square if the exponent is odd, and a new square is formed
if there is a round to come. -/
def next (s : Squaring) : Squaring where
  square := if s.remaining / 2 = 0 then s.square else s.square.mul s.square
  result := if s.remaining % 2 = 1 then s.result.mul s.square else s.result
  remaining := s.remaining / 2

/-- The states in which the rounds of a power begin. -/
inductive Round (base : Decimal) (e : Nat) : Squaring → Prop where
  | first (he : e ≠ 0) : Round base e ⟨base, 1, e⟩
  | later {s : Squaring} (hs : Round base e s) (hmore : s.next.remaining ≠ 0) :
      Round base e s.next

/-! ### The rounds lead to the power -/

theorem powerLoop_next {s : Squaring} (h : s.remaining ≠ 0) :
    powerLoop s.square s.result s.remaining =
      powerLoop s.next.square s.next.result s.next.remaining := by
  obtain ⟨square, result, remaining⟩ := s
  simp only [next] at h ⊢
  rw [powerLoop]
  by_cases hone : remaining = 1
  · subst hone
    rw [dif_pos le_rfl, powerLoop]
    rfl
  · have hhalf : remaining / 2 ≠ 0 := by omega
    rw [dif_neg (by omega), if_neg hhalf]

variable {base : Decimal} {e : Nat} {s : Squaring}

theorem Round.remaining_ne_zero (h : Round base e s) : s.remaining ≠ 0 := by
  cases h with
  | first he => exact he
  | later _ hmore => exact hmore

theorem Round.powerLoop_eq (h : Round base e s) :
    powerLoop s.square s.result s.remaining = base.power e := by
  induction h with
  | first => rfl
  | later hs _ ih => rw [← powerLoop_next hs.remaining_ne_zero, ih]

/-- The last round leaves the power. -/
theorem Round.result_eq (h : Round base e s) (hlast : s.next.remaining = 0) :
    s.next.result = base.power e := by
  rw [← h.powerLoop_eq, powerLoop_next h.remaining_ne_zero, hlast, powerLoop]
  rfl

theorem Round.exists_last (h : Round base e s) :
    ∃ t, Round base e t ∧ t.next.remaining = 0 := by
  induction hn : s.remaining using Nat.strongRecOn generalizing s with
  | ind n ih =>
    by_cases hlast : s.next.remaining = 0
    · exact ⟨s, h, hlast⟩
    · have hless : s.next.remaining < n := by
        have := h.remaining_ne_zero
        simp only [next]
        omega
      exact ih _ hless (h.later hlast) rfl

/-! ### The room that a round needs -/

/-- The room for what is still to be multiplied, together with the product so far unless that is
still the one at the start. -/
structure Fits (bound : Nat) (s : Squaring) : Prop where
  square : s.square.extent * s.remaining ≤ bound
  result : s.result = 1 ∨ s.result.extent + s.square.extent * s.remaining ≤ bound

theorem extent_one_mul_le (d : Decimal) : (mul 1 d).extent ≤ d.extent := by
  have hone : (1 : Decimal).isOne = true := by decide
  rw [mul, if_pos hone]
  exact d.extent_normalize_le

theorem extent_next_square_mul_le (s : Squaring) :
    s.next.square.extent * s.next.remaining ≤ s.square.extent * (2 * (s.remaining / 2)) := by
  simp only [next]
  split
  · rename_i hzero
    simp [hzero]
  · have hsquare := s.square.extent_mul_le s.square
    calc (s.square.mul s.square).extent * (s.remaining / 2)
        ≤ (s.square.extent + s.square.extent) * (s.remaining / 2) :=
          Nat.mul_le_mul_right _ hsquare
      _ = s.square.extent * (2 * (s.remaining / 2)) := by ring

/-- A round keeps within the room. -/
theorem Fits.next {bound : Nat} (h : s.Fits bound) : s.next.Fits bound := by
  have hsquare := s.extent_next_square_mul_le
  have hparts : s.square.extent * s.remaining =
      s.square.extent * (2 * (s.remaining / 2)) + s.square.extent * (s.remaining % 2) := by
    rw [← Nat.mul_add, Nat.div_add_mod]
  have hfits := h.square
  refine ⟨by omega, ?_⟩
  by_cases hodd : s.remaining % 2 = 1
  · have hresult : s.next.result = s.result.mul s.square := if_pos hodd
    rw [hodd, Nat.mul_one] at hparts
    right
    rw [hresult]
    rcases h.result with hone | hroom
    · have := extent_one_mul_le s.square
      rw [hone]
      omega
    · have := s.result.extent_mul_le s.square
      omega
  · have hresult : s.next.result = s.result := if_neg hodd
    rw [hresult]
    exact h.result.imp_right fun hroom => by omega

theorem Round.fits (h : Round base e s) : s.Fits (base.extent * e) := by
  induction h with
  | first => exact ⟨le_rfl, .inl rfl⟩
  | later _ _ ih => exact ih.next

theorem Fits.extent_result_le {bound : Nat} (h : s.Fits bound) :
    s.result.extent ≤ max 1 bound := by
  rcases h.result with hone | hroom
  · have : (1 : Decimal).extent = 1 := by decide
    rw [hone]
    omega
  · omega

theorem Fits.extent_square_le {bound : Nat} (h : s.Fits bound) (hmore : s.remaining ≠ 0) :
    s.square.extent ≤ bound := by
  have hone : s.square.extent * 1 ≤ s.square.extent * s.remaining :=
    Nat.mul_le_mul_left _ (by omega)
  have := h.square
  omega

/-- The values at the start and at the end of a round take at most the given room. -/
structure Within (bound : Nat) (s : Squaring) : Prop where
  square : s.square.extent ≤ bound
  result : s.result.extent ≤ bound
  nextSquare : s.next.square.extent ≤ bound
  nextResult : s.next.result.extent ≤ bound

theorem Round.within (h : Round base e s) : s.Within (max 1 (base.extent * e)) := by
  have hsquare := h.fits.extent_square_le h.remaining_ne_zero
  refine ⟨hsquare.trans (le_max_right _ _), h.fits.extent_result_le, ?_,
    h.fits.next.extent_result_le⟩
  -- The last round leaves its square as it was, any other forms it for the round to come.
  by_cases hlast : s.next.remaining = 0
  · have hsame : s.next.square = s.square := if_pos hlast
    rw [hsame]
    exact hsquare.trans (le_max_right _ _)
  · exact (h.fits.next.extent_square_le hlast).trans (le_max_right _ _)

end Squaring

open Squaring (Round)

theorem extent_power_le (base : Decimal) (e : Nat) :
    (base.power e).extent ≤ max 1 (base.extent * e) := by
  by_cases he : e = 0
  · subst he
    have hone : base.power 0 = 1 := by
      rw [power, powerLoop]
      rfl
    rw [hone]
    exact le_max_left _ _
  · have hfirst : Round base e ⟨base, 1, e⟩ := .first he
    obtain ⟨s, hs, hlast⟩ := hfirst.exists_last
    rw [← hs.result_eq hlast]
    exact hs.fits.next.extent_result_le

end Decimal

namespace Value

open Decimal.Squaring (Round)

theorem power_ofNat (precision : Nat) {base : Decimal} {e : Nat}
    (h : base.extent * e ≤ Decimal.maxExtent) :
    power precision base e = .ok (base.power e) := by
  rw [power, Int.natAbs_natCast, if_neg (by omega), if_pos (Int.natCast_nonneg e)]

theorem limited_power {base : Decimal} {e : Nat} (h : base.extent * e ≤ Decimal.maxExtent) :
    limited (base.power e) = .ok (.number (base.power e)) := by
  have hextent := base.extent_power_le e
  have hmax : 1 ≤ Decimal.maxExtent := by decide
  exact limited_eq (by omega)

/-- A power whose exponent is natural and which is not refused from the start is computed exactly.
The values of every round take no more room than the base as often as the exponent says, or that of
a one; unless the exponent is zero a last round leaves the power; and the limit of digits lets it
pass. -/
theorem power_within (precision : Nat) {base : Decimal} {e : Nat}
    (h : base.extent * e ≤ Decimal.maxExtent) :
    ∃ p, power precision base e = .ok p ∧ p.toRat = base.toRat ^ e ∧
      p.extent ≤ max 1 (base.extent * e) ∧
      (∀ s, Round base e s → s.Within (max 1 (base.extent * e))) ∧
      (e ≠ 0 → ∃ s, Round base e s ∧ s.next.remaining = 0 ∧ s.next.result = p) ∧
      ∀ lhs rhs b, integerExponent lhs rhs = .ok (e : Int) →
        numberOperation precision .pow lhs rhs base b = .ok (.number p) := by
  refine ⟨base.power e, power_ofNat precision h, base.toRat_power e, base.extent_power_le e,
    fun s hs => hs.within, fun he => ?_, fun lhs rhs b hexp => ?_⟩
  · have hfirst : Round base e ⟨base, 1, e⟩ := .first he
    obtain ⟨s, hs, hlast⟩ := hfirst.exists_last
    exact ⟨s, hs, hlast, hs.result_eq hlast⟩
  · rw [numberOperation, hexp]
    show (power precision base e).bind limited = _
    rw [power_ofNat precision h]
    exact limited_power h

/-- The sixth power of `-1.50` takes three rounds, and none of them more than thirty places. -/
theorem power_within_sixth :
    ∃ p, power 50 ⟨-150, 2⟩ (6 : Nat) = .ok p ∧ p.toRat = (-3 / 2) ^ 6 ∧ p.extent ≤ 30 ∧
      (∀ s, Round ⟨-150, 2⟩ 6 s → s.Within 30) := by
  have hextent : (⟨-150, 2⟩ : Decimal).extent = 5 := by decide
  have hvalue : (⟨-150, 2⟩ : Decimal).toRat = -3 / 2 := by
    simp only [Decimal.toRat]
    norm_num
  have hlimit : (⟨-150, 2⟩ : Decimal).extent * 6 ≤ Decimal.maxExtent := by
    rw [hextent]
    decide
  obtain ⟨p, hp, hexact, hroom, hrounds, -⟩ := power_within 50 hlimit
  rw [hvalue] at hexact
  rw [hextent] at hroom hrounds
  exact ⟨p, hp, hexact, hroom, hrounds⟩

end Value

end UnitCalc
