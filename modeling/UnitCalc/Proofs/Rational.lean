import Mathlib.Algebra.Order.Field.Power
import Mathlib.Algebra.Order.Ring.Cast
import Mathlib.Data.Rat.Cast.Order
import Mathlib.Data.Rat.Lemmas
import Mathlib.Tactic.FieldSimp
import Mathlib.Tactic.Ring
import UnitCalc.Decimal.Arithmetic

/-! Decimals as rational numbers. A decimal stands for its coefficient over a power of ten, and many
pairs of coefficient and scale stand for the same number. Sums, differences, products, remainders,
powers and shifts give exactly the number they should, whichever pairs the operands are, and
comparing decimals is comparing numbers. -/

namespace UnitCalc

/-- A rational number without its fraction. -/
def integerPart (q : ℚ) : ℤ := q.num.tdiv q.den

/-- What is left of `a` when the whole multiples of `b` are taken away, with the sign of `a`. -/
def remainder (a b : ℚ) : ℚ := a - b * integerPart (a / b)

theorem tdiv_mul_left {c : ℤ} (hc : c ≠ 0) (n d : ℤ) : (c * n).tdiv (c * d) = n.tdiv d := by
  rcases lt_or_gt_of_ne hc with hneg | hpos
  · have hflip : ∀ x : ℤ, c * x = -(-c * x) := fun x => by ring
    rw [hflip n, hflip d, Int.neg_tdiv_neg, Int.mul_tdiv_mul_of_pos _ _ (by omega)]
  · rw [Int.mul_tdiv_mul_of_pos _ _ hpos]

/-- The integer part of a fraction is the quotient toward zero, in lowest terms or not. -/
theorem integerPart_div (a : ℤ) {b : ℤ} (hb : b ≠ 0) : integerPart (a / b : ℚ) = a.tdiv b := by
  obtain ⟨c, hnum, hden⟩ := Rat.num_den_mk (q := (a / b : ℚ)) hb (Rat.divInt_eq_div a b).symm
  have hc : c ≠ 0 := by
    intro hzero
    rw [hzero, zero_mul] at hden
    exact hb hden
  calc integerPart (a / b : ℚ)
      = (c * (a / b : ℚ).num).tdiv (c * (a / b : ℚ).den) := (tdiv_mul_left hc _ _).symm
    _ = a.tdiv b := by rw [← hnum, ← hden]

namespace Digits

theorem tenPow_eq (k : Nat) : tenPow k = 10 ^ k := rfl

theorem tenPow_pos (k : Nat) : 0 < tenPow k := Nat.pow_pos (by decide)

theorem stripped_succ (j n : Nat) : stripped (j + 1) n =
    if n % tenPow (2 ^ j) = 0 then
      ((stripped j (n / tenPow (2 ^ j))).1, 2 ^ j + (stripped j (n / tenPow (2 ^ j))).2)
    else stripped j n := rfl

/-- Trailing zeros are taken off without changing the number. -/
theorem stripped_mul (j n : Nat) : (stripped j n).1 * 10 ^ (stripped j n).2 = n := by
  induction j generalizing n with
  | zero => exact Nat.mul_one n
  | succ j ih =>
    rw [stripped_succ]
    split
    · rename_i hdvd
      have hdiv : n / tenPow (2 ^ j) * tenPow (2 ^ j) = n :=
        Nat.div_mul_cancel (Nat.dvd_of_mod_eq_zero hdvd)
      calc (stripped j (n / tenPow (2 ^ j))).1 * 10 ^ (2 ^ j + (stripped j (n / tenPow (2 ^ j))).2)
          = (stripped j (n / tenPow (2 ^ j))).1 * 10 ^ (stripped j (n / tenPow (2 ^ j))).2 *
              tenPow (2 ^ j) := by rw [tenPow_eq, pow_add]; ring
        _ = n := by rw [ih, hdiv]
    · exact ih n

end Digits

namespace Decimal

open Digits (tenPow tenPow_eq)

/-- The number that a decimal stands for. -/
def toRat (d : Decimal) : ℚ := d.coefficient * (10 : ℚ) ^ (-d.scale)

theorem ten_zpow_pos (k : ℤ) : (0 : ℚ) < 10 ^ k := zpow_pos (by norm_num) k

theorem ten_zpow_add (a b : ℤ) : (10 : ℚ) ^ (a + b) = 10 ^ a * 10 ^ b :=
  zpow_add₀ (by norm_num) a b

theorem cast_tenPow (k : Nat) : ((tenPow k : ℤ) : ℚ) = 10 ^ (k : ℤ) := by
  rw [tenPow_eq]
  push_cast
  rw [zpow_natCast]

@[simp] theorem toRat_ofNat (n : Nat) : (OfNat.ofNat n : Decimal).toRat = n := by
  show ((n : ℤ) : ℚ) * 10 ^ (-(0 : ℤ)) = n
  simp

theorem toRat_one : (1 : Decimal).toRat = 1 := by
  rw [toRat_ofNat, Nat.cast_one]

/-! ### One number, many pairs -/

/-- At a finer scale the coefficient counts units of that scale. -/
theorem cast_atScale (d : Decimal) {scale : ℤ} (h : d.scale ≤ scale) :
    (d.atScale scale : ℚ) = d.toRat * 10 ^ scale := by
  have hplaces : ((scale - d.scale).toNat : ℤ) = -d.scale + scale := by omega
  rw [atScale, toRat, Int.cast_mul, cast_tenPow, hplaces, ten_zpow_add]
  ring

theorem toRat_of_atScale {c scale : ℤ} {q : ℚ} (h : (c : ℚ) = q * 10 ^ scale) :
    (⟨c, scale⟩ : Decimal).toRat = q := by
  rw [toRat, h, mul_assoc, ← ten_zpow_add]
  simp

@[simp] theorem toRat_extend (d : Decimal) (k : Nat) : (d.extend k).toRat = d.toRat := by
  apply toRat_of_atScale
  rw [toRat, Int.cast_mul, cast_tenPow, mul_assoc, ← ten_zpow_add]
  congr 2
  ring

theorem isZero_iff (d : Decimal) : d.isZero = true ↔ d.toRat = 0 := by
  have hpow := (ten_zpow_pos (-d.scale)).ne'
  rw [isZero, decide_eq_true_iff, toRat, mul_eq_zero, or_iff_left hpow, Int.cast_eq_zero]

theorem toRat_of_isOne {d : Decimal} (h : d.isOne = true) : d.toRat = 1 := by
  simp only [isOne, Bool.and_eq_true, decide_eq_true_eq] at h
  obtain ⟨⟨hscale, -⟩, hone⟩ := h
  obtain ⟨c, scale⟩ := d
  apply toRat_of_atScale
  simp only at hone hscale
  rw [hone, cast_tenPow, Int.toNat_of_nonneg hscale, one_mul]

theorem normalize_eq {d : Decimal} (h : d.coefficient ≠ 0) :
    d.normalize = ⟨d.coefficient.sign * (Digits.stripZeros d.coefficient.natAbs).1,
      d.scale - (Digits.stripZeros d.coefficient.natAbs).2⟩ := by
  rw [normalize, if_neg h]

/-- What `normalize` takes off the coefficient is a power of ten. -/
theorem coefficient_eq (d : Decimal) :
    d.coefficient = d.coefficient.sign * (Digits.stripZeros d.coefficient.natAbs).1 *
      10 ^ (Digits.stripZeros d.coefficient.natAbs).2 := by
  have hstrip := Digits.stripped_mul (Digits.rounds d.coefficient.natAbs) d.coefficient.natAbs
  calc d.coefficient = d.coefficient.sign * (d.coefficient.natAbs : ℤ) :=
        (Int.sign_mul_natAbs d.coefficient).symm
    _ = _ := by
      conv_lhs => rw [← hstrip]
      push_cast
      rw [mul_assoc]
      rfl

@[simp] theorem toRat_normalize (d : Decimal) : d.normalize.toRat = d.toRat := by
  by_cases hzero : d.coefficient = 0
  · rw [normalize, if_pos hzero, (d.isZero_iff).1 (by simp [isZero, hzero])]
    exact toRat_ofNat 0
  · rw [normalize_eq hzero]
    apply toRat_of_atScale
    have hcast := congrArg (fun c : ℤ => (c : ℚ)) d.coefficient_eq
    simp only [Int.cast_mul _ (10 ^ _), Int.cast_pow, Int.cast_ofNat, ← zpow_natCast] at hcast
    have hcancel : ∀ k : ℤ, k + (-d.scale + (d.scale - k)) = 0 := fun k => by ring
    rw [toRat, hcast, mul_assoc, mul_assoc, ← ten_zpow_add, ← ten_zpow_add, hcancel, zpow_zero,
      mul_one]

/-! ### Arithmetic -/

@[simp] theorem toRat_neg (d : Decimal) : d.neg.toRat = -d.toRat := by
  simp [toRat, neg]

@[simp] theorem toRat_add (a b : Decimal) : (a.add b).toRat = a.toRat + b.toRat := by
  rw [add]
  split
  · rename_i hb
    rw [toRat_extend, (b.isZero_iff).1 hb, add_zero]
  · split
    · rename_i ha
      rw [toRat_extend, (a.isZero_iff).1 ha, zero_add]
    · apply toRat_of_atScale
      rw [Int.cast_add, cast_atScale a (le_max_left _ _), cast_atScale b (le_max_right _ _)]
      ring

@[simp] theorem toRat_sub (a b : Decimal) : (a.sub b).toRat = a.toRat - b.toRat := by
  apply toRat_of_atScale
  rw [Int.cast_sub, cast_atScale a (le_max_left _ _), cast_atScale b (le_max_right _ _)]
  ring

@[simp] theorem toRat_mul (a b : Decimal) : (a.mul b).toRat = a.toRat * b.toRat := by
  rw [mul]
  split
  · rename_i ha
    rw [toRat_normalize, toRat_of_isOne ha, one_mul]
  · split
    · rename_i hb
      rw [toRat_normalize, toRat_of_isOne hb, mul_one]
    · simp only [toRat, Int.cast_mul, neg_add, ten_zpow_add]
      ring

@[simp] theorem toRat_shift (d : Decimal) (k : ℤ) : (d.shift k).toRat = d.toRat * 10 ^ k := by
  rw [shift]
  split
  · rename_i hone
    rw [toRat_of_isOne hone]
    simp [toRat]
  · have hscale : -(d.scale - k) = -d.scale + k := by ring
    simp only [toRat, hscale, ten_zpow_add]
    ring

theorem toRat_rem (a : Decimal) {b : Decimal} (hb : b.isZero = false) :
    (a.rem b).toRat = remainder a.toRat b.toRat := by
  have hne : b.toRat ≠ 0 := fun h => by simp [(b.isZero_iff).2 h] at hb
  have hca := cast_atScale a (le_max_left a.scale b.scale)
  have hcb := cast_atScale b (le_max_right a.scale b.scale)
  have hpow := (ten_zpow_pos (max a.scale b.scale)).ne'
  have hscaled : b.atScale (max a.scale b.scale) ≠ 0 := by
    intro h
    rw [h, Int.cast_zero] at hcb
    exact mul_ne_zero hne hpow hcb.symm
  have hquotient : a.toRat / b.toRat =
      (a.atScale (max a.scale b.scale) / b.atScale (max a.scale b.scale) : ℚ) := by
    rw [hca, hcb]
    field_simp
  apply toRat_of_atScale
  rw [remainder, hquotient, integerPart_div _ hscaled, Int.tmod_def, Int.cast_sub, Int.cast_mul,
    hca, hcb]
  ring

/-- Repeated squaring multiplies `result` by the power. -/
theorem toRat_powerLoop (square result : Decimal) (e : Nat) :
    (powerLoop square result e).toRat = result.toRat * square.toRat ^ e := by
  induction e using Nat.strongRecOn generalizing square result with
  | ind e ih =>
    rw [powerLoop]
    split
    · rename_i hle
      split
      · rename_i hone
        rw [toRat_mul, hone, pow_one]
      · have hzero : e = 0 := by omega
        rw [hzero, pow_zero, mul_one]
    · rename_i hle
      have hhalf : square.toRat ^ e = (square.toRat * square.toRat) ^ (e / 2) *
          square.toRat ^ (e % 2) := by
        rw [← pow_two, ← pow_mul, ← pow_add, Nat.div_add_mod]
      rw [ih (e / 2) (by omega), toRat_mul, hhalf]
      split
      · rename_i hodd
        rw [toRat_mul, hodd]
        ring
      · have heven : e % 2 = 0 := by omega
        rw [heven]
        ring

@[simp] theorem toRat_power (base : Decimal) (e : Nat) :
    (base.power e).toRat = base.toRat ^ e := by
  rw [power, toRat_powerLoop, toRat_one, one_mul]

/-! ### Order -/

/-- Numbers of one scale are ordered as their coefficients are. -/
theorem cmp_mul_zpow (c d k : ℤ) : cmp ((c : ℚ) * 10 ^ k) (d * 10 ^ k) = cmp c d := by
  rw [cmp_mul_pos_right (ten_zpow_pos k), Int.cast_strictMono.cmp_map_eq]

/-- Comparing decimals is comparing numbers. -/
theorem compare_eq (a b : Decimal) : a.compare b = cmp a.toRat b.toRat := by
  by_cases hzero : (a.isZero || b.isZero) = true
  · have hcompare : a.compare b = Ord.compare a.coefficient b.coefficient := if_pos hzero
    rw [hcompare, ← cmp_eq_compare]
    simp only [Bool.or_eq_true, isZero, decide_eq_true_eq] at hzero
    -- With a zero on one side the sign of the other coefficient decides.
    rcases hzero with ha | hb
    · have hscaled := cmp_mul_zpow 0 b.coefficient (-b.scale)
      rw [Int.cast_zero, zero_mul] at hscaled
      rw [toRat, toRat, ha, Int.cast_zero, zero_mul, hscaled]
    · have hscaled := cmp_mul_zpow a.coefficient 0 (-a.scale)
      rw [Int.cast_zero, zero_mul] at hscaled
      rw [toRat, toRat, hb, Int.cast_zero, zero_mul, hscaled]
  · have hcompare : a.compare b = Ord.compare (a.atScale (max a.scale b.scale))
        (b.atScale (max a.scale b.scale)) := if_neg hzero
    have hpow := ten_zpow_pos (max a.scale b.scale)
    rw [hcompare, ← cmp_mul_pos_right hpow, ← cast_atScale a (le_max_left _ _),
      ← cast_atScale b (le_max_right _ _), Int.cast_strictMono.cmp_map_eq, cmp_eq_compare]

theorem compare_eq_lt_iff {a b : Decimal} : a.compare b = .lt ↔ a.toRat < b.toRat := by
  rw [compare_eq, cmp_eq_lt_iff]

theorem compare_eq_eq_iff {a b : Decimal} : a.compare b = .eq ↔ a.toRat = b.toRat := by
  rw [compare_eq, cmp_eq_eq_iff]

theorem compare_eq_gt_iff {a b : Decimal} : a.compare b = .gt ↔ b.toRat < a.toRat := by
  rw [compare_eq, cmp_eq_gt_iff]

theorem same_iff (a b : Decimal) : a.same b = true ↔ a.toRat = b.toRat := by
  rw [same, decide_eq_true_iff, compare_eq_eq_iff]

/-! ### Integers -/

/-- An integer is the number that it stands for. -/
theorem cast_truncate {d : Decimal} (h : d.isInteger = true) : (d.truncate : ℚ) = d.toRat := by
  rw [truncate]
  split
  · rename_i hscale
    rw [cast_atScale d hscale, zpow_zero, mul_one]
  · rename_i hscale
    have hdvd : (tenPow d.scale.toNat : ℤ) ∣ d.coefficient := by
      simp only [isInteger, hscale, decide_false, Bool.false_or, decide_eq_true_eq] at h
      exact Int.dvd_of_emod_eq_zero h
    obtain ⟨z, hz⟩ := hdvd
    have hpow : (tenPow d.scale.toNat : ℤ) ≠ 0 := by
      have := Digits.tenPow_pos d.scale.toNat
      omega
    rw [hz, Int.mul_tdiv_cancel_left _ hpow]
    symm
    obtain ⟨c, scale⟩ := d
    apply toRat_of_atScale
    simp only at hz hscale
    rw [hz, Int.cast_mul, cast_tenPow, Int.toNat_of_nonneg (by omega), mul_comm]

theorem isInteger_of_toRat_eq {d : Decimal} {z : ℤ} (h : d.toRat = z) : d.isInteger = true := by
  rw [isInteger, Bool.or_eq_true, decide_eq_true_iff, decide_eq_true_iff]
  by_cases hscale : d.scale ≤ 0
  · exact .inl hscale
  · right
    have hcoefficient : (d.coefficient : ℚ) = (z * tenPow d.scale.toNat : ℤ) := by
      rw [Int.cast_mul, cast_tenPow, Int.toNat_of_nonneg (by omega), ← h, toRat, mul_assoc,
        ← ten_zpow_add]
      simp
    rw [Int.cast_inj.1 hcoefficient]
    exact Int.mul_emod_left _ _

end Decimal

end UnitCalc
