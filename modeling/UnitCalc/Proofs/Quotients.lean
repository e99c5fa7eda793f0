import Mathlib.Tactic.Linarith
import Mathlib.Tactic.NormNum
import Mathlib.Tactic.Positivity
import UnitCalc.Proofs.Rounding
import UnitCalc.Value.Arithmetic

/-! Quotients. A quotient is developed digit by digit until nothing is left or a hundred digits
stand there, and is then cut to the precision in force, so it is rounded twice. Both times the error
is less than one unit of the last digit kept, and the first rounding is so fine that the two together
do not exceed that. A quotient that has no more digits than the precision is exact. -/

namespace UnitCalc

namespace Decimal

open Digits (tenPow tenPow_eq)

/-! ### Developing digits -/

/-- `q` is the integer nearest to `n / den`, or one of two. -/
structure Nearest (n den q : Nat) : Prop where
  le : 2 * (q * den) ≤ 2 * n + den
  ge : 2 * n ≤ 2 * (q * den) + den

theorem nearest_of_eq {n den q : Nat} (h : q * den = n) : Nearest n den q :=
  ⟨by omega, by omega⟩

/-- The last digit is rounded half up by the digit that would follow it. -/
theorem nearest_half_up {den : Nat} (hden : 0 < den) (q : Nat) {r : Nat} (hr : r < den) :
    Nearest (q * den + r) den (if 5 ≤ 10 * r / den then q + 1 else q) := by
  have hfive : 5 ≤ 10 * r / den ↔ 5 * den ≤ 10 * r := Nat.le_div_iff_mul_le hden
  split
  · rename_i hup
    have := hfive.1 hup
    exact ⟨by rw [add_mul]; omega, by rw [add_mul]; omega⟩
  · rename_i hdown
    have := mt hfive.2 hdown
    exact ⟨by omega, by omega⟩

theorem append_digit (den q r : Nat) :
    (10 * q + 10 * r / den) * den + 10 * r % den = 10 * (q * den + r) := by
  calc (10 * q + 10 * r / den) * den + 10 * r % den
      = 10 * (q * den) + (den * (10 * r / den) + 10 * r % den) := by ring
    _ = 10 * (q * den + r) := by rw [Nat.div_add_mod]; ring

/-- Digits are developed from what is left of a division. The quotient grows by a digit in each
step, and `q * den + r` by a factor of ten. -/
theorem develop_spec {den : Nat} (hden : 0 < den) (room q : Nat) {r : Nat} (hr : r < den) :
    Nearest ((q * den + r) * 10 ^ (develop den room q (10 * r)).2) den
        (develop den room q (10 * r)).1 ∧
      ((develop den room q (10 * r)).1 * den =
          (q * den + r) * 10 ^ (develop den room q (10 * r)).2 ∨
        (develop den room q (10 * r)).2 = room) := by
  induction room generalizing q r with
  | zero =>
    simp only [develop, pow_zero, mul_one, or_true, and_true]
    exact nearest_half_up hden q hr
  | succ room ih =>
    rw [develop]
    split
    · rename_i hzero
      have hexact : q * den = (q * den + r) * 10 ^ 0 := by
        rw [pow_zero]
        omega
      exact ⟨nearest_of_eq hexact, .inl hexact⟩
    · have h := ih (10 * q + 10 * r / den) (Nat.mod_lt (10 * r) hden)
      generalize develop den room (10 * q + 10 * r / den) (10 * (10 * r % den)) = found at h ⊢
      have hpow : (q * den + r) * 10 ^ (found.2 + 1) =
          ((10 * q + 10 * r / den) * den + 10 * r % den) * 10 ^ found.2 := by
        rw [append_digit, pow_succ]
        ring
      simp only [hpow]
      exact ⟨h.1, h.2.imp_right fun hroom => by rw [hroom]⟩

/-- The dividend is lifted to the divisor. -/
theorem le_mul_lift {num den : Nat} (hnum : num ≠ 0) : den ≤ num * tenPow (lift num den) := by
  rw [lift]
  split
  · rename_i hle
    exact hle.trans (Nat.le_mul_of_pos_right num (Digits.tenPow_pos 0))
  · rename_i hlt
    dsimp only
    split
    · rename_i hle
      exact hle
    · have hcount : Digits.count num ≤ Digits.count den := by
        rw [Digits.count_le_iff (Digits.count_pos den)]
        exact (not_le.1 hlt).trans (Digits.lt_pow_count den)
      have hpos := Digits.count_pos num
      calc den ≤ 10 ^ Digits.count den := (Digits.lt_pow_count den).le
        _ = 10 ^ (Digits.count num - 1) * 10 ^ (Digits.count den - Digits.count num + 1) := by
          rw [← pow_add]
          congr 1
          omega
        _ ≤ num * tenPow (Digits.count den - Digits.count num + 1) :=
          Nat.mul_le_mul_right _ (Digits.pow_le_of_ne_zero hnum)

theorem quotient_of_rem_eq_zero {num den : Nat} (h : num * tenPow (lift num den) % den = 0) :
    quotient num den = (num * tenPow (lift num den) / den, lift num den) := if_pos h

theorem quotient_of_rem_ne_zero {num den : Nat} (h : num * tenPow (lift num den) % den ≠ 0) :
    ∃ found, found = develop den (quotientDigits - Digits.count (num * tenPow (lift num den) / den))
        (num * tenPow (lift num den) / den) (10 * (num * tenPow (lift num den) % den)) ∧
      quotient num den = (found.1, lift num den + found.2) := ⟨_, rfl, if_neg h⟩

theorem quotient_of_dvd {num den : Nat} (hle : den ≤ num) (hdvd : den ∣ num) :
    quotient num den = (num / den, 0) := by
  have hlift : lift num den = 0 := if_pos hle
  have hone : num * tenPow (lift num den) = num := by rw [hlift, tenPow_eq, pow_zero, mul_one]
  rw [quotient_of_rem_eq_zero (by rw [hone, Nat.mod_eq_zero_of_dvd hdvd]), hone, hlift]

/-- A quotient to which all digits have been appended has a hundred of them. -/
theorem long_of_full {q k : Nat} (hq : q ≠ 0) (hk : k = quotientDigits - Digits.count q)
    (den r : Nat) : 10 ^ (quotientDigits - 1) * den ≤ (q * den + r) * 10 ^ k := by
  have hpos := Digits.count_pos q
  calc 10 ^ (quotientDigits - 1) * den
      ≤ 10 ^ (Digits.count q - 1 + k) * den :=
        Nat.mul_le_mul_right _ (Nat.pow_le_pow_right (by decide) (by omega))
    _ = 10 ^ (Digits.count q - 1) * (den * 10 ^ k) := by rw [pow_add]; ring
    _ ≤ q * (den * 10 ^ k) := Nat.mul_le_mul_right _ (Digits.pow_le_of_ne_zero hq)
    _ = q * den * 10 ^ k := (mul_assoc q den (10 ^ k)).symm
    _ ≤ (q * den + r) * 10 ^ k := Nat.mul_le_mul_right _ (Nat.le_add_right _ _)

/-- A quotient is exact, or it is rounded to an integer at a place where it has a hundred digits. -/
theorem quotient_spec {num den : Nat} (hnum : num ≠ 0) (hden : 0 < den) :
    Nearest (num * 10 ^ (quotient num den).2) den (quotient num den).1 ∧
      ((quotient num den).1 * den = num * 10 ^ (quotient num den).2 ∨
        10 ^ (quotientDigits - 1) * den ≤ num * 10 ^ (quotient num den).2) := by
  have hdivision := Nat.div_add_mod' (num * tenPow (lift num den)) den
  have hrem := Nat.mod_lt (num * tenPow (lift num den)) hden
  by_cases hzero : num * tenPow (lift num den) % den = 0
  · have hexact : num * tenPow (lift num den) / den * den = num * 10 ^ lift num den := by
      rw [tenPow_eq] at hdivision hzero ⊢
      omega
    rw [quotient_of_rem_eq_zero hzero]
    exact ⟨nearest_of_eq hexact, .inl hexact⟩
  · obtain ⟨found, hfound, hquotient⟩ := quotient_of_rem_ne_zero hzero
    have hleading : num * tenPow (lift num den) / den ≠ 0 :=
      (Nat.div_pos (le_mul_lift hnum) hden).ne'
    generalize num * tenPow (lift num den) / den = q at *
    generalize num * tenPow (lift num den) % den = r at *
    have h := develop_spec hden (quotientDigits - Digits.count q) q hrem
    have hpow : num * 10 ^ (lift num den + found.2) = (q * den + r) * 10 ^ found.2 := by
      rw [pow_add, ← mul_assoc, hdivision, tenPow_eq]
    rw [← hfound] at h
    rw [hquotient]
    simp only [hpow]
    exact ⟨h.1, h.2.imp_right fun hroom => long_of_full hleading hroom den r⟩

/-! ### Developed quotients -/

/-- A decimal stands for `x` exactly, or for the integer nearest to `x` in units of its scale, of
which `x` has so many that they are written with a hundred digits. -/
structure Develops (x : ℚ) (y : Decimal) : Prop where
  near : |y.coefficient - x * 10 ^ y.scale| ≤ 1 / 2
  exact_or_long : y.toRat = x ∨ (10 : ℚ) ^ (quotientDigits - 1) ≤ |x * 10 ^ y.scale|

theorem toRat_eq_iff {x : ℚ} {y : Decimal} : y.toRat = x ↔ y.coefficient = x * 10 ^ y.scale := by
  rw [← toRat_mul_zpow, mul_left_inj' (ten_zpow_pos y.scale).ne']

theorem develops_of_eq {x : ℚ} {y : Decimal} (h : y.toRat = x) : Develops x y := by
  refine ⟨?_, .inl h⟩
  rw [toRat_eq_iff.1 h, sub_self, abs_zero]
  norm_num

theorem Nearest.abs_sub_le {n den q : Nat} (hden : 0 < den) (h : Nearest n den q) :
    |(q : ℚ) - n / den| ≤ 1 / 2 := by
  have hpos : (0 : ℚ) < den := by exact_mod_cast hden
  have hle : (2 : ℚ) * (q * den) ≤ 2 * n + den := by exact_mod_cast h.le
  have hge : (2 : ℚ) * n ≤ 2 * (q * den) + den := by exact_mod_cast h.ge
  have hcancel : (n : ℚ) / den * den = n := div_mul_cancel₀ _ hpos.ne'
  rw [abs_le]
  constructor <;> nlinarith

theorem abs_sign {a : ℤ} (ha : a ≠ 0) : |(a.sign : ℚ)| = 1 := by
  rcases lt_or_gt_of_ne ha with hneg | hpos
  · rw [Int.sign_eq_neg_one_of_neg hneg, Int.cast_neg, Int.cast_one, abs_neg, abs_one]
  · rw [Int.sign_eq_one_of_pos hpos, Int.cast_one, abs_one]

theorem cast_sign_mul_natAbs (a : ℤ) : (a.sign * a.natAbs : ℚ) = a := by
  rw [Nat.cast_natAbs, ← Int.cast_mul, Int.sign_mul_abs]

/-- The quotient of two coefficients is that of their magnitudes with the product of the signs. -/
theorem div_eq_sign_mul (a : ℤ) {b : ℤ} (hb : b ≠ 0) :
    (a : ℚ) / b = a.sign * b.sign * (a.natAbs / b.natAbs) := by
  have hsign : (b.sign : ℚ) ≠ 0 := abs_pos.1 (by rw [abs_sign hb]; norm_num)
  have hsquare : (b.sign : ℚ) * b.sign = 1 := by
    rw [← abs_mul_abs_self, abs_sign hb, one_mul]
  calc (a : ℚ) / b = a.sign * a.natAbs / (b.sign * b.natAbs) := by
        rw [cast_sign_mul_natAbs, cast_sign_mul_natAbs]
    _ = a.sign / b.sign * (a.natAbs / b.natAbs) := mul_div_mul_comm _ _ _ _
    _ = a.sign * b.sign * (a.natAbs / b.natAbs) := by
      rw [div_eq_iff hsign |>.2 (by rw [mul_assoc, hsquare, mul_one])]

theorem toRat_div_toRat (a b : Decimal) :
    a.toRat / b.toRat = a.coefficient / b.coefficient * 10 ^ (b.scale - a.scale) := by
  have hscale : b.scale - a.scale = -a.scale - -b.scale := by ring
  rw [toRat, toRat, mul_div_mul_comm, ← zpow_sub₀ (by norm_num), hscale]

theorem div_of_shortcut {a b : Decimal} (h : (a.isZero || b.isOne) = true) : a.div b = a := if_pos h

/-- The quotient of two equal numbers is a one, as a development would find. -/
theorem div_of_not_shortcut {a b : Decimal} (h : ¬ (a.isZero || b.isOne) = true) :
    a.div b = ⟨a.coefficient.sign * b.coefficient.sign *
        (quotient a.coefficient.natAbs b.coefficient.natAbs).1,
      a.scale - b.scale + (quotient a.coefficient.natAbs b.coefficient.natAbs).2⟩ := by
  rw [div, if_neg h]
  by_cases heq : a.coefficient = b.coefficient
  · have hcoefficient : b.coefficient ≠ 0 := by
      intro hzero
      simp [isZero, heq, hzero] at h
    have hsquare : b.coefficient.sign * b.coefficient.sign = 1 := by
      rcases lt_or_gt_of_ne hcoefficient with hneg | hpos
      · rw [Int.sign_eq_neg_one_of_neg hneg, neg_one_mul, neg_neg]
      · rw [Int.sign_eq_one_of_pos hpos, one_mul]
    refine (if_pos heq).trans ?_
    rw [heq, quotient_of_dvd le_rfl dvd_rfl, Nat.div_self (Int.natAbs_pos.2 hcoefficient), hsquare]
    simp
  · exact if_neg heq

theorem toRat_div_of_shortcut {a b : Decimal} (h : (a.isZero || b.isOne) = true) :
    (a.div b).toRat = a.toRat / b.toRat := by
  rw [div_of_shortcut h]
  rcases Bool.or_eq_true_iff.1 h with hzero | hone
  · rw [(a.isZero_iff).1 hzero, zero_div]
  · rw [toRat_of_isOne hone, div_one]

theorem toRat_div_mul_zpow (a : Decimal) {b : Decimal} (hb : b.coefficient ≠ 0) (k : Nat) :
    a.toRat / b.toRat * 10 ^ (a.scale - b.scale + k) =
      a.coefficient.sign * b.coefficient.sign *
        ((a.coefficient.natAbs * 10 ^ k : Nat) / b.coefficient.natAbs) := by
  have hplaces : b.scale - a.scale + (a.scale - b.scale + k) = k := by ring
  rw [toRat_div_toRat, div_eq_sign_mul _ hb, mul_assoc, ← ten_zpow_add, hplaces, zpow_natCast]
  push_cast
  ring

theorem div_develops (a : Decimal) {b : Decimal} (hb : b.isZero = false) :
    Develops (a.toRat / b.toRat) (a.div b) := by
  have hdivisor : b.coefficient ≠ 0 := by simpa [isZero] using hb
  by_cases hshortcut : (a.isZero || b.isOne) = true
  · exact develops_of_eq (toRat_div_of_shortcut hshortcut)
  have hdividend : a.coefficient ≠ 0 := by
    intro hzero
    simp [isZero, hzero] at hshortcut
  have hpos : (0 : ℚ) < b.coefficient.natAbs := by exact_mod_cast Int.natAbs_pos.2 hdivisor
  obtain ⟨hnearest, hexact⟩ := quotient_spec (Int.natAbs_ne_zero.2 hdividend)
    (Int.natAbs_pos.2 hdivisor)
  rw [div_of_not_shortcut hshortcut]
  generalize quotient a.coefficient.natAbs b.coefficient.natAbs = found at hnearest hexact ⊢
  obtain ⟨q, k⟩ := found
  have hscaled := toRat_div_mul_zpow a hdivisor k
  have habs : |(a.coefficient.sign * b.coefficient.sign : ℚ)| = 1 := by
    rw [abs_mul, abs_sign hdividend, abs_sign hdivisor, one_mul]
  have hcoefficient : ((a.coefficient.sign * b.coefficient.sign * q : ℤ) : ℚ) =
      a.coefficient.sign * b.coefficient.sign * q := by push_cast; rfl
  constructor
  · simp only
    rw [hscaled, hcoefficient, ← mul_sub, abs_mul, habs, one_mul]
    exact hnearest.abs_sub_le (Int.natAbs_pos.2 hdivisor)
  · refine hexact.imp (fun hexact => ?_) fun hlong => ?_
    · rw [toRat_eq_iff]
      simp only
      rw [hscaled, hcoefficient, ← hexact, Nat.cast_mul, mul_div_cancel_right₀ _ hpos.ne']
    · simp only
      rw [hscaled, abs_mul, habs, one_mul, abs_of_nonneg (by positivity), le_div_iff₀ hpos]
      exact_mod_cast hlong

/-! ### Accuracy -/

theorem eq_of_abs_sub_le_half {c z : ℤ} (h : |(c : ℚ) - z| ≤ 1 / 2) : c = z := by
  by_contra hne
  have hone : (1 : ℚ) ≤ |(c : ℚ) - z| := by exact_mod_cast Int.one_le_abs (sub_ne_zero.2 hne)
  linarith

/-- The development is exact if a hundred digits are enough. -/
theorem Develops.toRat_eq {x : ℚ} {y : Decimal} (h : Develops x y)
    (hx : HasDigits quotientDigits x) : y.toRat = x := by
  rcases h.exact_or_long with hexact | hlong
  · exact hexact
  · obtain ⟨m, k, hm, hvalue⟩ := hx
    have hscaled : x * 10 ^ y.scale = m * 10 ^ (k + y.scale) := by
      rw [hvalue, mul_assoc, ← ten_zpow_add]
    have hplaces : ((quotientDigits : ℤ) + 0 - 1) = (quotientDigits - 1 : Nat) := rfl
    have hinteger : 0 ≤ k + y.scale := by
      refine le_of_zpow_le hm ?_
      rwa [hplaces, zpow_natCast, ← hscaled]
    obtain ⟨z, hz⟩ := exists_int_of_nonneg m hinteger
    have hnear := h.near
    rw [hscaled, hz] at hnear
    rw [toRat_eq_iff, hscaled, hz, eq_of_abs_sub_le_half hnear]

/-- A development as a whole is within one unit of the last of `p` digits of `x`. -/
theorem Develops.abs_coefficient_sub_lt {x : ℚ} {y : Decimal} (h : Develops x y) {p : Nat}
    (hp : p ≤ quotientDigits) (hx : x ≠ 0) :
    |y.coefficient - x * 10 ^ y.scale| < 10 ^ (1 - p : ℤ) * |x * 10 ^ y.scale| := by
  have hprecision := ten_zpow_pos (1 - p)
  rcases h.exact_or_long with hexact | hlong
  · have hscaled : x * 10 ^ y.scale ≠ 0 := mul_ne_zero hx (ten_zpow_pos y.scale).ne'
    rw [toRat_eq_iff.1 hexact, sub_self, abs_zero]
    positivity
  · have hunit : (1 : ℚ) ≤ 10 ^ (1 - p : ℤ) * 10 ^ (quotientDigits - 1) := by
      rw [← zpow_natCast, ← ten_zpow_add]
      refine one_le_zpow₀ (by norm_num) ?_
      have : ((quotientDigits - 1 : Nat) : ℤ) = quotientDigits - 1 := rfl
      omega
    have hscale := mul_le_mul_of_nonneg_left hlong hprecision.le
    have hnear := h.near
    linarith

/-- So is an integer that differs from the coefficient by less than the unit it is cut at. The
halves by which the development may miss `x` are made up for because both bounds are strict and
about integers. -/
theorem Develops.abs_cut_sub_lt {x : ℚ} {y : Decimal} (h : Develops x y) {p : Nat} {z : ℤ}
    (hlost : |z - y.coefficient| < 10 ^ (y.digitCount - p))
    (hlarge : 10 ^ (y.digitCount - 1) < |y.coefficient|) (hlt : p < y.digitCount) :
    |z - x * 10 ^ y.scale| < 10 ^ (1 - p : ℤ) * |x * 10 ^ y.scale| := by
  have hunits : (10 : ℚ) ^ (1 - p : ℤ) * 10 ^ (y.digitCount - 1) = 10 ^ (y.digitCount - p) := by
    rw [← zpow_natCast, ← zpow_natCast, ← ten_zpow_add]
    congr 1
    omega
  have hlost' : |(z : ℚ) - y.coefficient| ≤ 10 ^ (y.digitCount - p) - 1 := by
    have := Int.le_sub_one_of_lt hlost
    exact_mod_cast this
  have hlarge' : (10 : ℚ) ^ (y.digitCount - 1) + 1 ≤ |(y.coefficient : ℚ)| := by
    have := Int.add_one_le_of_lt hlarge
    exact_mod_cast this
  have hnear := h.near
  have hquotient : (10 : ℚ) ^ (y.digitCount - 1) ≤ |x * 10 ^ y.scale| := by
    have := abs_sub_abs_le_abs_sub (y.coefficient : ℚ) (x * 10 ^ y.scale)
    linarith
  have hscale := mul_le_mul_of_nonneg_left hquotient (ten_zpow_pos (1 - p)).le
  have htriangle := abs_sub_le (z : ℚ) y.coefficient (x * 10 ^ y.scale)
  rw [hunits] at hscale
  linarith

/-- Cutting the development to `p` digits keeps it within one unit of the last digit of `x`. -/
theorem Develops.abs_sub_lt {x : ℚ} {y : Decimal} (h : Develops x y) {p : Nat} (hp : 1 ≤ p)
    (hp' : p ≤ quotientDigits) (hx : x ≠ 0) :
    |(y.withDigits p).toRat - x| < 10 ^ (1 - p : ℤ) * |x| := by
  have hpow := ten_zpow_pos y.scale
  -- Both sides are counted in units of the scale of the development.
  suffices hscaled : |(y.withDigits p).toRat * 10 ^ y.scale - x * 10 ^ y.scale| <
      10 ^ (1 - p : ℤ) * |x * 10 ^ y.scale| by
    rw [← sub_mul, abs_mul, abs_mul, abs_of_pos hpow, ← mul_assoc] at hscaled
    exact lt_of_mul_lt_mul_right hscaled hpow.le
  rcases withDigits_cases hp y with hkept | ⟨z, hz, hlost, hlarge, hlt⟩
  · rw [hkept, toRat_mul_zpow]
    exact h.abs_coefficient_sub_lt hp' hx
  · rw [hz]
    exact h.abs_cut_sub_lt hlost hlarge hlt

/-- A decimal with at most `p` significant digits that is `x` wherever `x` has no more of them, and
differs from it by less than one unit of the last digit otherwise. -/
structure Accurate (p : Nat) (x : ℚ) (r : Decimal) : Prop where
  hasDigits : HasDigits p r.toRat
  zero_iff : r.toRat = 0 ↔ x = 0
  eq_of_hasDigits : HasDigits p x → r.toRat = x
  close : x ≠ 0 → |r.toRat - x| < 10 ^ (1 - p : ℤ) * |x|

theorem Develops.accurate {x : ℚ} {y : Decimal} (h : Develops x y) {p : Nat} (hp : 1 ≤ p)
    (hp' : p ≤ quotientDigits) : Accurate p x (y.withDigits p) := by
  have hexact : HasDigits p x → (y.withDigits p).toRat = x := by
    intro hx
    have hy := h.toRat_eq (hx.mono hp')
    rw [toRat_withDigits_of_hasDigits (by rwa [hy]), hy]
  refine ⟨hasDigits_withDigits hp y, ⟨fun hzero => ?_, fun hzero => ?_⟩, hexact,
    h.abs_sub_lt hp hp'⟩
  · by_contra hx
    have hclose := h.abs_sub_lt hp hp' hx
    have hprecision : (10 : ℚ) ^ (1 - p : ℤ) ≤ 1 := zpow_le_one_of_nonpos₀ (by norm_num) (by omega)
    have hscale := mul_le_mul_of_nonneg_right hprecision (abs_nonneg x)
    rw [hzero, zero_sub, abs_neg] at hclose
    linarith
  · rw [hexact (hzero ▸ hasDigits_zero p), hzero]

theorem div_accurate (a : Decimal) {b : Decimal} (hb : b.isZero = false) {p : Nat} (hp : 1 ≤ p)
    (hp' : p ≤ quotientDigits) : Accurate p (a.toRat / b.toRat) ((a.div b).withDigits p) :=
  (a.div_develops hb).accurate hp hp'

end Decimal

namespace Value

theorem power_of_neg (precision : Nat) {base : Decimal} {e : Int} (he : e < 0)
    (hbase : base.toRat ≠ 0) (hroom : base.extent * e.natAbs ≤ Decimal.maxExtent) :
    (base.power e.natAbs).isZero = false ∧
      power precision base e =
        .ok ((Decimal.div 1 (base.power e.natAbs)).withDigits precision) := by
  have hpower : (base.power e.natAbs).isZero = false := by
    rw [Bool.eq_false_iff, ne_eq, Decimal.isZero_iff, Decimal.toRat_power]
    exact pow_ne_zero _ hbase
  refine ⟨hpower, ?_⟩
  rw [power, if_neg (not_lt.2 hroom)]
  simp only [if_neg (not_le.2 he), hpower]
  rfl

/-- Quotients are accurate. The number that a division computes, before its size is checked, has at
most as many digits as the precision says, is exact if the quotient has no more, and is otherwise
within one unit of the last digit; so is the number that a power with a negative exponent gives. -/
theorem quotient_accurate {precision : Nat} (hp : 1 ≤ precision ∧ precision ≤ 100) :
    (∀ (lhs rhs : Value) (a b : Decimal), b.toRat ≠ 0 →
      numberOperation precision .div lhs rhs a b = limited ((a.div b).withDigits precision) ∧
        (((a.div b).withDigits precision).toRat = 0 ↔ a.toRat = 0) ∧
        Decimal.Accurate precision (a.toRat / b.toRat) ((a.div b).withDigits precision)) ∧
      ∀ (base : Decimal) (e : Int), e < 0 → base.toRat ≠ 0 →
        base.extent * e.natAbs ≤ Decimal.maxExtent →
          ∃ r, power precision base e = .ok r ∧
            Decimal.Accurate precision (1 / base.toRat ^ e.natAbs) r := by
  refine ⟨fun lhs rhs a b hb => ?_, fun base e he hbase hroom => ?_⟩
  · have hzero : b.isZero = false := by rwa [Bool.eq_false_iff, ne_eq, Decimal.isZero_iff]
    have haccurate := a.div_accurate hzero hp.1 hp.2
    refine ⟨if_neg (by simp [hzero]), ?_, haccurate⟩
    rw [haccurate.zero_iff, div_eq_zero_iff, or_iff_left hb]
  · obtain ⟨hzero, hpower⟩ := power_of_neg precision he hbase hroom
    have haccurate := Decimal.div_accurate 1 hzero hp.1 hp.2
    rw [Decimal.toRat_one, Decimal.toRat_power] at haccurate
    exact ⟨_, hpower, haccurate⟩

/-- Two thirds, negative and with three digits, and the inverse of `-1.5`. -/
theorem quotient_accurate_thirds :
    Decimal.Accurate 3 (-2 / 3) ⟨-666, 3⟩ ∧
      ∃ r, power 3 ⟨-15, 1⟩ (-1) = .ok r ∧ Decimal.Accurate 3 (1 / (-3 / 2) ^ 1) r := by
  have hprecision : 1 ≤ 3 ∧ 3 ≤ 100 := by decide
  obtain ⟨hdivision, hpower⟩ := quotient_accurate hprecision
  have hdividend : (⟨-2, 0⟩ : Decimal).toRat = -2 := by simp [Decimal.toRat]
  have hbase : (⟨-15, 1⟩ : Decimal).toRat = -3 / 2 := by
    rw [Decimal.toRat]
    norm_num
  have hthree : (3 : Decimal).toRat = 3 := Decimal.toRat_ofNat 3
  have hcut : (Decimal.div ⟨-2, 0⟩ 3).withDigits 3 = ⟨-666, 3⟩ := by decide +kernel
  obtain ⟨-, -, haccurate⟩ := hdivision (.ofDecimal ⟨-2, 0⟩) (.ofDecimal 3) ⟨-2, 0⟩ 3
    (by rw [hthree]; norm_num)
  rw [hdividend, hthree, hcut] at haccurate
  refine ⟨haccurate, ?_⟩
  have hinverse := hpower ⟨-15, 1⟩ (-1) (by decide) (by rw [hbase]; norm_num) (by decide)
  rwa [hbase] at hinverse

end Value

end UnitCalc
