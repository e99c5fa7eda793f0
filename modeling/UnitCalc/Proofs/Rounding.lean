import Mathlib.Tactic.Positivity
import UnitCalc.Proofs.Numerals

/-! Rounding to a number of digits. A number has `p` significant digits if it is an integer of `p`
digits times a power of ten. Cutting a decimal to `p` digits gives such a number, which differs from
the decimal by less than one unit of its last digit, and is the decimal itself if that has no more
than `p` significant digits. Two decimals of one value, other than zero, are cut to the same. -/

namespace UnitCalc

/-- At most `p` significant digits: zeros at the end are not counted. -/
def HasDigits (p : Nat) (x : ℚ) : Prop := ∃ m k : ℤ, m.natAbs < 10 ^ p ∧ x = m * 10 ^ k

theorem HasDigits.mono {p q : Nat} (h : p ≤ q) {x : ℚ} (hx : HasDigits p x) : HasDigits q x := by
  obtain ⟨m, k, hm, hx⟩ := hx
  exact ⟨m, k, hm.trans_le (Nat.pow_le_pow_right (by decide) h), hx⟩

theorem hasDigits_zero (p : Nat) : HasDigits p 0 :=
  ⟨0, 0, Nat.pow_pos (by decide), by simp⟩

theorem HasDigits.neg {p : Nat} {x : ℚ} (hx : HasDigits p x) : HasDigits p (-x) := by
  obtain ⟨m, k, hm, hx⟩ := hx
  exact ⟨-m, k, by rwa [Int.natAbs_neg], by rw [hx, Int.cast_neg, neg_mul]⟩

/-- A number with `p` digits that reaches `10 ^ (p + t - 1)` ends in `t` zeros. -/
theorem le_of_zpow_le {m j t : ℤ} {p : Nat} (hm : m.natAbs < 10 ^ p)
    (h : (10 : ℚ) ^ (p + t - 1) ≤ |(m : ℚ) * 10 ^ j|) : t ≤ j := by
  have hbound : |(m : ℚ)| < 10 ^ (p : ℤ) := by
    rw [zpow_natCast, ← Int.cast_abs, Int.abs_eq_natAbs]
    exact_mod_cast hm
  have hlt : (10 : ℚ) ^ (p + t - 1) < 10 ^ (p + j) :=
    calc (10 : ℚ) ^ (p + t - 1) ≤ |(m : ℚ)| * 10 ^ j := by
          rwa [abs_mul, abs_of_pos (Decimal.ten_zpow_pos j)] at h
      _ < 10 ^ (p : ℤ) * 10 ^ j := mul_lt_mul_of_pos_right hbound (Decimal.ten_zpow_pos j)
      _ = 10 ^ (p + j) := (Decimal.ten_zpow_add p j).symm
  have := (zpow_lt_zpow_iff_right₀ (by norm_num)).1 hlt
  omega

theorem exists_int_of_nonneg (m : ℤ) {j : ℤ} (hj : 0 ≤ j) : ∃ z : ℤ, (m : ℚ) * 10 ^ j = z := by
  refine ⟨m * 10 ^ j.toNat, ?_⟩
  rw [Int.cast_mul, Int.cast_pow, Int.cast_ofNat, ← zpow_natCast, Int.toNat_of_nonneg hj]

theorem pow_dvd_of_eq {c m j : ℤ} {t : Nat} (h : (c : ℚ) = m * 10 ^ j) (ht : t ≤ j) :
    (10 ^ t : ℤ) ∣ c := by
  obtain ⟨z, hz⟩ := exists_int_of_nonneg m (sub_nonneg.2 ht)
  have hc : (c : ℚ) = (10 ^ t * z : ℤ) :=
    calc (c : ℚ) = m * (10 ^ (t : ℤ) * 10 ^ (j - t)) := by
          rw [h, ← Decimal.ten_zpow_add, add_sub_cancel]
      _ = 10 ^ (t : ℤ) * (m * 10 ^ (j - t)) := by ring
      _ = (10 ^ t * z : ℤ) := by rw [hz, zpow_natCast]; push_cast; rfl
  exact ⟨z, by exact_mod_cast hc⟩

theorem Digits.pow_le_of_ne_zero {n : Nat} (hn : n ≠ 0) : 10 ^ (count n - 1) ≤ n := by
  by_contra hlt
  rcases Nat.eq_zero_or_pos (count n - 1) with hzero | hpos
  · rw [hzero, pow_zero] at hlt
    omega
  · have := (count_le_iff hpos).2 (not_le.1 hlt)
    omega

namespace Decimal

open Digits (tenPow tenPow_eq)

/-! ### Cutting an integer -/

/-- The multiple of `unit` that a coefficient is cut to, in units. -/
def cut (c unit : ℤ) : ℤ := if 0 < c.tmod unit ∧ unit ≤ 2 * c.tmod unit then c.tdiv unit + 1
  else c.tdiv unit

theorem withDigits_of_le {d : Decimal} {p : Nat} (h : d.digitCount ≤ p) :
    d.withDigits p = d.extend (p - d.digitCount) := if_pos h

theorem withDigits_of_lt {d : Decimal} {p : Nat} (h : p < d.digitCount) :
    d.withDigits p = ⟨cut d.coefficient (10 ^ (d.digitCount - p)),
      d.scale - (d.digitCount - p : Nat)⟩ := by
  rw [withDigits, if_neg (not_le.2 h)]
  simp only [cut, tenPow_eq]
  push_cast
  rfl

theorem abs_cut_sub_lt (c : ℤ) {unit : ℤ} (hunit : 0 < unit) : |cut c unit * unit - c| < unit := by
  have hdivision := Int.mul_tdiv_add_tmod c unit
  have hrem := Int.tmod_lt_of_pos c hunit
  have hrem' := Int.lt_tmod_of_pos c hunit
  rw [abs_lt, cut]
  split
  · rename_i hup
    rw [add_mul, one_mul, mul_comm (c.tdiv unit)]
    omega
  · rw [mul_comm (c.tdiv unit)]
    omega

theorem cut_mul_of_dvd {c unit : ℤ} (h : unit ∣ c) : cut c unit * unit = c := by
  have hrem : c.tmod unit = 0 := Int.tmod_eq_zero_of_dvd h
  rw [cut, hrem, if_neg (by omega)]
  exact Int.tdiv_mul_cancel h

theorem natAbs_cut_le {c : ℤ} {unit bound : Nat} (h : c.natAbs < bound * unit) :
    (cut c unit).natAbs ≤ bound := by
  have hquotient : (c.tdiv unit).natAbs < bound := by
    rw [Int.natAbs_tdiv, Int.natAbs_natCast]
    exact Nat.div_lt_of_lt_mul (by rwa [mul_comm])
  rw [cut]
  split
  · omega
  · exact hquotient.le

/-! ### Cutting a decimal -/

theorem toRat_mul_zpow (d : Decimal) : d.toRat * 10 ^ d.scale = d.coefficient := by
  rw [toRat, mul_assoc, ← ten_zpow_add, neg_add_cancel, zpow_zero, mul_one]

theorem toRat_withDigits_mul {d : Decimal} {p : Nat} (h : p < d.digitCount) :
    (d.withDigits p).toRat * 10 ^ d.scale =
      (cut d.coefficient (10 ^ (d.digitCount - p)) * 10 ^ (d.digitCount - p) : ℤ) := by
  rw [withDigits_of_lt h, toRat, mul_assoc, ← ten_zpow_add]
  have hplaces : -(d.scale - (d.digitCount - p : Nat)) + d.scale = (d.digitCount - p : Nat) := by
    ring
  rw [hplaces, zpow_natCast, Int.cast_mul, Int.cast_pow, Int.cast_ofNat]

theorem natAbs_lt_of_digitCount_le {d : Decimal} {p : Nat} (hp : 1 ≤ p) (h : d.digitCount ≤ p) :
    d.coefficient.natAbs < 10 ^ p :=
  (Digits.count_le_iff hp).1 h

/-- The result has the digits that were asked for, or is a one with zeros behind. -/
theorem hasDigits_withDigits {p : Nat} (hp : 1 ≤ p) (d : Decimal) :
    HasDigits p (d.withDigits p).toRat := by
  rcases Nat.lt_or_ge p d.digitCount with hlt | hle
  · have hcoefficient : d.coefficient.natAbs < 10 ^ p * 10 ^ (d.digitCount - p) := by
      rw [← pow_add, Nat.add_sub_cancel' hlt.le]
      exact Digits.lt_pow_count d.coefficient.natAbs
    have hcut := natAbs_cut_le hcoefficient
    push_cast at hcut
    rw [withDigits_of_lt hlt]
    generalize cut d.coefficient (10 ^ (d.digitCount - p)) = z at hcut ⊢
    rcases Nat.lt_or_eq_of_le hcut with hsmall | hpower
    · exact ⟨z, _, hsmall, rfl⟩
    · refine ⟨z.sign, p - (d.scale - (d.digitCount - p : Nat)), ?_, ?_⟩
      · have hten : 10 ^ 1 ≤ 10 ^ p := Nat.pow_le_pow_right (by decide) hp
        have hsign : z.sign.natAbs ≤ 1 := by
          rcases Int.sign_trichotomy z with h | h | h <;> simp [h]
        omega
      · have hz : (z : ℚ) = z.sign * 10 ^ (p : ℤ) := by
          rw [zpow_natCast]
          exact_mod_cast hpower ▸ (Int.sign_mul_natAbs z).symm
        rw [toRat, hz, mul_assoc, ← ten_zpow_add]
        rfl
  · rw [withDigits_of_le hle, toRat_extend]
    exact ⟨d.coefficient, -d.scale, natAbs_lt_of_digitCount_le hp hle, rfl⟩

theorem zpow_le_abs_coefficient {d : Decimal} (h : d.coefficient ≠ 0) :
    (10 : ℚ) ^ (d.digitCount - 1 : ℤ) ≤ |(d.coefficient : ℚ)| := by
  have hcount := Digits.pow_le_of_ne_zero (Int.natAbs_ne_zero.2 h)
  have hpos := Digits.count_pos d.coefficient.natAbs
  have hplaces : (d.digitCount - 1 : ℤ) = (d.digitCount - 1 : Nat) := by
    rw [digitCount]
    omega
  rw [hplaces, zpow_natCast, ← Int.cast_abs, Int.abs_eq_natAbs]
  exact_mod_cast hcount

theorem toRat_withDigits_of_dvd {d : Decimal} {p : Nat} (h : p < d.digitCount)
    (hdvd : (10 ^ (d.digitCount - p) : ℤ) ∣ d.coefficient) :
    (d.withDigits p).toRat = d.toRat := by
  apply mul_right_cancel₀ (ten_zpow_pos d.scale).ne'
  rw [toRat_withDigits_mul h, cut_mul_of_dvd hdvd, toRat_mul_zpow]

/-- Nothing is lost of a number that has no more digits than are kept. -/
theorem toRat_withDigits_of_hasDigits {p : Nat} {d : Decimal} (h : HasDigits p d.toRat) :
    (d.withDigits p).toRat = d.toRat := by
  rcases Nat.lt_or_ge p d.digitCount with hlt | hle
  · refine toRat_withDigits_of_dvd hlt ?_
    by_cases hzero : d.coefficient = 0
    · exact hzero ▸ dvd_zero _
    · obtain ⟨m, k, hm, hvalue⟩ := h
      have hcoefficient : (d.coefficient : ℚ) = m * 10 ^ (k + d.scale) := by
        rw [← toRat_mul_zpow, hvalue, mul_assoc, ← ten_zpow_add]
      refine pow_dvd_of_eq hcoefficient (le_of_zpow_le hm ?_)
      have hplaces : (p + (d.digitCount - p : Nat) - 1 : ℤ) = d.digitCount - 1 := by omega
      rw [← hcoefficient, hplaces]
      exact zpow_le_abs_coefficient hzero
  · rw [withDigits_of_le hle, toRat_extend]

/-- What is lost of a number, counted in units of its scale. A power of ten is kept as it is, so a
coefficient of which something is lost is larger than the power of ten with so many digits. -/
theorem withDigits_cases {p : Nat} (hp : 1 ≤ p) (d : Decimal) :
    (d.withDigits p).toRat = d.toRat ∨
      ∃ z : ℤ, (d.withDigits p).toRat * 10 ^ d.scale = z ∧
        |z - d.coefficient| < 10 ^ (d.digitCount - p) ∧
        10 ^ (d.digitCount - 1) < |d.coefficient| ∧ p < d.digitCount := by
  rcases Nat.lt_or_ge p d.digitCount with hlt | hle
  · by_cases hdvd : (10 ^ (d.digitCount - p) : ℤ) ∣ d.coefficient
    · exact .inl (toRat_withDigits_of_dvd hlt hdvd)
    · refine .inr ⟨_, toRat_withDigits_mul hlt, abs_cut_sub_lt _ (pow_pos (by decide) _), ?_, hlt⟩
      have hzero : d.coefficient ≠ 0 := by
        rintro hzero
        exact hdvd (hzero ▸ dvd_zero _)
      have hle : (10 ^ (d.digitCount - 1) : ℤ) ≤ |d.coefficient| := by
        rw [Int.abs_eq_natAbs]
        exact_mod_cast Digits.pow_le_of_ne_zero (Int.natAbs_ne_zero.2 hzero)
      refine lt_of_le_of_ne hle fun heq => hdvd ?_
      rw [← dvd_abs, ← heq]
      exact pow_dvd_pow 10 (by omega)
  · exact .inl (by rw [withDigits_of_le hle, toRat_extend])

/-! ### Equal values are cut alike -/

theorem digitCount_extend {d : Decimal} (h : d.coefficient ≠ 0) (k : Nat) :
    (d.extend k).digitCount = d.digitCount + k := by
  rw [digitCount, extend, Int.natAbs_mul, Int.natAbs_natCast, tenPow_eq]
  exact le_antisymm (Digits.count_mul_pow_le _ k)
    (Digits.count_add_le (Int.natAbs_ne_zero.2 h) k)

theorem cut_mul_right (c unit : ℤ) {m : ℤ} (hm : 0 < m) : cut (c * m) (unit * m) = cut c unit := by
  have hhalf (r : ℤ) : m * unit ≤ 2 * (m * r) ↔ unit ≤ 2 * r := by
    rw [mul_left_comm, mul_le_mul_iff_right₀ hm]
  simp only [cut, mul_comm c, mul_comm unit, Int.mul_tdiv_mul_of_pos _ _ hm,
    Int.mul_tmod_mul_of_pos _ _ hm, hhalf, mul_pos_iff_of_pos_left hm]

theorem cut_mul_self (c : ℤ) {m : ℤ} (hm : 0 < m) : cut (c * m) m = c :=
  mul_right_cancel₀ hm.ne' (cut_mul_of_dvd (dvd_mul_left m c))

theorem extend_extend (d : Decimal) (j k : Nat) : (d.extend j).extend k = d.extend (j + k) := by
  simp only [extend, tenPow_eq, pow_add]
  push_cast
  rw [mul_assoc, add_assoc]

/-- Zeros at the end of the digits do not count. -/
theorem withDigits_extend {d : Decimal} (h : d.coefficient ≠ 0) (k p : Nat) :
    (d.extend k).withDigits p = d.withDigits p := by
  have hcount := digitCount_extend h k
  have hcoefficient : (d.extend k).coefficient = d.coefficient * 10 ^ k := by
    rw [extend, tenPow_eq]
    push_cast
    rfl
  have hscale : (d.extend k).scale = d.scale + k := rfl
  -- The zeros are cut off with other digits, or some of them alone, or nothing is.
  rcases Nat.lt_or_ge p (d.digitCount + k) with hlong | hshort
  · rw [withDigits_of_lt (by rwa [hcount]), hcount, hcoefficient, hscale]
    rcases Nat.lt_or_ge p d.digitCount with hlt | hle
    · have hunit : (10 : ℤ) ^ (d.digitCount + k - p) = 10 ^ (d.digitCount - p) * 10 ^ k := by
        rw [← pow_add]
        congr 1
        omega
      rw [withDigits_of_lt hlt, hunit, cut_mul_right _ _ (by positivity)]
      congr 1
      omega
    · have hzeros : (10 : ℤ) ^ k = 10 ^ (p - d.digitCount) * 10 ^ (d.digitCount + k - p) := by
        rw [← pow_add]
        congr 1
        omega
      rw [withDigits_of_le hle, hzeros, ← mul_assoc, cut_mul_self _ (by positivity), extend,
        tenPow_eq]
      push_cast
      congr 1
      omega
  · rw [withDigits_of_le (by rwa [hcount]), withDigits_of_le (by omega), hcount, extend_extend]
    congr 1
    omega

theorem eq_extend_of_toRat_eq {y z : Decimal} (h : y.toRat = z.toRat) (hscale : y.scale ≤ z.scale) :
    z = y.extend (z.scale - y.scale).toNat := by
  have hplaces : ((z.scale - y.scale).toNat : ℤ) = z.scale - y.scale := by omega
  have hcoefficient : (z.coefficient : ℚ) = y.coefficient * tenPow (z.scale - y.scale).toNat := by
    have hcast := cast_tenPow (z.scale - y.scale).toNat
    rw [← toRat_mul_zpow z, ← h, toRat, mul_assoc, ← ten_zpow_add]
    push_cast at hcast ⊢
    rw [hcast, hplaces]
    congr 2
    omega
  have hcoefficient' : z.coefficient = y.coefficient * tenPow (z.scale - y.scale).toNat := by
    exact_mod_cast hcoefficient
  rw [extend, ← hcoefficient', hplaces, add_sub_cancel]

theorem withDigits_of_toRat_eq {y z : Decimal} (h : y.toRat = z.toRat) (hy : y.toRat ≠ 0)
    (p : Nat) : y.withDigits p = z.withDigits p := by
  have hcoefficient : ∀ {d : Decimal}, d.toRat ≠ 0 → d.coefficient ≠ 0 := by
    intro d hd hzero
    exact hd (d.isZero_iff.1 (decide_eq_true hzero))
  rcases le_total y.scale z.scale with hle | hle
  · rw [eq_extend_of_toRat_eq h hle, withDigits_extend (hcoefficient hy)]
  · rw [eq_extend_of_toRat_eq h.symm hle, withDigits_extend (hcoefficient (h ▸ hy))]

end Decimal

end UnitCalc
