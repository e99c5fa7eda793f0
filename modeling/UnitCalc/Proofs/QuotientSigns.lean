import UnitCalc.Proofs.Except
import UnitCalc.Proofs.Quotients

/-! Signs of quotients. A quotient is developed from the magnitudes of its operands and takes its
sign from theirs, but it is cut with its sign: only a positive number goes up. So the quotient of a
number and that of its negative differ in the last digit wherever the digits cut off make half a
unit or more, and agree elsewhere. A divisor that is recognised as one is not divided by, and its
negative is. This makes no difference unless the dividend has more digits than are developed: then
under one of the two signs it is rounded to these before the cut, and under the other it is not. -/

namespace UnitCalc

def Sign.times : Sign → Sign → Sign
  | .plus, t => t
  | .minus, .plus => .minus
  | .minus, .minus => .plus

namespace Decimal

open Digits (tenPow)

/-! ### Cutting and signs -/

@[simp] protected theorem neg_neg (d : Decimal) : d.neg.neg = d := by
  rw [neg, neg, Int.neg_neg]

theorem neg_of_isZero {d : Decimal} (h : d.isZero = true) : d.neg = d := by
  have hzero : d.coefficient = 0 := of_decide_eq_true h
  rw [neg, hzero, neg_zero, ← hzero]

theorem isZero_neg (d : Decimal) : d.neg.isZero = d.isZero := by
  simp only [isZero, neg, neg_eq_zero]

theorem digitCount_neg (d : Decimal) : d.neg.digitCount = d.digitCount := by
  rw [digitCount, digitCount, neg, Int.natAbs_neg]

theorem withinLimit_neg (d : Decimal) : d.neg.withinLimit = d.withinLimit := by
  rw [withinLimit, withinLimit, extent_neg]

theorem extend_neg (d : Decimal) (k : Nat) : d.neg.extend k = (d.extend k).neg := by
  simp only [extend, neg, neg_mul]

/-- The digits beyond the first `p` make half a unit of the last digit kept, or more. -/
def LosesHalf (d : Decimal) (p : Nat) : Prop :=
  p < d.digitCount ∧ 10 ^ (d.digitCount - p) ≤ 2 * (d.coefficient.natAbs % 10 ^ (d.digitCount - p))

instance (d : Decimal) (p : Nat) : Decidable (d.LosesHalf p) := inferInstanceAs (Decidable (_ ∧ _))

theorem cut_natCast (n : Nat) {unit : Nat} (hunit : 0 < unit) :
    cut n unit = (n / unit : Nat) + if unit ≤ 2 * (n % unit) then 1 else 0 := by
  have hdiv : (n : ℤ).tdiv unit = (n / unit : Nat) := rfl
  have hmod : (n : ℤ).tmod unit = (n % unit : Nat) := rfl
  rw [cut, hdiv, hmod]
  split
  · rw [if_pos (by omega)]
  · rw [if_neg (by omega), add_zero]

theorem cut_neg_natCast (n unit : Nat) : cut (-n) unit = -(n / unit : Nat) := by
  have hdiv : (n : ℤ).tdiv unit = (n / unit : Nat) := rfl
  have hmod : (n : ℤ).tmod unit = (n % unit : Nat) := rfl
  rw [cut, Int.neg_tdiv, Int.neg_tmod, hdiv, hmod, if_neg (by omega)]

/-- The two signs are cut alike, save that the one which is positive goes up. -/
theorem cut_neg (c : ℤ) {unit : Nat} (hunit : 0 < unit) :
    cut (-c) unit = -cut c unit + if unit ≤ 2 * (c.natAbs % unit) then 1 else 0 := by
  rcases Int.natAbs_eq c with hc | hc
  · rw [hc, Int.natAbs_natCast, cut_neg_natCast, cut_natCast _ hunit]
    omega
  · rw [hc, neg_neg, Int.natAbs_neg, Int.natAbs_natCast, cut_neg_natCast, cut_natCast _ hunit]
    omega

theorem withDigits_neg_of_lt {d : Decimal} {p : Nat} (h : p < d.digitCount) :
    d.neg.withDigits p =
      ⟨(d.withDigits p).neg.coefficient + if d.LosesHalf p then 1 else 0,
        (d.withDigits p).scale⟩ := by
  have hcut := cut_neg d.coefficient (Nat.pow_pos (n := d.digitCount - p) (show 0 < 10 by decide))
  push_cast at hcut
  rw [withDigits_of_lt (by rwa [digitCount_neg]), withDigits_of_lt h, digitCount_neg]
  simp only [neg, hcut, LosesHalf, h, true_and]

theorem withDigits_neg {d : Decimal} {p : Nat} (h : ¬ d.LosesHalf p) :
    d.neg.withDigits p = (d.withDigits p).neg := by
  rcases Nat.lt_or_ge p d.digitCount with hlt | hle
  · rw [withDigits_neg_of_lt hlt, if_neg h, add_zero]
    rfl
  · have hle' : d.neg.digitCount ≤ p := by rwa [digitCount_neg]
    rw [withDigits_of_le hle, withDigits_of_le hle', digitCount_neg, extend_neg]

/-- A number and its negative are cut to numbers of opposite value just if less than half a unit is
lost of them. -/
theorem toRat_withDigits_neg_iff {d : Decimal} {p : Nat} :
    (d.neg.withDigits p).toRat = -(d.withDigits p).toRat ↔ ¬ d.LosesHalf p := by
  refine ⟨fun hvalue hlost => ?_, fun hkept => by rw [withDigits_neg hkept, toRat_neg]⟩
  rw [withDigits_neg_of_lt hlost.1, if_pos hlost, ← toRat_neg, toRat, toRat] at hvalue
  have hcoefficient := mul_right_cancel₀ (ten_zpow_pos _).ne' hvalue
  push_cast at hcoefficient
  linarith

/-! ### Quotients of signed numbers -/

def withSign (s : Sign) (d : Decimal) : Decimal :=
  match s with
  | .plus => d
  | .minus => d.neg

/-- A sign that stands twice in front of a number counts once with the other sign. -/
theorem withSign_withSign (s t : Sign) (d : Decimal) :
    (d.withSign t).withSign (s.times t) = d.withSign s := by
  cases s <;> cases t
  · rfl
  · exact d.neg_neg
  · rfl
  · rfl

theorem withinLimit_withSign (s : Sign) (d : Decimal) :
    (d.withSign s).withinLimit = d.withinLimit := by
  cases s with
  | plus => rfl
  | minus => exact d.withinLimit_neg

theorem toRat_withSign_eq_iff {s : Sign} {c d : Decimal} :
    c.toRat = (d.withSign s).toRat ↔ (c.withSign s).toRat = d.toRat := by
  cases s with
  | plus => exact Iff.rfl
  | minus => rw [withSign, withSign, toRat_neg, toRat_neg, neg_eq_iff_eq_neg]

theorem isZero_withSign (s : Sign) (d : Decimal) : (d.withSign s).isZero = d.isZero := by
  cases s with
  | plus => rfl
  | minus => exact d.isZero_neg

theorem div_of_isZero {a : Decimal} (h : a.isZero = true) (b : Decimal) : a.div b = a :=
  div_of_shortcut (by rw [h, Bool.true_or])

theorem div_of_isOne (a : Decimal) {b : Decimal} (h : b.isOne = true) : a.div b = a :=
  div_of_shortcut (by rw [h, Bool.or_true])

theorem div_neg_left (a b : Decimal) : a.neg.div b = (a.div b).neg := by
  by_cases h : (a.isZero || b.isOne) = true
  · rw [div_of_shortcut h, div_of_shortcut (by rwa [isZero_neg])]
  · rw [div_of_not_shortcut h, div_of_not_shortcut (by rwa [isZero_neg])]
    simp only [neg, Int.sign_neg, Int.natAbs_neg, neg_mul]

theorem div_neg_right (a : Decimal) {b : Decimal} (hb : ¬ b.isOne = true)
    (hb' : ¬ b.neg.isOne = true) : a.div b.neg = (a.div b).neg := by
  by_cases h : a.isZero = true
  · rw [div_of_isZero h, div_of_isZero h, neg_of_isZero h]
  · rw [div_of_not_shortcut (by simp [h, hb']), div_of_not_shortcut (by simp [h, hb])]
    simp only [neg, Int.sign_neg, Int.natAbs_neg, neg_mul, mul_neg]

theorem div_neg_one (a : Decimal) : a.div ⟨-1, 0⟩ = a.neg := by
  by_cases h : a.isZero = true
  · rw [div_of_isZero h, neg_of_isZero h]
  · have hpos : 1 ≤ a.coefficient.natAbs := by
      simp only [isZero, decide_eq_true_eq] at h
      omega
    have hquotient : quotient a.coefficient.natAbs 1 = (a.coefficient.natAbs, 0) := by
      rw [quotient_of_dvd hpos (one_dvd _), Nat.div_one]
    rw [div_of_not_shortcut (by simp [h, isOne])]
    simp [hquotient, neg, Int.sign_mul_abs]

/-- The quotient as it is developed if the sign `t` stands in front of the divisor, without the sign
that it gets from it. -/
def divUnder (t : Sign) (a b : Decimal) : Decimal := (a.div (b.withSign t)).withSign t

/-- What is cut from a number if the sign `s` stands in front of it, without that sign. -/
def cutUnder (s : Sign) (d : Decimal) (p : Nat) : Decimal :=
  ((d.withSign s).withDigits p).withSign s

theorem withSign_div_withSign (s t : Sign) (a b : Decimal) :
    (a.withSign s).div (b.withSign t) = (divUnder t a b).withSign (s.times t) := by
  rw [divUnder, withSign_withSign]
  cases s with
  | plus => rfl
  | minus => exact div_neg_left a (b.withSign t)

/-- A divisor that is recognised as one leaves the dividend as it is, while the dividend is
developed for the negative of that divisor. -/
theorem divUnder_minus_of_isOne (a : Decimal) {b : Decimal} (hb : b.isOne = true) :
    a.div b = a ∧ Develops a.toRat (divUnder .minus a b) := by
  refine ⟨div_of_isOne a hb, ?_⟩
  have hzero : b.neg.isZero = false := by
    rw [isZero_neg, Bool.eq_false_iff, ne_eq, isZero_iff, toRat_of_isOne hb]
    exact one_ne_zero
  have hdevelops := a.neg.div_develops hzero
  rw [toRat_neg, toRat_neg, toRat_of_isOne hb, div_neg, div_one, neg_neg, div_neg_left] at hdevelops
  exact hdevelops

theorem divUnder_minus_of_isOne_neg (a : Decimal) {b : Decimal} (hzero : b.isZero = false)
    (hb : b.neg.isOne = true) : divUnder .minus a b = a.neg ∧ Develops (-a.toRat) (a.div b) := by
  have hone : b.toRat = -1 := by rw [← toRat_of_isOne hb, toRat_neg, neg_neg]
  have hdevelops := a.div_develops hzero
  rw [hone, div_neg, div_one] at hdevelops
  exact ⟨congrArg neg (div_of_isOne a hb), hdevelops⟩

/-- A divisor that is recognised as one, or has such a negative, is written without places, or the
dividend has no more digits than are developed. -/
def Balanced (a b : Decimal) : Prop :=
  b.isOne = true ∨ b.neg.isOne = true → b.scale = 0 ∨ HasDigits quotientDigits a.toRat

theorem Balanced.neg_left {a b : Decimal} (h : Balanced a b) : Balanced a.neg b := by
  intro hb
  rw [toRat_neg]
  exact (h hb).imp_right HasDigits.neg

theorem toRat_div_neg_of_isOne {a b : Decimal} (hb : b.isOne = true)
    (h : b.scale = 0 ∨ HasDigits quotientDigits a.toRat) : (a.div b.neg).toRat = -a.toRat := by
  rcases h with hscale | hdigits
  · have hneg : b.neg = ⟨-1, 0⟩ := by
      have hcoefficient : b.coefficient = 1 := by simpa [isOne, hscale, tenPow] using hb
      rw [neg, hcoefficient, hscale]
    rw [hneg, div_neg_one, toRat_neg]
  · have hvalue := (divUnder_minus_of_isOne a hb).2.toRat_eq hdigits
    rw [← hvalue, divUnder, withSign, withSign, toRat_neg, neg_neg]

theorem withDigits_div_neg_of_isOne {a b : Decimal} (hb : b.isOne = true)
    (h : b.scale = 0 ∨ HasDigits quotientDigits a.toRat) (p : Nat) :
    (a.div b.neg).withDigits p = a.neg.withDigits p := by
  by_cases hzero : a.isZero = true
  · rw [div_of_isZero hzero, neg_of_isZero hzero]
  · have hvalue := toRat_div_neg_of_isOne hb h
    refine withDigits_of_toRat_eq (by rw [hvalue, toRat_neg]) ?_ p
    rw [hvalue, neg_ne_zero]
    exact mt a.isZero_iff.2 hzero

theorem withDigits_div_neg {a b : Decimal} (h : Balanced a b) (p : Nat) :
    (a.div b.neg).withDigits p = (a.div b).neg.withDigits p := by
  by_cases hone : b.isOne = true
  · rw [withDigits_div_neg_of_isOne hone (h (.inl hone)), div_of_isOne a hone]
  · by_cases hone' : b.neg.isOne = true
    · have hflip := withDigits_div_neg_of_isOne hone' (h.neg_left (.inr hone')) p
      rw [Decimal.neg_neg, Decimal.neg_neg, div_neg_left] at hflip
      rw [hflip, div_of_isOne a hone']
    · rw [div_neg_right a hone hone']

/-- The cut of a quotient takes its sign from the two operands. -/
theorem withDigits_divUnder {a b : Decimal} {s t : Sign} (h : t = .plus ∨ Balanced a b) (p : Nat) :
    ((divUnder t a b).withSign s).withDigits p = ((a.div b).withSign s).withDigits p := by
  cases t with
  | plus => rfl
  | minus =>
    have hbalanced : Balanced a b := h.resolve_left nofun
    cases s with
    | plus =>
      show ((a.div b.neg).neg).withDigits p = (a.div b).withDigits p
      rw [← div_neg_left, withDigits_div_neg hbalanced.neg_left, div_neg_left, Decimal.neg_neg]
    | minus =>
      show ((a.div b.neg).neg).neg.withDigits p = (a.div b).neg.withDigits p
      rw [Decimal.neg_neg, withDigits_div_neg hbalanced]

end Decimal

namespace Value

/-- The quotient of two values with signs in front of them. -/
def signedQuotient (precision : Nat) (s t : Sign) (lhs rhs : Value) : Except Fault Value := do
  operate precision .div (← applySign s lhs) (← applySign t rhs)

/-- With the signs `s` and `t` in front of its operands a quotient `v` has the sign `s.times t` in
front, and nothing else changes. -/
def SignAgrees (precision : Nat) (lhs rhs v : Value) (s t : Sign) : Prop :=
  ∃ x y, signedQuotient precision s t lhs rhs = .ok x ∧ applySign (s.times t) v = .ok y ∧
    x.same y = true

theorem applySign_number (s : Sign) (n : Decimal) (u : Dimension) :
    applySign s ⟨.number n, u⟩ = .ok ⟨.number (n.withSign s), u⟩ := by
  cases s <;> rfl

theorem orOutOfRange_eq_ok {r : Option Dimension} {d : Dimension} :
    orOutOfRange r = .ok d ↔ r = some d := by
  cases r <;> simp [orOutOfRange]

theorem limited_eq_ok_iff {n : Decimal} {k : Kind} :
    limited n = .ok k ↔ n.withinLimit = true ∧ k = .number n := by
  rw [limited]
  split
  · rename_i hlimit
    rw [Except.ok.injEq, and_iff_right hlimit]
    exact eq_comm
  · rename_i hlimit
    exact iff_of_false nofun fun hk => hlimit hk.1

theorem operationKind_div_eq_ok {precision : Nat} {a b : Decimal} {u w : Dimension} {k : Kind} :
    operationKind precision .div ⟨.number a, u⟩ ⟨.number b, w⟩ = .ok k ↔
      b.isZero = false ∧ ((a.div b).withDigits precision).withinLimit = true ∧
        k = .number ((a.div b).withDigits precision) := by
  simp only [operationKind, numberOperation]
  split
  · rename_i hzero
    exact iff_of_false nofun fun hk => by simp [hk.1] at hzero
  · rename_i hzero
    rw [limited_eq_ok_iff, and_iff_right (Bool.eq_false_iff.2 hzero)]

/-- A division succeeds if the unit of the result is in range, the divisor is not zero and the
result is within the limit. -/
theorem operate_div_eq_ok {precision : Nat} {a b : Decimal} {u w : Dimension} {v : Value} :
    operate precision .div ⟨.number a, u⟩ ⟨.number b, w⟩ = .ok v ↔
      ∃ d, u.div w = some d ∧ b.isZero = false ∧
        ((a.div b).withDigits precision).withinLimit = true ∧
        v = ⟨.number ((a.div b).withDigits precision), d⟩ := by
  constructor
  · intro h
    obtain ⟨d, hunit, h⟩ := bind_eq_ok.1 h
    obtain ⟨k, hkind, h⟩ := bind_eq_ok.1 h
    obtain ⟨hzero, hlimit, rfl⟩ := operationKind_div_eq_ok.1 hkind
    cases h
    exact ⟨d, orOutOfRange_eq_ok.1 hunit, hzero, hlimit, rfl⟩
  · rintro ⟨d, hunit, hzero, hlimit, rfl⟩
    exact bind_eq_ok.2 ⟨d, orOutOfRange_eq_ok.2 hunit,
      bind_eq_ok.2 ⟨_, operationKind_div_eq_ok.2 ⟨hzero, hlimit, rfl⟩, rfl⟩⟩

theorem signedQuotient_eq (precision : Nat) (s t : Sign) (a b : Decimal) (u w : Dimension) :
    signedQuotient precision s t ⟨.number a, u⟩ ⟨.number b, w⟩ =
      operate precision .div ⟨.number (a.withSign s), u⟩ ⟨.number (b.withSign t), w⟩ := by
  rw [signedQuotient, applySign_number, applySign_number]
  rfl

/-- What is developed under the signs must be cut to the quotient without them. -/
theorem signAgrees_iff (precision : Nat) (a : Decimal) {b : Decimal} {u w d : Dimension}
    (s t : Sign) (hunit : u.div w = some d) (hzero : b.isZero = false) :
    SignAgrees precision ⟨.number a, u⟩ ⟨.number b, w⟩
        ⟨.number ((a.div b).withDigits precision), d⟩ s t ↔
      ((Decimal.divUnder t a b).cutUnder (s.times t) precision).withinLimit = true ∧
        ((Decimal.divUnder t a b).cutUnder (s.times t) precision).toRat =
          ((a.div b).withDigits precision).toRat := by
  have hquotient : ∀ x, signedQuotient precision s t ⟨.number a, u⟩ ⟨.number b, w⟩ = .ok x ↔
      (((Decimal.divUnder t a b).withSign (s.times t)).withDigits precision).withinLimit = true ∧
        x = ⟨.number (((Decimal.divUnder t a b).withSign (s.times t)).withDigits precision),
          d⟩ := by
    intro x
    rw [signedQuotient_eq, operate_div_eq_ok, Decimal.withSign_div_withSign]
    simp [hunit, Decimal.isZero_withSign, hzero]
  simp only [SignAgrees, hquotient, applySign_number]
  rw [Decimal.cutUnder, Decimal.withinLimit_withSign, ← Decimal.toRat_withSign_eq_iff]
  simp [same, Kind.same, Decimal.same_iff]

/-- A quotient has the sign that its operands give it if what is developed under the signs is cut to
the same number. For a divisor that is developed alike under both signs this fails just where half a
unit or more is cut off: there the quotient of operands of one sign goes up and that of operands of
different signs does not. A divisor that is recognised as one, or has such a negative, leaves the
dividend as it is under one sign, and has it developed to a hundred digits under the other. -/
theorem division_signs {precision : Nat} {a b : Decimal} {u w : Dimension} {v : Value}
    (hv : operate precision .div ⟨.number a, u⟩ ⟨.number b, w⟩ = .ok v) (s t : Sign) :
    (SignAgrees precision ⟨.number a, u⟩ ⟨.number b, w⟩ v s t ↔
      ((Decimal.divUnder t a b).cutUnder (s.times t) precision).withinLimit = true ∧
        ((Decimal.divUnder t a b).cutUnder (s.times t) precision).toRat =
          ((a.div b).withDigits precision).toRat) ∧
    (t = .plus ∨ Decimal.Balanced a b →
      (SignAgrees precision ⟨.number a, u⟩ ⟨.number b, w⟩ v s t ↔
        s.times t = .plus ∨ ¬ (a.div b).LosesHalf precision)) ∧
    (b.isOne = true → a.div b = a ∧ Decimal.Develops a.toRat (Decimal.divUnder .minus a b)) ∧
    (b.neg.isOne = true →
      Decimal.divUnder .minus a b = a.neg ∧ Decimal.Develops (-a.toRat) (a.div b)) := by
  obtain ⟨d, hunit, hzero, hlimit, rfl⟩ := operate_div_eq_ok.1 hv
  have hagrees := signAgrees_iff precision a s t hunit hzero
  refine ⟨hagrees, fun h => ?_, Decimal.divUnder_minus_of_isOne a,
    Decimal.divUnder_minus_of_isOne_neg a hzero⟩
  rw [hagrees, Decimal.cutUnder, Decimal.withDigits_divUnder h]
  cases s.times t with
  | plus => exact iff_of_true ⟨hlimit, rfl⟩ (.inl rfl)
  | minus =>
    simp only [Decimal.withSign, Decimal.withinLimit_neg, Decimal.toRat_neg,
      neg_eq_iff_eq_neg, Decimal.toRat_withDigits_neg_iff, reduceCtorEq, false_or,
      and_iff_right_iff_imp]
    intro hkept
    rw [Decimal.withDigits_neg hkept, Decimal.withinLimit_neg, hlimit]

/-- A third of a metre per second, with three digits, is cut alike under all signs. -/
theorem division_signs_third :
    ∃ d, operate 3 .div (.ofUnit "m") ⟨.number 3, .base "s"⟩ = .ok ⟨.number ⟨333, 3⟩, d⟩ ∧
      ∀ s t, SignAgrees 3 (.ofUnit "m") ⟨.number 3, .base "s"⟩ ⟨.number ⟨333, 3⟩, d⟩ s t := by
  obtain ⟨d, hd⟩ : ∃ d, (Dimension.base "m").div (.base "s") = some d :=
    Option.isSome_iff_exists.1 (by decide +kernel)
  have hcut : (Decimal.div 1 3).withDigits 3 = ⟨333, 3⟩ := by decide +kernel
  have hquotient : operate 3 .div (.ofUnit "m") ⟨.number 3, .base "s"⟩ =
      .ok ⟨.number ⟨333, 3⟩, d⟩ :=
    operate_div_eq_ok.2 ⟨d, hd, by decide, by rw [hcut]; decide, by rw [hcut]⟩
  have hbalanced : Decimal.Balanced 1 3 := fun h => absurd h (by decide)
  have hkept : ¬ (Decimal.div 1 3).LosesHalf 3 := by decide +kernel
  exact ⟨d, hquotient, fun s t =>
    ((division_signs hquotient s t).2.1 (.inr hbalanced)).2 (.inr hkept)⟩

/-- A divisor that is recognised as one: `1.0` leaves a dividend of `111` digits as it is, and
`-1.0` develops a hundred of them, which go up before the cut. -/
example : operate 1 .div (.ofDecimal ⟨15 * 10 ^ 109 - 1, 110⟩) (.ofDecimal ⟨10, 1⟩) =
      .ok (.ofDecimal ⟨1, 0⟩) ∧
    signedQuotient 1 .minus .minus (.ofDecimal ⟨15 * 10 ^ 109 - 1, 110⟩) (.ofDecimal ⟨10, 1⟩) =
      .ok (.ofDecimal ⟨2, 0⟩) := by
  decide +kernel

/-- At three digits `2 / 3` is `0.667` and `-2 / 3` is `-0.666`. -/
theorem not_division_signs :
    ∃ v, operate 3 .div (.ofDecimal 2) (.ofDecimal 3) = .ok v ∧
      ¬ SignAgrees 3 (.ofDecimal 2) (.ofDecimal 3) v .minus .plus := by
  refine ⟨.ofDecimal ⟨667, 3⟩, by decide +kernel, ?_⟩
  rintro ⟨x, y, hx, hy, hsame⟩
  have hquotient : signedQuotient 3 .minus .plus (.ofDecimal 2) (.ofDecimal 3) =
      .ok (.ofDecimal ⟨-666, 3⟩) := by decide +kernel
  rw [hquotient] at hx
  cases hx
  cases hy
  exact absurd hsame (by decide)

end Value

end UnitCalc
