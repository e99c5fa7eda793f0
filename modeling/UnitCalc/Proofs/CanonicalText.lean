import UnitCalc.Proofs.Rounding

/-! The text of a number is canonical. The normal form of a decimal has no trailing zero, so it is
the only one of its value, and writing it out gives digits without superfluous zeros on either
side. So equal values are those of equal texts, the text is read back as the value, and it is no
longer than the room that the decimal takes, but for a sign and a point. -/

namespace UnitCalc

/-! ### Digits without superfluous zeros -/

namespace Digits

/-- Halving strips all zeros if there are fewer than `2 ^ j`. -/
theorem stripped_mod_ten {j n : Nat} (h : ¬ 10 ^ 2 ^ j ∣ n) : (stripped j n).1 % 10 ≠ 0 := by
  induction j generalizing n with
  | zero => exact fun hmod => h (Nat.dvd_of_mod_eq_zero hmod)
  | succ j ih =>
    rw [stripped_succ, tenPow_eq]
    split
    · rename_i hmod
      obtain ⟨m, rfl⟩ := Nat.dvd_of_mod_eq_zero hmod
      rw [Nat.mul_div_cancel_left m (Nat.pow_pos (by decide))]
      refine ih fun hdvd => h ?_
      rw [pow_succ, mul_two, pow_add]
      exact Nat.mul_dvd_mul_left _ hdvd
    · rename_i hmod
      exact ih fun hdvd => hmod (Nat.mod_eq_zero_of_dvd hdvd)

theorem stripZeros_mod_ten {n : Nat} (hn : n ≠ 0) : (stripZeros n).1 % 10 ≠ 0 :=
  stripped_mod_ten fun hdvd =>
    absurd (Nat.le_of_dvd (Nat.pos_of_ne_zero hn) hdvd) (not_le.2 (lt_pow_rounds n))

/-- Digits without superfluous zeros in front. -/
structure IsWhole (ds : List Char) : Prop where
  ne_nil : ds ≠ []
  isDigit : ∀ c ∈ ds, c.isDigit = true
  head : ds.head? = some '0' → ds = ['0']

/-- Digits of which the last is not zero. -/
structure IsFraction (ds : List Char) : Prop where
  ne_nil : ds ≠ []
  isDigit : ∀ c ∈ ds, c.isDigit = true
  last : ds.getLast? ≠ some '0'

theorem IsWhole.of_head {ds : List Char} (hne : ds ≠ []) (hdigit : ∀ c ∈ ds, c.isDigit = true)
    (hhead : ds.head? ≠ some '0') : IsWhole ds :=
  ⟨hne, hdigit, fun h => absurd h hhead⟩

theorem ofNat_zero : ofNat 0 = ['0'] := rfl

theorem head?_ofNat {n : Nat} (hn : n ≠ 0) : (ofNat n).head? ≠ some '0' := by
  rw [ofNat, if_neg hn]
  intro hhead
  have hnot := List.head?_dropWhile_not (· = '0') (padded (rounds n) n [])
  rw [hhead] at hnot
  simp at hnot

theorem isWhole_zero : IsWhole ['0'] where
  ne_nil := List.cons_ne_nil _ _
  isDigit c hc := by
    rw [List.mem_singleton.1 hc]
    rfl
  head _ := rfl

theorem one_le_digitValue {c : Char} (h : c.isDigit = true) (hc : c ≠ '0') : 1 ≤ digitValue c := by
  rw [Char.isDigit, Bool.and_eq_true, decide_eq_true_iff, decide_eq_true_iff] at h
  have hle : '0'.toNat ≤ c.toNat := UInt32.le_iff_toNat_le.1 h.1
  have hne : c.toNat ≠ '0'.toNat := fun heq => hc (Char.toNat_inj.1 heq)
  rw [digitValue]
  omega

/-- The last digit of a number says whether ten divides it. -/
theorem Writes.getLast? {ds : List Char} {n : Nat} (h : Writes ds n) (hn : n % 10 ≠ 0) :
    ds.getLast? ≠ some '0' := by
  rintro hlast
  obtain ⟨es, rfl⟩ := List.getLast?_eq_some_iff.1 hlast
  refine hn ?_
  rw [← h.toNat_eq, toNat_append]
  simp [toNat, digitValue]

/-- Without superfluous zeros there are no more digits than the number has. -/
theorem length_ofNat_le (n : Nat) : (ofNat n).length ≤ count n := by
  by_cases hn : n = 0
  · rw [hn, ofNat_zero]
    exact count_pos 0
  · have hwrites := writes_ofNat n
    have hhead := head?_ofNat hn
    generalize ofNat n = ds at hwrites hhead
    obtain ⟨c, ds, rfl⟩ := List.exists_cons_of_ne_nil hwrites.ne_nil
    have hc : 1 ≤ digitValue c := by
      refine one_le_digitValue (hwrites.isDigit c List.mem_cons_self) ?_
      rintro rfl
      exact hhead rfl
    have hvalue := toNat_append [c] ds
    have hfirst : toNat [c] = digitValue c := by simp [toNat]
    rw [List.singleton_append, hwrites.toNat_eq, hfirst] at hvalue
    have hlow : 10 ^ ds.length ≤ n := by
      rw [hvalue]
      exact le_add_right (Nat.le_mul_of_pos_left _ hc)
    have hlt : 10 ^ ds.length < 10 ^ count n := hlow.trans_lt (lt_pow_count n)
    exact (Nat.pow_lt_pow_iff_right (by decide)).1 hlt

end Digits

/-! ### Canonical texts -/

open Digits (IsWhole IsFraction)

/-- The canonical texts of numbers: a zero, or digits without superfluous zeros on either side of
the point, if there is one, with or without a minus sign. -/
inductive IsPlain : List Char → Prop where
  | zero : IsPlain ['0']
  | whole {sign ds : List Char} (hsign : sign = [] ∨ sign = ['-']) (hds : IsWhole ds)
      (hne : ds ≠ ['0']) : IsPlain (sign ++ ds)
  | pointed {sign ds places : List Char} (hsign : sign = [] ∨ sign = ['-']) (hds : IsWhole ds)
      (hplaces : IsFraction places) : IsPlain (sign ++ (ds ++ '.' :: places))

namespace IsPlain

theorem mem {cs : List Char} (h : IsPlain cs) {c : Char} (hc : c ∈ cs) :
    c.isDigit = true ∨ c = '.' ∨ c = '-' := by
  have hminus : ∀ {sign : List Char}, sign = [] ∨ sign = ['-'] → c ∈ sign → c = '-' := by
    rintro _ (rfl | rfl) hmem
    · cases hmem
    · exact List.mem_singleton.1 hmem
  cases h with
  | zero =>
    rw [List.mem_singleton.1 hc]
    exact .inl rfl
  | whole hsign hds =>
    rcases List.mem_append.1 hc with hc | hc
    · exact .inr (.inr (hminus hsign hc))
    · exact .inl (hds.isDigit c hc)
  | pointed hsign hds hplaces =>
    rcases List.mem_append.1 hc with hc | hc
    · exact .inr (.inr (hminus hsign hc))
    rcases List.mem_append.1 hc with hc | hc
    · exact .inl (hds.isDigit c hc)
    rcases List.mem_cons.1 hc with rfl | hc
    · exact .inr (.inl rfl)
    · exact .inl (hplaces.isDigit c hc)

/-- No exponent is written. -/
theorem not_isExponentMark {cs : List Char} (h : IsPlain cs) :
    ∀ c ∈ cs, Decimal.isExponentMark c = false := by
  intro c hc
  rcases h.mem hc with hdigit | rfl | rfl
  · exact Decimal.isExponentMark_digit hdigit
  · rfl
  · rfl

/-- A zero has no sign. -/
theorem ne_minus_zero {cs : List Char} (h : IsPlain cs) : cs ≠ ['-', '0'] := by
  rintro rfl
  generalize hcs : ['-', '0'] = cs at h
  cases h with
  | zero => cases hcs
  | whole hsign hds hne =>
    rcases hsign with rfl | rfl
    · rw [List.nil_append] at hcs
      exact absurd (hds.isDigit '-' (hcs ▸ List.mem_cons_self)) (by decide)
    · exact hne (List.cons.inj hcs).2.symm
  | @pointed sign ds places =>
    have hpoint : '.' ∈ sign ++ (ds ++ '.' :: places) := by simp
    rw [← hcs] at hpoint
    simp at hpoint

theorem byteLength_eq {cs : List Char} (h : IsPlain cs) : byteLength cs = cs.length := by
  have hascii : ∀ c ∈ cs, c.utf8Size = 1 := by
    intro c hc
    rcases h.mem hc with hdigit | rfl | rfl
    · rw [Char.isDigit, Bool.and_eq_true, decide_eq_true_iff, decide_eq_true_iff] at hdigit
      exact Char.utf8Size_eq_one_iff.2 (UInt32.le_trans hdigit.2 (by decide))
    · rfl
    · rfl
  clear h
  induction cs with
  | nil => rfl
  | cons c cs ih =>
    obtain ⟨hc, hcs⟩ := List.forall_mem_cons.1 hascii
    rw [byteLength_cons, hc, ih hcs, List.length_cons, Nat.add_comm]

end IsPlain

namespace Decimal

/-! ### Normal forms -/

/-- A decimal without trailing zeros: the one zero of scale zero, or a coefficient that ten does not
divide. -/
def IsNormal (d : Decimal) : Prop := d = 0 ∨ ¬ (10 : ℤ) ∣ d.coefficient

theorem isNormal_normalize (d : Decimal) : d.normalize.IsNormal := by
  by_cases hzero : d.coefficient = 0
  · rw [normalize, if_pos hzero]
    exact .inl rfl
  · refine .inr ?_
    have hstrip := Digits.stripZeros_mod_ten (Int.natAbs_ne_zero.2 hzero)
    rw [normalize_eq hzero, ← Int.natAbs_dvd_natAbs, Int.natAbs_mul,
      Int.natAbs_sign_of_ne_zero hzero, one_mul, Int.natAbs_natCast]
    exact fun hdvd => hstrip (Nat.mod_eq_zero_of_dvd hdvd)

theorem IsNormal.eq_of_scale_le {a b : Decimal} (ha : a.IsNormal) (hb : b.IsNormal)
    (h : a.toRat = b.toRat) (hscale : a.scale ≤ b.scale) : a = b := by
  have hextend := eq_extend_of_toRat_eq h hscale
  generalize (b.scale - a.scale).toNat = k at hextend
  cases k with
  | zero =>
    rw [hextend, extend, Digits.tenPow_eq]
    simp
  | succ k =>
    -- The coefficient of `b` ends in zeros, which it does only if it is zero.
    have hten : (10 : ℤ) ∣ b.coefficient := by
      rw [hextend, extend, Digits.tenPow_eq, pow_succ]
      exact ⟨a.coefficient * 10 ^ k, by push_cast; ring⟩
    have hb : b = 0 := hb.resolve_right (not_not.2 hten)
    have hzero : a.coefficient = 0 := by
      have hrat := a.isZero_iff.2 (by rw [h, hb]; exact toRat_ofNat 0)
      exact of_decide_eq_true hrat
    rw [hb]
    exact ha.resolve_right (not_not.2 (hzero ▸ dvd_zero _))

/-- A number has one normal form. -/
theorem IsNormal.eq {a b : Decimal} (ha : a.IsNormal) (hb : b.IsNormal) (h : a.toRat = b.toRat) :
    a = b := by
  rcases le_total a.scale b.scale with hscale | hscale
  · exact ha.eq_of_scale_le hb h hscale
  · exact (hb.eq_of_scale_le ha h.symm hscale).symm

theorem normalize_eq_normalize_iff {a b : Decimal} :
    a.normalize = b.normalize ↔ a.toRat = b.toRat := by
  constructor
  · intro h
    rw [← toRat_normalize a, h, toRat_normalize]
  · intro h
    refine a.isNormal_normalize.eq b.isNormal_normalize ?_
    rw [toRat_normalize, toRat_normalize, h]

/-! ### Writing -/

/-- The sign of a number in its text. -/
def signText (z : Int) : List Char := if z < 0 then ['-'] else []

theorem plain_toList (d : Decimal) :
    d.plain.toList = signText d.normalize.coefficient ++ d.normalize.positional := by
  rw [plain, signText]
  simp only [signed, String.toList_ofList]
  split <;> rfl

theorem signText_eq (z : Int) : signText z = [] ∨ signText z = ['-'] := by
  rw [signText]
  split
  · exact .inr rfl
  · exact .inl rfl

theorem isPlain_pointed {sign ds : List Char} (hsign : sign = [] ∨ sign = ['-'])
    (hne : ds ≠ []) (hdigit : ∀ c ∈ ds, c.isDigit = true) (hhead : ds.head? ≠ some '0')
    (hlast : ds.getLast? ≠ some '0') {places : Nat} (hplaces : 0 < places) :
    IsPlain (sign ++ pointed ds places) := by
  have hlength := List.length_pos_of_ne_nil hne
  rw [pointed]
  split
  · rename_i hlt
    have hwhole : ds.take (ds.length - places) ≠ [] :=
      List.ne_nil_of_length_pos (by rw [List.length_take]; omega)
    have hrest : ds.drop (ds.length - places) ≠ [] :=
      List.ne_nil_of_length_pos (by rw [List.length_drop]; omega)
    refine .pointed hsign (.of_head hwhole (fun c hc => hdigit c (List.mem_of_mem_take hc)) ?_)
      ⟨hrest, fun c hc => hdigit c (List.mem_of_mem_drop hc), ?_⟩
    · rwa [List.head?_take, if_neg (by omega)]
    · rwa [List.getLast?_drop, if_neg (by omega)]
  · change IsPlain (sign ++ (['0'] ++ '.' :: (zeros (places - ds.length) ++ ds)))
    refine .pointed hsign Digits.isWhole_zero
      ⟨List.append_ne_nil_of_right_ne_nil _ hne, fun c hc => ?_, ?_⟩
    · rcases List.mem_append.1 hc with hc | hc
      · rw [(List.mem_replicate.1 hc).2]
        rfl
      · exact hdigit c hc
    · rwa [List.getLast?_append_of_ne_nil _ hne]

/-- A normal form is written with no zero too many: ten does not divide its coefficient, so that the
last digit behind the point is not zero. -/
theorem IsNormal.isPlain {d : Decimal} (h : d.IsNormal) :
    IsPlain (signText d.coefficient ++ d.positional) := by
  rcases h with rfl | hdvd
  · exact .zero
  have hmod : d.coefficient.natAbs % 10 ≠ 0 := by omega
  have hsign := signText_eq d.coefficient
  have hhead := Digits.head?_ofNat (n := d.coefficient.natAbs) (by omega)
  have hwrites := Digits.writes_ofNat d.coefficient.natAbs
  rw [positional]
  split
  · have hzeros := (writes_zeros hwrites (-d.scale).toNat).1
    rw [← List.head?_append_of_ne_nil _ hwrites.ne_nil] at hhead
    refine .whole hsign (.of_head hzeros.ne_nil hzeros.isDigit hhead) fun heq => ?_
    rw [heq] at hhead
    exact hhead rfl
  · exact isPlain_pointed hsign hwrites.ne_nil hwrites.isDigit hhead (hwrites.getLast? hmod)
      (by omega)

/-- The text of a number is canonical. -/
theorem isPlain_plain (d : Decimal) : IsPlain d.plain.toList := by
  rw [plain_toList]
  exact d.isNormal_normalize.isPlain

theorem length_positional_le (d : Decimal) : d.positional.length ≤ d.extent + 1 := by
  have hdigits := Digits.length_ofNat_le d.coefficient.natAbs
  have hpos := Digits.count_pos d.coefficient.natAbs
  rw [positional, extent, digitCount]
  generalize Digits.ofNat d.coefficient.natAbs = ds at hdigits
  simp only [pointed, zeros]
  split
  · rw [List.length_append, List.length_replicate]
    omega
  · split
    · rw [List.length_append, List.length_take, List.length_cons, List.length_drop]
      omega
    · rw [List.length_cons, List.length_cons, List.length_append, List.length_replicate]
      omega

theorem length_plain_le (d : Decimal) : byteLength d.plain.toList ≤ d.extent + 2 := by
  have hnormalize := d.extent_normalize_le
  have hpositional := d.normalize.length_positional_le
  have hsign : (signText d.normalize.coefficient).length ≤ 1 := by
    rw [signText]
    split <;> decide
  rw [d.isPlain_plain.byteLength_eq, plain_toList, List.length_append]
  omega

/-! ### Reading -/

theorem readMantissa?_minus {kind : Token.Kind} {cs : List Char} {d : Decimal}
    (h : Numeral kind cs d) : readMantissa? ('-' :: cs) = some d.neg := by
  obtain ⟨n, hwrites, rfl⟩ := h.digits
  have hminus : decide ('-' ≠ '.') = true := by decide
  rw [readMantissa?, List.takeWhile_cons, List.dropWhile_cons, if_pos hminus, if_pos hminus,
    List.cons_append, readSigned?, readDigits?_eq hwrites]
  rfl

/-- The text of a number is read back with the value of the number. -/
theorem readMantissa?_plain (d : Decimal) : ∃ m, readMantissa? d.plain.toList = some m ∧
    m.toRat = d.toRat ∧ m.scale = max d.normalize.scale 0 := by
  obtain ⟨kind, hnumeral⟩ := d.normalize.positional_numeral
  obtain ⟨hrat, -⟩ := signed_eq (toRat_placed ⟨d.normalize.coefficient.natAbs, d.normalize.scale⟩)
  rw [toRat_normalize] at hrat
  refine ⟨_, ?_, hrat, ?_⟩
  · rw [plain_toList, signText]
    split
    · exact readMantissa?_minus hnumeral
    · exact hnumeral.readMantissa?_eq
  · split <;> rfl

theorem scale_normalize_le (d : Decimal) : d.normalize.scale ≤ max d.scale 0 := by
  rw [normalize]
  split
  · exact le_max_right _ _
  · exact (Int.sub_le_self _ (Int.natCast_nonneg _)).trans (le_max_left _ _)

theorem ofString?_plain {d : Decimal} (h : d.scale ≤ 2 ^ 62) :
    ∃ m, ofString? d.plain = some m ∧ m.same d = true := by
  obtain ⟨m, hm, hrat, hscale⟩ := d.readMantissa?_plain
  have hnormalize := d.scale_normalize_le
  have hfits : scaleFits m.scale = true := by
    rw [scaleFits, Bool.and_eq_true, decide_eq_true_iff, decide_eq_true_iff]
    omega
  refine ⟨m, ?_, (same_iff m d).2 hrat⟩
  rw [← String.ofList_toList (s := d.plain)]
  exact ofString?_unmarked d.isPlain_plain.not_isExponentMark hm hfits

/-- Equal texts are those of equal values. -/
theorem plain_eq_plain_iff {a b : Decimal} : a.plain = b.plain ↔ a.same b = true := by
  rw [same_iff]
  constructor
  · intro h
    obtain ⟨m, hm, hrat, -⟩ := a.readMantissa?_plain
    obtain ⟨m', hm', hrat', -⟩ := b.readMantissa?_plain
    rw [h, hm'] at hm
    rw [← hrat, ← hrat', Option.some.inj hm]
  · intro h
    rw [plain, plain, normalize_eq_normalize_iff.2 h]

/-- The text of a number is read back as the number, is that of no other value, has no superfluous
zero, no exponent and no sign at a zero, and is no longer than the room that the decimal takes but
for a sign and a point. -/
theorem plain_canonical {n : Decimal} (hn : n.scale.natAbs ≤ 2 ^ 62) (a b : Decimal) :
    (∃ m, ofString? n.plain = some m ∧ m.same n = true) ∧
    (a.plain = b.plain ↔ a.same b = true) ∧
    IsPlain n.plain.toList ∧
    (∀ c ∈ n.plain.toList, isExponentMark c = false) ∧
    n.plain ≠ "-0" ∧
    byteLength n.plain.toList ≤ n.extent + 2 := by
  have hplain := n.isPlain_plain
  refine ⟨ofString?_plain (by omega), plain_eq_plain_iff, hplain, hplain.not_isExponentMark, ?_,
    n.length_plain_le⟩
  intro hzero
  exact hplain.ne_minus_zero (by rw [hzero]; rfl)

/-- A number whose text is as long as it may be: with a sign, and a zero before the point. -/
theorem plain_canonical_small :
    (∃ m, ofString? (⟨-7, 9⟩ : Decimal).plain = some m ∧ m.same ⟨-7, 9⟩ = true) ∧
    ((⟨-7, 9⟩ : Decimal).plain = (⟨-700, 11⟩ : Decimal).plain ↔
      (⟨-7, 9⟩ : Decimal).same ⟨-700, 11⟩ = true) ∧
    IsPlain (⟨-7, 9⟩ : Decimal).plain.toList ∧
    byteLength "-0.000000007".toList ≤ (⟨-7, 9⟩ : Decimal).extent + 2 := by
  have htext : (⟨-7, 9⟩ : Decimal).plain = "-0.000000007" := by decide
  obtain ⟨hread, hiff, hplain, -, -, hlength⟩ :=
    plain_canonical (n := ⟨-7, 9⟩) (by decide) ⟨-7, 9⟩ ⟨-700, 11⟩
  exact ⟨hread, hiff, hplain, htext ▸ hlength⟩

example : (⟨25, 3⟩ : Decimal).plain = "0.025" ∧ (⟨25, -3⟩ : Decimal).plain = "25000" ∧
    (⟨0, 7⟩ : Decimal).plain = "0" := by decide

end Decimal

end UnitCalc
