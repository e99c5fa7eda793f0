import Mathlib.Algebra.Order.Ring.Nat
import UnitCalc.Decimal.Text
import UnitCalc.Proofs.Rational
import UnitCalc.Proofs.Scan

/-! Numerals. The digits of a number are as many as they should be and write that number, and the
text of a decimal is a numeral that is read back with the same value. The pair read back takes no
more room than the one that was written. -/

namespace UnitCalc

/-! ### Counting digits -/

namespace Digits

theorem lt_pow_rounds (n : Nat) : n < 10 ^ 2 ^ rounds n := by
  have hrounds : Nat.log2 n / 3 + 1 < 2 ^ rounds n := Nat.lt_log2_self
  calc n < 2 ^ (Nat.log2 n + 1) := Nat.lt_log2_self
    _ ≤ 2 ^ (3 * (2 ^ rounds n)) := Nat.pow_le_pow_right (by decide) (by omega)
    _ = 8 ^ 2 ^ rounds n := by rw [pow_mul]; rfl
    _ ≤ 10 ^ 2 ^ rounds n := Nat.pow_le_pow_left (by decide) _

theorem leading_succ (j n : Nat) : leading (j + 1) n =
    if n < tenPow (2 ^ j) then leading j n
    else 2 ^ j + leading j (n / tenPow (2 ^ j)) := rfl

theorem leading_lt_iff {j n m : Nat} (hn : n < 10 ^ 2 ^ j) (hm : 0 < m) :
    leading j n < m ↔ n < 10 ^ m := by
  induction j generalizing n m with
  | zero =>
    have hten : 10 ^ 1 ≤ 10 ^ m := Nat.pow_le_pow_right (by decide) hm
    have hsmall : n < 10 ^ 1 := hn
    exact iff_of_true hm (lt_of_lt_of_le hsmall hten)
  | succ j ih =>
    rw [leading_succ, tenPow_eq]
    split
    · rename_i hlt
      exact ih hlt hm
    · rename_i hle
      have hhalf : n / 10 ^ 2 ^ j < 10 ^ 2 ^ j := by
        rw [Nat.div_lt_iff_lt_mul (Nat.pow_pos (by decide)), ← pow_add, ← two_mul, ← pow_succ']
        exact hn
      rcases Nat.lt_or_ge (2 ^ j) m with hlt | hge
      · -- The upper half has the digits that are left of `m`.
        have hsplit : 10 ^ m = 10 ^ (m - 2 ^ j) * 10 ^ 2 ^ j := by
          rw [← pow_add, Nat.sub_add_cancel hlt.le]
        rw [hsplit, ← Nat.div_lt_iff_lt_mul (Nat.pow_pos (by decide)), ← ih hhalf (by omega)]
        omega
      · have hpow : 10 ^ m ≤ 10 ^ 2 ^ j := Nat.pow_le_pow_right (by decide) hge
        omega

theorem count_le_iff {n m : Nat} (hm : 0 < m) : count n ≤ m ↔ n < 10 ^ m :=
  leading_lt_iff (lt_pow_rounds n) hm

theorem count_pos (n : Nat) : 0 < count n := Nat.succ_pos _

theorem lt_pow_count (n : Nat) : n < 10 ^ count n := (count_le_iff (count_pos n)).1 le_rfl

theorem count_mul_le (a b : Nat) : count (a * b) ≤ count a + count b := by
  have hpos : 0 < count a + count b := Nat.add_pos_left (count_pos a) _
  rw [count_le_iff hpos, pow_add]
  exact Nat.mul_lt_mul'' (lt_pow_count a) (lt_pow_count b)

theorem count_mul_pow_le (a k : Nat) : count (a * 10 ^ k) ≤ count a + k := by
  have hpos : 0 < count a + k := Nat.add_pos_left (count_pos a) _
  rw [count_le_iff hpos, pow_add]
  exact Nat.mul_lt_mul_of_pos_right (lt_pow_count a) (Nat.pow_pos (by decide))

/-- A number of `count m` digits with `k` zeros behind them has so many digits. -/
theorem count_add_le {m : Nat} (hm : m ≠ 0) (k : Nat) : count m + k ≤ count (m * 10 ^ k) := by
  by_contra hlt
  have hpos : 0 < count (m * 10 ^ k) := count_pos _
  have hk : k < count (m * 10 ^ k) ∨ count (m * 10 ^ k) ≤ k := lt_or_ge _ _
  have hbound := lt_pow_count (m * 10 ^ k)
  rcases hk with hk | hk
  · have hsplit : 10 ^ count (m * 10 ^ k) = 10 ^ (count (m * 10 ^ k) - k) * 10 ^ k := by
      rw [← pow_add, Nat.sub_add_cancel hk.le]
    rw [hsplit] at hbound
    have hsmall : m < 10 ^ (count (m * 10 ^ k) - k) := lt_of_mul_lt_mul_right hbound (Nat.zero_le _)
    have := (count_le_iff (by omega)).2 hsmall
    omega
  · have hle : 10 ^ count (m * 10 ^ k) ≤ 10 ^ k := Nat.pow_le_pow_right (by decide) hk
    have hone : 10 ^ k ≤ m * 10 ^ k := Nat.le_mul_of_pos_left _ (Nat.pos_of_ne_zero hm)
    omega

end Digits

/-! ### The room that a decimal takes -/

namespace Decimal

theorem extent_pos (d : Decimal) : 0 < d.extent := Nat.add_pos_left (Digits.count_pos _) _

theorem extent_normalize_le (d : Decimal) : d.normalize.extent ≤ d.extent := by
  by_cases hzero : d.coefficient = 0
  · rw [normalize, if_pos hzero]
    exact d.extent_pos
  · have hstrip := Digits.stripped_mul (Digits.rounds d.coefficient.natAbs) d.coefficient.natAbs
    rw [normalize_eq hzero, extent, extent, digitCount, digitCount, Int.natAbs_mul,
      Int.natAbs_sign_of_ne_zero hzero, Int.natAbs_natCast, one_mul]
    change (Digits.stripZeros d.coefficient.natAbs).1 *
      10 ^ (Digits.stripZeros d.coefficient.natAbs).2 = _ at hstrip
    generalize Digits.stripZeros d.coefficient.natAbs = p at hstrip ⊢
    have hp : p.1 ≠ 0 := by
      intro h
      rw [h, zero_mul] at hstrip
      exact hzero (Int.natAbs_eq_zero.1 hstrip.symm)
    have hcount := Digits.count_add_le hp p.2
    rw [hstrip] at hcount
    simp only
    omega

theorem extent_natAbs (d : Decimal) :
    (⟨d.coefficient.natAbs, d.scale⟩ : Decimal).extent = d.extent := by
  rw [extent, extent, digitCount, digitCount, Int.natAbs_natCast]

theorem extent_mul_le (a b : Decimal) : (a.mul b).extent ≤ a.extent + b.extent := by
  rw [mul]
  split
  · have := b.extent_normalize_le
    omega
  · split
    · have := a.extent_normalize_le
      omega
    · have hcount := Digits.count_mul_le a.coefficient.natAbs b.coefficient.natAbs
      rw [← Int.natAbs_mul] at hcount
      simp only [extent, digitCount]
      omega

end Decimal

/-! ### Digits as text -/

namespace Digits

/-- A list of digits that writes a number. -/
structure Writes (ds : List Char) (n : Nat) : Prop where
  ne_nil : ds ≠ []
  isDigit : ∀ c ∈ ds, c.isDigit = true
  toNat_eq : toNat ds = n

theorem toNat_append (ds es : List Char) :
    toNat (ds ++ es) = toNat ds * 10 ^ es.length + toNat es := by
  have happend := Nat.ofDigitChars_append (b := 10) (l := ds) (m := es) 0
  rw [Nat.ofDigitChars_eq_ofDigitChars_zero (l := es)] at happend
  simpa only [toNat, digitValue, Nat.ofDigitChars_eq_foldl, mul_comm] using happend

theorem toNat_zeros (k : Nat) : toNat (Decimal.zeros k) = 0 := by
  have hzeros : Nat.ofDigitChars 10 (List.replicate k '0') 0 = 10 ^ k * 0 :=
    Nat.ofDigitChars_replicate_zero
  simpa only [toNat, Decimal.zeros, digitValue, Nat.ofDigitChars_eq_foldl, mul_zero] using hzeros

theorem writes_repr (n : Nat) : Writes n.repr.toList n := by
  rw [Nat.toList_repr]
  refine ⟨Nat.toDigits_ne_nil, fun c hc => ?_, ?_⟩
  · exact Nat.isDigit_of_mem_toDigits (by decide) le_rfl hc
  · have hread := Nat.ofDigitChars_toDigits (b := 10) (n := n) (by decide) le_rfl
    rwa [Nat.ofDigitChars_eq_foldl] at hread

theorem Writes.append {ds es : List Char} {m n : Nat} (hds : Writes ds m) (hes : Writes es n) :
    Writes (ds ++ es) (m * 10 ^ es.length + n) where
  ne_nil := List.append_ne_nil_of_left_ne_nil hds.ne_nil es
  isDigit c hc := (List.mem_append.1 hc).elim (hds.isDigit c) (hes.isDigit c)
  toNat_eq := by rw [toNat_append, hds.toNat_eq, hes.toNat_eq]

theorem writes_digitChar {d : Nat} (hd : d < 10) : Writes [digitChar d] d := by
  have hall : ∀ d < 10, (digitChar d).isDigit = true ∧ digitValue (digitChar d) = d := by decide
  obtain ⟨hdigit, hvalue⟩ := hall d hd
  refine ⟨List.cons_ne_nil _ _, fun c hc => ?_, ?_⟩
  · rw [List.mem_singleton.1 hc, hdigit]
  · rw [toNat, List.foldl_cons, List.foldl_nil, hvalue, mul_zero, zero_add]

theorem padded_succ (j n : Nat) (tail : List Char) : padded (j + 1) n tail =
    padded j (n / tenPow (2 ^ j)) (padded j (n % tenPow (2 ^ j)) tail) := rfl

/-- Halving the digits gives all of them, the leading zeros included. -/
theorem padded_eq (j n : Nat) (tail : List Char) :
    ∃ ds, padded j n tail = ds ++ tail ∧ ds.length = 2 ^ j ∧ Writes ds (n % 10 ^ 2 ^ j) := by
  induction j generalizing n tail with
  | zero => exact ⟨[digitChar (n % 10)], rfl, rfl, writes_digitChar (Nat.mod_lt n (by decide))⟩
  | succ j ih =>
    rw [padded_succ, tenPow_eq]
    obtain ⟨low, hlow, hlength, hwrites⟩ := ih (n % 10 ^ 2 ^ j) tail
    obtain ⟨high, hhigh, hlength', hwrites'⟩ := ih (n / 10 ^ 2 ^ j) (low ++ tail)
    refine ⟨high ++ low, ?_, ?_, ?_⟩
    · rw [hlow, hhigh, List.append_assoc]
    · rw [List.length_append, hlength, hlength', pow_succ, mul_two]
    · have happend := hwrites'.append hwrites
      have hmod : n / 10 ^ 2 ^ j % 10 ^ 2 ^ j * 10 ^ low.length + n % 10 ^ 2 ^ j % 10 ^ 2 ^ j =
          n % 10 ^ 2 ^ (j + 1) := by
        rw [hlength, Nat.mod_mod, pow_succ, mul_two, pow_add, Nat.mod_mul]
        ring
      rwa [hmod] at happend

theorem toNat_dropWhile (ds : List Char) : toNat (ds.dropWhile (· = '0')) = toNat ds := by
  induction ds with
  | nil => rfl
  | cons c ds ih =>
    rw [List.dropWhile_cons]
    split
    · rename_i hc
      have hc : c = '0' := by simpa using hc
      have hcons := toNat_append ['0'] ds
      rw [ih, hc, ← List.singleton_append, hcons]
      simp [toNat, digitValue]
    · rfl

theorem writes_ofNat (n : Nat) : Writes (ofNat n) n := by
  rw [ofNat]
  split
  · rename_i hzero
    rw [hzero]
    exact writes_digitChar (d := 0) (by decide)
  · rename_i hne
    obtain ⟨ds, hds, -, hwrites⟩ := padded_eq (rounds n) n []
    have hvalue : toNat (ds.dropWhile (· = '0')) = n := by
      rw [toNat_dropWhile, hwrites.toNat_eq, Nat.mod_eq_of_lt (lt_pow_rounds n)]
    rw [hds, List.append_nil]
    refine ⟨fun hnil => ?_, fun c hc => ?_, hvalue⟩
    · rw [hnil] at hvalue
      exact hne hvalue.symm
    · exact hwrites.isDigit c ((List.dropWhile_sublist _).mem hc)

end Digits

/-! ### Numerals -/

/-- A run of characters ends where the first character stands that does not belong to it. -/
theorem span_run {p : Char → Bool} {xs r : List Char} (hxs : ∀ c ∈ xs, p c = true)
    (hr : ∀ c ∈ r.head?, p c = false) :
    (xs ++ r).takeWhile p = xs ∧ (xs ++ r).dropWhile p = r := by
  rw [List.takeWhile_append_of_pos hxs, List.dropWhile_append_of_pos hxs]
  cases r with
  | nil => simp
  | cons c r => simp [hr c rfl]

/-- The texts of numbers without a sign and without an exponent: what kind of token each is, and the
decimal that it is read as. -/
inductive Numeral : Token.Kind → List Char → Decimal → Prop where
  | integer {ds : List Char} {n : Nat} (hds : Digits.Writes ds n) : Numeral .integer ds ⟨n, 0⟩
  | float {whole places : List Char} {m n : Nat} (hwhole : Digits.Writes whole m)
      (hplaces : Digits.Writes places n) :
      Numeral .float (whole ++ '.' :: places)
        ⟨(m * 10 ^ places.length + n : Nat), places.length⟩

namespace Decimal

open Digits (Writes)

theorem digit_ne {c d : Char} (h : c.isDigit = true) (hd : d.isDigit = false) : c ≠ d := by
  rintro rfl
  exact Bool.false_ne_true (hd.symm.trans h)

theorem filter_underscore {ds : List Char} (h : ∀ c ∈ ds, c.isDigit = true) :
    ds.filter (· ≠ '_') = ds :=
  List.filter_eq_self.2 fun c hc => decide_eq_true (digit_ne (h c hc) (by decide))

theorem readDigits?_eq {ds : List Char} {n : Nat} (h : Writes ds n) :
    readDigits? ds = some n := by
  cases ds with
  | nil => exact absurd rfl h.ne_nil
  | cons c cs =>
    have hfirst : c ≠ '_' := digit_ne (h.isDigit c List.mem_cons_self) (by decide)
    have hall : (c :: cs).all (fun c => c.isDigit || c = '_') = true := by
      rw [List.all_eq_true]
      intro d hd
      rw [h.isDigit d hd, Bool.true_or]
    rw [readDigits?, hall, filter_underscore h.isDigit, h.toNat_eq]
    simp [hfirst]

theorem readSigned?_eq {ds : List Char} {n : Nat} (h : Writes ds n) :
    readSigned? ds = some (n : Int) := by
  have hdigits : readSigned? ds = (readDigits? ds).map Int.ofNat := by
    rw [readSigned?.eq_def]
    split
    · exact absurd (h.isDigit '-' List.mem_cons_self) (by decide)
    · exact absurd (h.isDigit '+' List.mem_cons_self) (by decide)
    · rfl
  rw [hdigits, readDigits?_eq h]
  rfl

theorem isExponentMark_digit {c : Char} (h : c.isDigit = true) : isExponentMark c = false := by
  have he := digit_ne (d := 'e') h (by decide)
  have hE := digit_ne (d := 'E') h (by decide)
  simp [isExponentMark, he, hE]

/-- Where no exponent is marked, there is only a coefficient to read. -/
theorem ofString?_unmarked {cs : List Char} (hmark : ∀ c ∈ cs, isExponentMark c = false)
    {d : Decimal} (h : readMantissa? cs = some d) (hscale : scaleFits d.scale = true) :
    ofString? (String.ofList cs) = some d := by
  have hnot : ∀ c ∈ cs, (!isExponentMark c) = true := fun c hc => by rw [hmark c hc]; rfl
  obtain ⟨htake, hdrop⟩ := span_run (r := []) hnot nofun
  rw [List.append_nil] at htake hdrop
  simp only [ofString?, String.toList_ofList, htake, hdrop, h, Option.bind_eq_bind,
    Option.bind_some, sub_zero, hscale, if_true]

end Decimal

namespace Numeral

open Decimal

theorem ne_nil {kind : Token.Kind} {cs : List Char} {d : Decimal} (h : Numeral kind cs d) :
    cs ≠ [] := by
  cases h with
  | integer hds => exact hds.ne_nil
  | float hwhole _ => exact List.append_ne_nil_of_left_ne_nil hwhole.ne_nil _

theorem kind_eq {kind : Token.Kind} {cs : List Char} {d : Decimal} (h : Numeral kind cs d) :
    kind = .integer ∨ kind = .float := by
  cases h with
  | integer => exact .inl rfl
  | float => exact .inr rfl

theorem mem {kind : Token.Kind} {cs : List Char} {d : Decimal} (h : Numeral kind cs d) :
    ∀ c ∈ cs, c.isDigit = true ∨ c = '.' := by
  cases h with
  | integer hds => exact fun c hc => .inl (hds.isDigit c hc)
  | float hwhole hplaces =>
    intro c hc
    rcases List.mem_append.1 hc with hc | hc
    · exact .inl (hwhole.isDigit c hc)
    · rcases List.mem_cons.1 hc with rfl | hc
      · exact .inr rfl
      · exact .inl (hplaces.isDigit c hc)

/-- The digits on both sides of the point, which give the coefficient, and how many of them are
places. -/
theorem digits {kind : Token.Kind} {cs : List Char} {d : Decimal} (h : Numeral kind cs d) :
    ∃ n : Nat, Digits.Writes (cs.takeWhile (· ≠ '.') ++ (cs.dropWhile (· ≠ '.')).drop 1) n ∧
      d = ⟨n, (((cs.dropWhile (· ≠ '.')).drop 1).filter (· ≠ '_')).length⟩ := by
  cases h with
  | @integer ds n hds =>
    have hne : ∀ c ∈ cs, decide (c ≠ '.') = true := fun c hc =>
      decide_eq_true (digit_ne (hds.isDigit c hc) (by decide))
    obtain ⟨hwhole, hrest⟩ := span_run (r := []) hne nofun
    rw [List.append_nil] at hwhole hrest
    rw [hwhole, hrest, List.drop_nil, List.append_nil]
    exact ⟨n, hds, rfl⟩
  | @float whole places m n hwhole hplaces =>
    have hne : ∀ c ∈ whole, decide (c ≠ '.') = true := fun c hc =>
      decide_eq_true (digit_ne (hwhole.isDigit c hc) (by decide))
    have hpoint : ∀ c ∈ ('.' :: places).head?, decide (c ≠ '.') = false := by
      rintro c ⟨⟩
      rfl
    obtain ⟨htake, hdrop⟩ := span_run hne hpoint
    rw [htake, hdrop, List.drop_one, List.tail_cons, filter_underscore hplaces.isDigit]
    exact ⟨_, hwhole.append hplaces, rfl⟩

theorem readMantissa?_eq {kind : Token.Kind} {cs : List Char} {d : Decimal}
    (h : Numeral kind cs d) : readMantissa? cs = some d := by
  obtain ⟨n, hwrites, rfl⟩ := h.digits
  rw [readMantissa?, readSigned?_eq hwrites]
  rfl

/-- A numeral is read as the decimal that it stands for. -/
theorem ofString?_eq {kind : Token.Kind} {cs : List Char} {d : Decimal} (h : Numeral kind cs d)
    (hscale : scaleFits d.scale = true) : Decimal.ofString? (String.ofList cs) = some d := by
  refine ofString?_unmarked (fun c hc => ?_) h.readMantissa?_eq hscale
  rcases h.mem c hc with hdigit | rfl
  · exact isExponentMark_digit hdigit
  · rfl

end Numeral

namespace Decimal

open Digits (Writes)

theorem writes_zeros {ds : List Char} {n : Nat} (h : Writes ds n) (k : Nat) :
    Writes (ds ++ zeros k) (n * 10 ^ k) ∧ Writes (zeros k ++ ds) n := by
  have hzero : ∀ c ∈ zeros k, c.isDigit = true := by
    intro c hc
    rw [(List.mem_replicate.1 hc).2]
    rfl
  have hlength : (zeros k).length = k := List.length_replicate
  refine ⟨⟨List.append_ne_nil_of_left_ne_nil h.ne_nil _, ?_, ?_⟩,
    ⟨List.append_ne_nil_of_right_ne_nil _ h.ne_nil, ?_, ?_⟩⟩
  · exact fun c hc => (List.mem_append.1 hc).elim (h.isDigit c) (hzero c)
  · rw [Digits.toNat_append, h.toNat_eq, Digits.toNat_zeros, hlength, add_zero]
  · exact fun c hc => (List.mem_append.1 hc).elim (hzero c) (h.isDigit c)
  · rw [Digits.toNat_append, h.toNat_eq, Digits.toNat_zeros, zero_mul, zero_add]

/-- Digits with a point among or before them write the number at the scale of the places. -/
theorem pointed_numeral {ds : List Char} {n : Nat} (h : Writes ds n) {places : Nat}
    (hplaces : 0 < places) : Numeral .float (pointed ds places) ⟨n, places⟩ := by
  rw [pointed]
  split
  · rename_i hlt
    have hlength : (ds.drop (ds.length - places)).length = places := by
      rw [List.length_drop]
      omega
    have hwhole : Writes (ds.take (ds.length - places))
        (Digits.toNat (ds.take (ds.length - places))) := by
      refine ⟨fun hnil => ?_, fun c hc => h.isDigit c (List.mem_of_mem_take hc), rfl⟩
      have := congrArg List.length hnil
      rw [List.length_take, List.length_nil] at this
      omega
    have hrest : Writes (ds.drop (ds.length - places))
        (Digits.toNat (ds.drop (ds.length - places))) := by
      refine ⟨fun hnil => ?_, fun c hc => h.isDigit c (List.mem_of_mem_drop hc), rfl⟩
      rw [hnil, List.length_nil] at hlength
      omega
    have hnumeral := Numeral.float hwhole hrest
    rwa [← Digits.toNat_append, List.take_append_drop, h.toNat_eq, hlength] at hnumeral
  · rename_i hge
    have hwhole : Writes ['0'] 0 := Digits.writes_digitChar (d := 0) (by decide)
    have hnumeral := Numeral.float hwhole (writes_zeros h (places - ds.length)).2
    have hlength : (zeros (places - ds.length) ++ ds).length = places := by
      rw [List.length_append, zeros, List.length_replicate]
      omega
    rwa [hlength, zero_mul, zero_add] at hnumeral

/-- The same number without a negative scale, which no numeral has. -/
def placed (d : Decimal) : Decimal := ⟨d.atScale (max d.scale 0), max d.scale 0⟩

@[simp] theorem toRat_placed (d : Decimal) : d.placed.toRat = d.toRat :=
  toRat_of_atScale (d.cast_atScale (le_max_left _ _))

theorem placed_of_nonpos {d : Decimal} (h : d.scale ≤ 0) :
    d.placed = ⟨d.coefficient * (10 ^ (-d.scale).toNat : Nat), 0⟩ := by
  rw [placed, max_eq_right h, atScale, Digits.tenPow_eq, zero_sub]

theorem placed_of_nonneg {d : Decimal} (h : 0 ≤ d.scale) : d.placed = d := by
  rw [placed, max_eq_left h, atScale, Digits.tenPow_eq, sub_self]
  simp

theorem extent_placed_le (d : Decimal) : d.placed.extent ≤ d.extent := by
  rcases le_total d.scale 0 with hscale | hscale
  · have hcount := Digits.count_mul_pow_le d.coefficient.natAbs (-d.scale).toNat
    simp only [placed_of_nonpos hscale, extent, digitCount, Int.natAbs_mul, Int.natAbs_natCast,
      Int.natAbs_zero]
    omega
  · rw [placed_of_nonneg hscale]

/-- A decimal without its sign is written as a numeral. -/
theorem positional_numeral (d : Decimal) :
    ∃ kind, Numeral kind d.positional (placed ⟨d.coefficient.natAbs, d.scale⟩) := by
  have hdigits := Digits.writes_ofNat d.coefficient.natAbs
  rw [positional]
  split
  · rename_i hscale
    rw [placed_of_nonpos (d := ⟨d.coefficient.natAbs, d.scale⟩) hscale, ← Nat.cast_mul]
    exact ⟨_, .integer (writes_zeros hdigits (-d.scale).toNat).1⟩
  · rename_i hscale
    have hplaces : ((d.scale.toNat : Nat) : Int) = d.scale := Int.toNat_of_nonneg (by omega)
    have hpos : 0 < d.scale.toNat := by omega
    have hnumeral := pointed_numeral hdigits hpos
    rw [hplaces] at hnumeral
    rw [placed_of_nonneg (by simp only; omega)]
    exact ⟨_, hnumeral⟩

/-- A decimal whose sign has been read apart from its numeral. -/
theorem signed_eq {d m : Decimal}
    (h : d.toRat = (⟨m.coefficient.natAbs, m.scale⟩ : Decimal).toRat) :
    (if m.coefficient < 0 then d.neg else d).toRat = m.toRat ∧
      (if m.coefficient < 0 then d.neg else d).extent = d.extent := by
  split
  · rename_i hneg
    have habs : (m.coefficient.natAbs : ℤ) = -m.coefficient := by omega
    refine ⟨?_, d.extent_neg⟩
    rw [toRat_neg, h, habs, ← toRat_neg]
    simp [neg]
  · rename_i hnonneg
    have habs : (m.coefficient.natAbs : ℤ) = m.coefficient := by omega
    exact ⟨by rw [h, habs], rfl⟩

/-! ### Literals -/

/-- The pair that the text of a decimal is read as. -/
def reread (d : Decimal) : Decimal := d.normalize.placed

@[simp] theorem toRat_reread (d : Decimal) : d.reread.toRat = d.toRat := by
  rw [reread, toRat_placed, toRat_normalize]

theorem withinLimit_reread {d : Decimal} (h : d.withinLimit = true) :
    d.reread.withinLimit = true := by
  have hnormalize := d.extent_normalize_le
  have hplaced := d.normalize.extent_placed_le
  have hd : d.extent ≤ maxExtent := of_decide_eq_true h
  exact decide_eq_true (by rw [reread]; omega)

/-- The text of a decimal that is not negative is a numeral. -/
theorem plain_numeral {d : Decimal} (h : 0 ≤ d.coefficient) :
    ∃ kind, Numeral kind d.plain.toList d.reread := by
  have hcoefficient : 0 ≤ d.normalize.coefficient := by
    rw [normalize]
    split
    · exact le_rfl
    · exact Int.mul_nonneg (Int.sign_nonneg_iff.2 h) (Int.natCast_nonneg _)
  obtain ⟨kind, hnumeral⟩ := d.normalize.positional_numeral
  rw [Int.natAbs_of_nonneg hcoefficient] at hnumeral
  refine ⟨kind, ?_⟩
  rwa [plain, signed, if_neg (not_lt.2 hcoefficient), String.toList_ofList]

theorem readSigned?_nonneg {c : Char} {cs : List Char} (hc : c.isDigit = true) {n : Int}
    (h : readSigned? (c :: cs) = some n) : 0 ≤ n := by
  have hdigits : readSigned? (c :: cs) = (readDigits? (c :: cs)).map Int.ofNat := by
    have hminus : c ≠ '-' := digit_ne hc (by decide)
    have hplus : c ≠ '+' := digit_ne hc (by decide)
    simp [readSigned?, hminus, hplus]
  rw [hdigits] at h
  obtain ⟨k, -, rfl⟩ := Option.map_eq_some_iff.1 h
  exact Int.natCast_nonneg k

/-- An exponent only moves the point. -/
theorem mantissa_of_ofString? {text : String} {d : Decimal} (h : ofString? text = some d) :
    ∃ m, readMantissa? (text.toList.takeWhile (!isExponentMark ·)) = some m ∧
      d.coefficient = m.coefficient := by
  rw [ofString?] at h
  obtain ⟨m, hm, h⟩ := Option.bind_eq_some_iff.1 h
  refine ⟨m, hm, ?_⟩
  simp only at h
  split at h
  all_goals
    obtain ⟨e, -, h⟩ := Option.bind_eq_some_iff.1 h
    split at h
    · cases h
      rfl
    · cases h

/-- A text that begins with a digit is read as no negative number. -/
theorem coefficient_nonneg {c : Char} {cs : List Char} (hc : c.isDigit = true) {d : Decimal}
    (h : ofString? (String.ofList (c :: cs)) = some d) : 0 ≤ d.coefficient := by
  have hmark : isExponentMark c = false := isExponentMark_digit hc
  have hpoint : c ≠ '.' := digit_ne hc (by decide)
  obtain ⟨m, hm, hcoefficient⟩ := mantissa_of_ofString? h
  rw [String.toList_ofList, List.takeWhile_cons, hmark, Bool.not_false, if_pos rfl, readMantissa?,
    List.takeWhile_cons, decide_eq_true hpoint, if_pos rfl, List.cons_append] at hm
  obtain ⟨n, hn, rfl⟩ := Option.map_eq_some_iff.1 hm
  rw [hcoefficient]
  exact readSigned?_nonneg hc hn

end Decimal

end UnitCalc
