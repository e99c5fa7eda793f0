import Mathlib.Algebra.BigOperators.Finprod
import UnitCalc.Proofs.NumberFlow
import UnitCalc.Proofs.ReadBack

/-! Results do not depend on the size that is chosen for a unit. When every declared unit is made
larger by a factor and every variable is restated accordingly, the values of an expression in the
two states differ by the factors of their unit and in nothing else. Two kinds of expressions are
left out: quotients are cut to the precision of the state, and brackets ask for one of a unit, of
whatever size. -/

namespace UnitCalc

/-! ### Two results -/

/-- Two results are related if both are values. -/
abbrev Both {ε ε' α α' : Type} (R : α → α' → Prop) : Except ε α → Except ε' α' → Prop :=
  Related .any R

theorem Both.locate {α α' : Type} {R : α → α' → Prop} {x : Except Fault α} {y : Except Fault α'}
    (h : Both R x y) (span : Span) : Both R (locate span x) (locate span y) :=
  related_any.2 fun a b hx hy => related_any.1 h a b (locate_ok hx) (locate_ok hy)

/-! ### Factors of units -/

namespace Dimension

/-- What a number of this dimension is multiplied by when each base unit stands for `weight` of what
it stood for. -/
def factor (weight : String → ℚ) (d : Dimension) : ℚ :=
  (d.exponents.entries.map fun e => weight e.1 ^ e.2).prod

variable {weight : String → ℚ}

theorem mulSupport_subset (weight : String → ℚ) (d : Dimension) :
    (Function.mulSupport fun u => weight u ^ d.exponent u) ⊆ d.exponents.names.toFinset := by
  intro u hu
  have hne : d.exponent u ≠ 0 := by
    intro hzero
    rw [Function.mem_mulSupport, hzero, zpow_zero] at hu
    exact hu rfl
  rw [Finset.mem_coe, List.mem_toFinset]
  exact List.mem_map_of_mem (mem_of_exponent hne)

theorem factor_eq (weight : String → ℚ) (d : Dimension) :
    d.factor weight = ∏ᶠ u, weight u ^ d.exponent u := by
  have hnodup : d.exponents.names.Nodup := by
    refine List.pairwise_map.2 (d.exponents.ascending.imp fun hlt heq => ?_)
    exact String.lt_irrefl _ (heq ▸ hlt)
  rw [finprod_eq_prod_of_mulSupport_subset _ (mulSupport_subset weight d),
    List.prod_toFinset _ hnodup, Table.names, List.map_map, factor]
  refine congrArg List.prod (List.map_congr_left fun e he => ?_)
  rw [Function.comp_apply, exponent_of_mem he]

theorem finite_mulSupport (weight : String → ℚ) (d : Dimension) :
    (Function.mulSupport fun u => weight u ^ d.exponent u).Finite :=
  (Finset.finite_toSet _).subset (mulSupport_subset weight d)

@[simp] theorem factor_one : one.factor weight = 1 := rfl

@[simp] theorem factor_base (name : String) : (base name).factor weight = weight name := by
  simp [factor, base, Table.insert, Table.place, Table.empty]

theorem factor_pos (hweight : ∀ u, 0 < weight u) (d : Dimension) : 0 < d.factor weight := by
  refine List.prod_pos fun q hq => ?_
  obtain ⟨e, -, rfl⟩ := List.mem_map.1 hq
  exact zpow_pos (hweight e.1) e.2

theorem factor_mul (hweight : ∀ u, 0 < weight u) {a b d : Dimension} (h : a.mul b = some d) :
    d.factor weight = a.factor weight * b.factor weight := by
  rw [factor_eq, factor_eq, factor_eq,
    ← finprod_mul_distrib (finite_mulSupport weight a) (finite_mulSupport weight b),
    exponent_mul h]
  exact finprod_congr fun u => zpow_add₀ (hweight u).ne' _ _

theorem factor_pow {a d : Dimension} {k : ℕ} (h : a.pow k = some d) :
    d.factor weight = a.factor weight ^ k := by
  rw [factor_eq, factor_eq, finprod_pow (finite_mulSupport weight a), exponent_pow h]
  refine finprod_congr fun u => ?_
  rw [Pi.smul_apply, smul_eq_mul, mul_comm, zpow_mul, zpow_natCast]

end Dimension

/-! ### Values -/

namespace Value

/-- Kinds that differ by a factor in their numbers and in nothing else. -/
inductive Kind.Rescaled (q : ℚ) : Kind → Kind → Prop where
  | number {a b : Decimal} (h : b.toRat = q * a.toRat) : Rescaled q (.number a) (.number b)
  | bool (b : Bool) : Rescaled q (.bool b) (.bool b)
  | function (name : String) : Rescaled q (.function name) (.function name)

/-- Values of one unit that differ by the factor of that unit. -/
structure Rescaled (weight : String → ℚ) (v w : Value) : Prop where
  unit : w.unit = v.unit
  kind : v.kind.Rescaled (v.unit.factor weight) w.kind

variable {weight : String → ℚ} {lhs rhs lhs' rhs' : Value}

/-- The factor `r` of a result, from those of its operands. -/
def Scales (op : Operator) (p q r : ℚ) : Prop :=
  match op with
  | .mul => r = p * q
  | .add | .sub | .mod => p = q ∧ r = p
  | .eq | .ne | .lt | .le | .gt | .ge => p = q
  | .div | .pow => False

theorem operationUnit_scales (hweight : ∀ u, 0 < weight u) {op : Operator} (hdiv : op ≠ .div)
    (hpow : op ≠ .pow) {d : Dimension} (h : operationUnit op lhs rhs = .ok d) :
    Scales op (lhs.unit.factor weight) (rhs.unit.factor weight) (d.factor weight) := by
  cases op with
  | div => exact absurd rfl hdiv
  | pow => exact absurd rfl hpow
  | mul =>
    simp only [operationUnit, orOutOfRange] at h
    split at h
    · rename_i hmul
      cases h
      exact Dimension.factor_mul hweight hmul
    · cases h
  | add | sub | mod =>
    simp only [operationUnit] at h
    split at h
    · rename_i hunit
      cases h
      exact ⟨by rw [hunit], rfl⟩
    · cases h
  | eq | ne | lt | le | gt | ge =>
    simp only [operationUnit] at h
    split at h
    · rename_i hunit
      rw [hunit]
      rfl
    · cases h

theorem limited_rescaled {n n' : Decimal} {r : ℚ} (h : n'.toRat = r * n.toRat) :
    Both (Kind.Rescaled r) (limited n) (limited n') := by
  rw [limited, limited]
  split
  · split
    · exact .ok (.number h)
    · exact .right _ trivial
  · exact .left trivial _

/-- Taking whole multiples away does not depend on the unit. -/
theorem remainder_mul {p : ℚ} (hp : 0 < p) (a b : ℚ) :
    remainder (p * a) (p * b) = p * remainder a b := by
  rw [remainder, remainder, mul_div_mul_left a b hp.ne']
  ring

theorem compare_rescaled {p : ℚ} (hp : 0 < p) {a b a' b' : Decimal} (ha : a'.toRat = p * a.toRat)
    (hb : b'.toRat = p * b.toRat) : a'.compare b' = a.compare b := by
  rw [Decimal.compare_eq, Decimal.compare_eq, ha, hb, cmp_mul_pos_left hp]

theorem numberOperation_rescaled {op : Operator} {p q r : ℚ} (hp : 0 < p)
    (hscales : Scales op p q r) {a b a' b' : Decimal} (ha : a'.toRat = p * a.toRat)
    (hb : b'.toRat = q * b.toRat) (precision : Nat) :
    Both (Kind.Rescaled r) (numberOperation precision op lhs rhs a b)
      (numberOperation precision op lhs' rhs' a' b') := by
  cases op with
  | div | pow => exact hscales.elim
  | mul =>
    refine limited_rescaled ?_
    rw [Decimal.toRat_mul, Decimal.toRat_mul, ha, hb, hscales]
    ring
  | add =>
    obtain ⟨rfl, rfl⟩ := hscales
    refine limited_rescaled ?_
    rw [Decimal.toRat_add, Decimal.toRat_add, ha, hb]
    ring
  | sub =>
    obtain ⟨rfl, rfl⟩ := hscales
    refine limited_rescaled ?_
    rw [Decimal.toRat_sub, Decimal.toRat_sub, ha, hb]
    ring
  | mod =>
    obtain ⟨rfl, rfl⟩ := hscales
    simp only [numberOperation]
    split
    · exact .left trivial _
    · split
      · exact .right _ trivial
      · rename_i hzero hzero'
        refine limited_rescaled ?_
        rw [Decimal.toRat_rem _ (Bool.eq_false_iff.2 hzero),
          Decimal.toRat_rem _ (Bool.eq_false_iff.2 hzero'), ha, hb, remainder_mul hp]
  | eq | ne | lt | le | gt | ge =>
    have hpq : p = q := hscales
    subst hpq
    simp only [numberOperation, compare_rescaled hp ha hb]
    exact .ok (.bool _)

theorem operationKind_rescaled {op : Operator} {p q r : ℚ} (hp : 0 < p)
    (hscales : Scales op p q r) (hlhs : lhs.kind.Rescaled p lhs'.kind)
    (hrhs : rhs.kind.Rescaled q rhs'.kind) (precision : Nat) :
    Both (Kind.Rescaled r) (operationKind precision op lhs rhs)
      (operationKind precision op lhs' rhs') := by
  obtain ⟨lkind, lunit⟩ := lhs
  obtain ⟨rkind, runit⟩ := rhs
  obtain ⟨lkind', lunit'⟩ := lhs'
  obtain ⟨rkind', runit'⟩ := rhs'
  cases hlhs with
  | number ha =>
    cases hrhs with
    | number hb => exact numberOperation_rescaled hp hscales ha hb precision
    | bool | function => exact .left trivial _
  | bool b =>
    cases hrhs with
    | bool c =>
      cases op with
      | eq | ne => exact .ok (.bool _)
      | _ => exact .left trivial _
    | number | function => exact .left trivial _
  | function name =>
    cases hrhs with
    | number | bool | function => exact .left trivial _

/-- The unit is settled first, and is the same for both. -/
theorem operate_both {op : Operator} {precision : Nat}
    (hunit : operationUnit op lhs' rhs' = operationUnit op lhs rhs)
    (hkind : ∀ d, operationUnit op lhs rhs = .ok d → Both (Kind.Rescaled (d.factor weight))
      (operationKind precision op lhs rhs) (operationKind precision op lhs' rhs')) :
    Both (Rescaled weight) (lhs.operate precision op rhs) (lhs'.operate precision op rhs') := by
  have hunits : Both Eq (operationUnit op lhs rhs) (operationUnit op lhs' rhs') := by
    apply related_any.2
    intro d d' hd hd'
    rw [hunit, hd] at hd'
    exact Except.ok.inj hd'
  apply hunits.bind
  rintro d _ hd - rfl
  exact (hkind d hd).bind fun k k' _ _ hk => .ok ⟨rfl, hk⟩

theorem operate_rescaled (hweight : ∀ u, 0 < weight u) {op : Operator} (hdiv : op ≠ .div)
    (hpow : op ≠ .pow) (hlhs : lhs.Rescaled weight lhs') (hrhs : rhs.Rescaled weight rhs')
    (precision : Nat) :
    Both (Rescaled weight) (lhs.operate precision op rhs) (lhs'.operate precision op rhs') := by
  have hunit : operationUnit op lhs' rhs' = operationUnit op lhs rhs := by
    cases op with
    | pow => exact absurd rfl hpow
    | _ => simp only [operationUnit, hlhs.unit, hrhs.unit]
  refine operate_both hunit fun d hd => ?_
  have hscales := operationUnit_scales hweight hdiv hpow hd
  have hp := Dimension.factor_pos hweight lhs.unit
  exact operationKind_rescaled hp hscales hlhs.kind hrhs.kind precision

/-! A power with a literal as its exponent. -/

theorem integerExponent_literal {n : Decimal} {k : ℕ} (hn : n.toRat = k) {e : ℤ}
    (h : integerExponent lhs (.ofDecimal n) = .ok e) : e = k := by
  simp only [integerExponent, ofDecimal] at h
  split at h
  · rename_i hinteger
    split at h
    · cases h
      have hcast : (n.truncate : ℚ) = (k : ℤ) := by
        rw [Decimal.cast_truncate hinteger, hn, Int.cast_natCast]
      exact Int.cast_inj.1 hcast
    · cases h
  · cases h

theorem operationUnit_power {n : Decimal} {k : ℕ} (hn : n.toRat = k) {d : Dimension}
    (h : operationUnit .pow lhs (.ofDecimal n) = .ok d) :
    d.factor weight = lhs.unit.factor weight ^ k := by
  simp only [operationUnit] at h
  split at h
  · cases h
  · split at h
    · rename_i hone
      have hunit : lhs.unit = .one := Dimension.exponent_eq_iff.1 ((Dimension.isOne_iff _).1 hone)
      cases h
      rw [hunit, Dimension.factor_one, one_pow]
    · obtain ⟨e, he, h⟩ := bind_eq_ok.1 h
      rw [integerExponent_literal hn he, orOutOfRange.eq_def] at h
      split at h
      · rename_i hpow
        cases h
        exact Dimension.factor_pow hpow
      · cases h

theorem power_natural {precision : Nat} {base d : Decimal} {k : ℕ}
    (h : power precision base k = .ok d) : d.toRat = base.toRat ^ k := by
  simp only [power, Int.natCast_nonneg, if_true, Int.natAbs_natCast] at h
  split at h
  · cases h
  · cases h
    exact Decimal.toRat_power base k

theorem operationKind_power {n : Decimal} {k : ℕ} (hn : n.toRat = k) {p : ℚ}
    (hlhs : lhs.kind.Rescaled p lhs'.kind) (precision : Nat) :
    Both (Kind.Rescaled (p ^ k)) (operationKind precision .pow lhs (.ofDecimal n))
      (operationKind precision .pow lhs' (.ofDecimal n)) := by
  obtain ⟨lkind, lunit⟩ := lhs
  obtain ⟨lkind', lunit'⟩ := lhs'
  cases hlhs with
  | @number a b ha =>
    apply related_any.2
    intro kind kind' hkind hkind'
    obtain ⟨e, he, hkind⟩ := bind_eq_ok.1 hkind
    obtain ⟨e', he', hkind'⟩ := bind_eq_ok.1 hkind'
    rw [integerExponent_literal hn he] at hkind
    rw [integerExponent_literal hn he'] at hkind'
    obtain ⟨d, hd, hkind⟩ := bind_eq_ok.1 hkind
    obtain ⟨d', hd', hkind'⟩ := bind_eq_ok.1 hkind'
    have hpower : d'.toRat = p ^ k * d.toRat := by
      rw [power_natural hd, power_natural hd', ha, mul_pow]
    exact related_any.1 (limited_rescaled hpower) kind kind' hkind hkind'
  | bool b => exact .left trivial _
  | function name => exact .left trivial _

theorem operate_power_rescaled {n : Decimal} {k : ℕ} (hn : n.toRat = k)
    (hlhs : lhs.Rescaled weight lhs') (precision : Nat) :
    Both (Rescaled weight) (lhs.operate precision .pow (.ofDecimal n))
      (lhs'.operate precision .pow (.ofDecimal n)) := by
  have hunit : operationUnit .pow lhs' (.ofDecimal n) = operationUnit .pow lhs (.ofDecimal n) := by
    simp only [operationUnit, integerExponent, hlhs.unit]
  refine operate_both hunit fun d hd => ?_
  rw [operationUnit_power hn hd]
  exact operationKind_power hn hlhs.kind precision

/-! Signs and prefixes keep the unit. -/

theorem applySign_rescaled {v w : Value} (h : v.Rescaled weight w) (sign : Sign) :
    Both (Rescaled weight) (v.applySign sign) (w.applySign sign) := by
  obtain ⟨kind, unit⟩ := v
  obtain ⟨kind', unit'⟩ := w
  obtain ⟨rfl, hkind⟩ := h
  cases hkind with
  | number hn =>
    cases sign with
    | plus => exact .ok ⟨rfl, .number hn⟩
    | minus =>
      refine .ok ⟨rfl, .number ?_⟩
      rw [Decimal.toRat_neg, Decimal.toRat_neg, hn, mul_neg]
  | bool b => exact .left trivial _
  | function name => exact .left trivial _

theorem applySiPrefix_rescaled {v w : Value} (h : v.Rescaled weight w) (si : SiPrefix) :
    Both (Rescaled weight) (v.applySiPrefix si) (w.applySiPrefix si) := by
  obtain ⟨kind, unit⟩ := v
  obtain ⟨kind', unit'⟩ := w
  obtain ⟨rfl, hkind⟩ := h
  cases hkind with
  | number hn =>
    refine .ok ⟨rfl, .number ?_⟩
    rw [Decimal.toRat_shift, Decimal.toRat_shift, hn, mul_assoc]
  | bool b => exact .left trivial _
  | function name => exact .left trivial _

end Value

/-! ### States -/

mutual
/-- The expression asks for a unit somewhere, by brackets. -/
def Expr.asksUnit : Expr → Bool
  | .number _ _ | .name _ => false
  | .call _ args _ => Expr.asksUnitAny args
  | .signed _ e _ | .paren e _ => e.asksUnit
  | .binary _ l r _ => l.asksUnit || r.asksUnit
  | .unitOf _ _ => true

def Expr.asksUnitAny : List Expr → Bool
  | [] => false
  | e :: es => e.asksUnit || Expr.asksUnitAny es
end

/-- Expressions that neither divide nor ask for a unit, with natural numbers for exponents. -/
structure Expr.Homogeneous (e : Expr) : Prop where
  exact : e.Exact
  asks : e.asksUnit = false

namespace State

/-- The bodies of all functions are homogeneous. -/
def Homogeneous (s : State) : Prop :=
  ∀ name f, s.functions.find? name = some f → f.body.Homogeneous

/-- The factors of the base units, of which those that are not declared stay as they are. -/
def weight (s : State) (k : String → Decimal) (u : String) : ℚ :=
  if s.units.contains u then (k u).toRat else 1

/-- The same state with units of other sizes. No declared unit is a variable of `s`; in `s'` each
declared unit `u` is one, which stands for `k u` of it, and every variable of `s` is restated in its
unit. -/
structure Rescaled (k : String → Decimal) (s s' : State) : Prop where
  positive : ∀ u, s.units.contains u = true → 0 < (k u).toRat
  free : ∀ u, s.units.contains u = true → s.vars.find? u = none
  units : s'.units = s.units
  functions : s'.functions = s.functions
  precision : s'.precision = s.precision
  bound : ∀ u, s.units.contains u = true → s'.vars.find? u = some ⟨.number (k u), .base u⟩
  vars : ∀ name, s.units.contains name = false →
    Option.Rel (Value.Rescaled (s.weight k)) (s.vars.find? name) (s'.vars.find? name)

section

variable {k : String → Decimal} {s s' : State}

theorem Rescaled.weight_pos (h : s.Rescaled k s') (u : String) : 0 < s.weight k u := by
  rw [weight]
  split
  · rename_i hunit
    exact h.positive u hunit
  · exact one_pos

theorem Rescaled.lookup (h : s.Rescaled k s') (name : String) :
    Option.Rel (Value.Rescaled (s.weight k)) (s.lookup name) (s'.lookup name) := by
  rw [State.lookup, State.lookup, h.units, h.functions]
  by_cases hunit : s.units.contains name = true
  · rw [h.free name hunit, h.bound name hunit]
    simp only [hunit, if_true]
    refine .some ⟨rfl, .number ?_⟩
    rw [Value.ofUnit, Dimension.factor_base, weight, if_pos hunit, Decimal.toRat_one, mul_one]
  · have hrel := h.vars name (Bool.eq_false_iff.2 hunit)
    generalize s.vars.find? name = v at hrel
    generalize s'.vars.find? name = v' at hrel
    cases hrel with
    | some hv => exact .some hv
    | none =>
      simp only [if_neg hunit]
      split
      · exact .some ⟨rfl, .function name⟩
      · exact .none

/-- The parameters of two calls are bound to values that are related. -/
def ScopeRescaled (weight : String → ℚ) (scope scope' : Scope) : Prop :=
  ∀ name, Option.Rel (Value.Rescaled weight) (scope.lookup name) (scope'.lookup name)

variable {scope scope' : Scope}

theorem Rescaled.lookupIn (h : s.Rescaled k s')
    (hscope : ScopeRescaled (s.weight k) scope scope') (name : String) :
    Option.Rel (Value.Rescaled (s.weight k)) (s.lookupIn scope name)
      (s'.lookupIn scope' name) := by
  have hparam := hscope name
  rw [State.lookupIn, State.lookupIn]
  generalize scope.lookup name = v at hparam
  generalize scope'.lookup name = v' at hparam
  cases hparam with
  | some hv => exact .some hv
  | none => exact h.lookup name

theorem Rescaled.evalName (h : s.Rescaled k s')
    (hscope : ScopeRescaled (s.weight k) scope scope') (name : String) :
    Both (Value.Rescaled (s.weight k)) (s.evalName scope name) (s'.evalName scope' name) := by
  have hname := h.lookupIn hscope name
  rw [State.evalName, State.evalName]
  generalize s.lookupIn scope name = v at hname
  generalize s'.lookupIn scope' name = v' at hname
  cases hname with
  | some hv => exact .ok hv
  | none =>
    cases SiPrefix.split? name with
    | none => exact .left trivial _
    | some parts =>
      obtain ⟨si, base⟩ := parts
      have hbase := h.lookupIn hscope base
      simp only
      generalize s.lookupIn scope base = v at hbase
      generalize s'.lookupIn scope' base = v' at hbase
      cases hbase with
      | some hv => exact Value.applySiPrefix_rescaled hv si
      | none => exact .left trivial _

/-- Both states call the same function. -/
theorem Rescaled.callableWith (h : s.Rescaled k s') {f f' : Value}
    (hf : f.Rescaled (s.weight k) f') (count : Nat) :
    Both (fun g g' => g' = g ∧ ∃ name, s.functions.find? name = some g) (s.callableWith f count)
      (s'.callableWith f' count) := by
  apply related_any.2
  intro g g' hg hg'
  have hsame : s'.callableWith f' count = s.callableWith f count := by
    obtain ⟨kind, unit⟩ := f
    obtain ⟨kind', unit'⟩ := f'
    obtain ⟨-, hkind⟩ := hf
    cases hkind with
    | number | bool => cases hg
    | function name => simp only [State.callableWith, callable, h.functions]
  rw [hsame, hg] at hg'
  cases hg'
  obtain ⟨-, hname⟩ := callableWith_eq_ok hg
  exact ⟨rfl, hname⟩

theorem Rescaled.called (h : s.Rescaled k s') (hscope : ScopeRescaled (s.weight k) scope scope')
    (callee : Ident) (count : Nat) (span : Span) :
    Both (fun g g' => g' = g ∧ ∃ name, s.functions.find? name = some g)
      (s.called scope callee count span) (s'.called scope' callee count span) := by
  apply ((h.evalName hscope callee.name).locate callee.span).bind
  intro f f' _ _ hf
  exact (h.callableWith hf count).locate span

/-! ### Evaluation -/

theorem asksUnit_of_mem {es : List Expr} (h : Expr.asksUnitAny es = false) :
    ∀ e ∈ es, e.asksUnit = false := by
  induction es with
  | nil => exact List.forall_mem_nil _
  | cons e es ih =>
    rw [Expr.asksUnitAny, Bool.or_eq_false_iff] at h
    exact List.forall_mem_cons.2 ⟨h.1, ih h.2⟩

theorem asksUnit_of_part {e part : Expr} (h : e.asksUnit = false) (hpart : part ∈ e.parts) :
    part.asksUnit = false := by
  cases e with
  | number | name => cases hpart
  | call callee args span => exact asksUnit_of_mem h part hpart
  | signed | paren =>
    rw [List.mem_singleton.1 hpart]
    exact h
  | binary op l r span =>
    rw [Expr.asksUnit, Bool.or_eq_false_iff] at h
    rcases List.mem_cons.1 hpart with rfl | hpart
    · exact h.1
    · rw [List.mem_singleton.1 hpart]
      exact h.2
  | unitOf => cases h

/-- Homogeneous nodes are treated alike in both states. -/
theorem Rescaled.alike (h : s.Rescaled k s') (hs : s.Homogeneous) {depth : Nat}
    (hscope : ScopeRescaled (s.weight k) scope scope')
    (hbody : ∀ inner < depth, ∀ (scope scope' : Scope) (body : Expr),
      ScopeRescaled (s.weight k) scope scope' → body.Homogeneous → Both
        (Value.Rescaled (s.weight k)) (s.evalAt inner scope body) (s'.evalAt inner scope' body)) :
    Alike Expr.Homogeneous .any (Value.Rescaled (s.weight k)) (s.evaluator depth scope)
      (s'.evaluator depth scope') where
  parts e he part hpart := ⟨he.exact.part hpart, asksUnit_of_part he.asks hpart⟩
  number n := .ok ⟨rfl, .number (by rw [Value.ofDecimal, Dimension.factor_one, one_mul])⟩
  name id _ := (h.evalName hscope id.name).locate id.span
  call callee args span _ := by
    apply (h.called hscope callee args.length span).bind
    rintro g _ - - ⟨rfl, name, hname⟩
    cases depth with
    | zero => exact .left trivial _
    | succ depth =>
      refine .ok fun values values' hvalues => ?_
      exact hbody depth depth.lt_succ_self _ _ _ (lookup_bindArguments hvalues _) (hs name _ hname)
  signed sign e span _ v v' hv := (Value.applySign_rescaled hv sign).locate span
  binary op l r span he lhs lhs' rhs rhs' hl hr hx hy := by
    simp only [evaluator, h.precision]
    cases he.exact with
    | @power _ n _ _ _ hn =>
      obtain ⟨m, hn⟩ := hn
      cases (s.evalAt_number depth scope n _).symm.trans hx
      cases (s'.evalAt_number depth scope' n _).symm.trans hy
      exact (Value.operate_power_rescaled hn hl s.precision).locate span
    | binary _ hdiv hpow =>
      exact (Value.operate_rescaled h.weight_pos hdiv hpow hl hr s.precision).locate span
  unitOf e span he := by
    cases he.asks

theorem evalAt_rescaled (h : s.Rescaled k s') (hs : s.Homogeneous) (depth : Nat)
    (hscope : ScopeRescaled (s.weight k) scope scope') {e : Expr} (he : e.Homogeneous) :
    Both (Value.Rescaled (s.weight k)) (s.evalAt depth scope e) (s'.evalAt depth scope' e) := by
  induction depth using Nat.strongRecOn generalizing scope scope' e with
  | ind depth ih =>
    refine (h.alike hs hscope ?_).eval e he
    intro inner hinner _ _ _ hscope he
    exact ih inner hinner hscope he

/-- Dimensional homogeneity: with units of other sizes a homogeneous expression has a value of the
same unit that differs by the factor of that unit and in nothing else. -/
theorem eval_rescaled (h : s.Rescaled k s') (hs : s.Homogeneous) {e : Expr} (he : e.Homogeneous)
    {v v' : Value} (hv : s.eval e = .ok v) (hv' : s'.eval e = .ok v') :
    v.Rescaled (s.weight k) v' := by
  have hscope : ScopeRescaled (s.weight k) [] [] := fun _ => .none
  exact related_any.1 (evalAt_rescaled h hs maxCallDepth hscope he) v v' hv hv'

end

/-- The state of a length `x` of `n` metres, where a metre is now a hundred of what it was. -/
def remeasured (n : Decimal) : State :=
  { measured (n.shift 2) with
    vars := (measured (n.shift 2)).vars.insert "m" ⟨.number 100, .base "m"⟩ }

/-- The expression `x km`. -/
def strip : Expr := .binary .mul (.name ⟨"x", ⟨0, 1⟩⟩) (.name ⟨"km", ⟨2, 4⟩⟩) ⟨0, 4⟩

theorem measured_rescaled (n : Decimal) :
    (measured n).Rescaled (fun _ => 100) (remeasured n) := by
  have hunit : ∀ u, (measured n).units.contains u = true ↔ u = "m" := by
    intro u
    rw [measured, Table.contains, Table.find?_insert]
    split
    · rename_i hu
      exact iff_of_true rfl hu
    · rename_i hu
      exact iff_of_false Bool.false_ne_true hu
  have hhundred : (100 : Decimal).toRat = 100 := Decimal.toRat_ofNat 100
  refine ⟨fun u _ => ?_, fun u hu => ?_, rfl, rfl, rfl, fun u hu => ?_, fun name hname => ?_⟩
  · rw [hhundred]
    norm_num
  · rw [(hunit u).1 hu]
    rfl
  · rw [(hunit u).1 hu, remeasured, Table.find?_insert, if_pos rfl]
  · have hne : name ≠ "m" := fun h => Bool.eq_false_iff.1 hname ((hunit name).2 h)
    simp only [remeasured, measured, Table.find?_insert, if_neg hne]
    split
    · refine .some ⟨rfl, .number ?_⟩
      have hweight : weight (measured n) (fun _ => 100) "m" = 100 := by
        rw [weight, if_pos ((hunit "m").2 rfl), hhundred]
      rw [Decimal.toRat_shift, Dimension.factor_base]
      refine (mul_comm _ _).trans (congrArg (· * n.toRat) ?_)
      exact (by norm_num : (10 : ℚ) ^ (2 : ℤ) = 100).trans hweight.symm
    · exact .none

theorem strip_homogeneous : strip.Homogeneous :=
  ⟨.binary _ nofun nofun (.name _) (.name _), rfl⟩

/-- Three metres by a kilometre. -/
theorem eval_rescaled_strip :
    ∃ v v', (measured 3).eval strip = .ok v ∧ (remeasured 3).eval strip = .ok v' ∧
      v.Rescaled ((measured 3).weight fun _ => 100) v' := by
  have hv : (measured 3).eval strip =
      .ok ⟨.number ⟨3, -3⟩, ⟨Table.empty.insert "m" 2, by decide⟩⟩ := rfl
  have hv' : (remeasured 3).eval strip =
      .ok ⟨.number ⟨300, -5⟩, ⟨Table.empty.insert "m" 2, by decide⟩⟩ := rfl
  have hbodies : (measured 3).Homogeneous := by
    intro name f hf
    cases hf
  exact ⟨_, _, hv, hv', eval_rescaled (measured_rescaled 3) hbodies strip_homogeneous hv hv'⟩

end State

end UnitCalc
