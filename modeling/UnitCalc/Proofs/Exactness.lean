import UnitCalc.Proofs.Ideal
import UnitCalc.Proofs.Steps

/-! Evaluation is exact away from division. An expression without `/`, in which every exponent is
written as a natural number, has the value that the ideal calculator gives it, and fails for the
same reason at the same place, unless a limit stops it first. So a result does not depend on the
pairs of coefficient and scale that its operands are kept as. -/

namespace UnitCalc

/-! ### Agreement -/

namespace ErrorMatch

/-- A fault goes with its counterpart, and one of a limit with everything. -/
def ideal : ErrorMatch Fault Ideal.Fault where
  pair fault fault' := fault.ideal? = some fault'
  left fault := fault.isLimit = true
  right _ := False

/-- An error goes with the counterpart of its fault at the same place. -/
def idealAt : ErrorMatch EvalError Ideal.EvalError where
  pair err err' := err.fault.ideal? = some err'.fault ∧ err.span = err'.span
  left err := err.fault.isLimit = true
  right _ := False

end ErrorMatch

/-- Agreement of calculations, whose errors have no place yet: a value is translated, and an error
has its counterpart unless a limit made it. -/
abbrev Calculated {α α' : Type} (f : α → α') : Except Fault α → Except Ideal.Fault α' → Prop :=
  Related .ideal fun a a' => f a = a'

/-- Agreement of evaluations, with the places of errors. -/
abbrev Evaluated {α α' : Type} (f : α → α') :
    Except EvalError α → Except Ideal.EvalError α' → Prop :=
  Related .idealAt fun a a' => f a = a'

theorem Calculated.locate {α α' : Type} {f : α → α'} {x : Except Fault α}
    {y : Except Ideal.Fault α'} (h : Calculated f x y) (span : Span) :
    Evaluated f (locate span x) (Ideal.locate span y) := by
  cases h with
  | ok h => exact .ok h
  | error h => exact .error ⟨h, rfl⟩
  | @left fault h =>
    have hlimit : ErrorMatch.idealAt.left ⟨fault, span⟩ := h
    exact .left hlimit _
  | right _ h => exact h.elim

theorem Evaluated.value {α α' : Type} {f : α → α'} {x : Except EvalError α}
    {y : Except Ideal.EvalError α'} {a : α} (h : Evaluated f x y) (hx : x = .ok a) :
    y = .ok (f a) := by
  subst hx
  cases h with
  | ok h => rw [h]
  | right _ h => exact h.elim

theorem Evaluated.fault {α α' : Type} {f : α → α'} {x : Except EvalError α}
    {y : Except Ideal.EvalError α'} {err : EvalError} (h : Evaluated f x y) (hx : x = .error err)
    (hlimit : err.fault.isLimit = false) :
    ∃ fault, err.fault.ideal? = some fault ∧ y = .error ⟨fault, err.span⟩ := by
  subst hx
  cases h with
  | @error _ err' h => exact ⟨err'.fault, h.1, by rw [h.2]⟩
  | left h => exact absurd h (Bool.eq_false_iff.1 hlimit)
  | right _ h => exact h.elim

/-! ### Units -/

namespace Dimension

theorem exponent_eq_iff {a b : Dimension} : a.exponent = b.exponent ↔ a = b :=
  ⟨fun h => ext_exponent (congrFun h), fun h => by rw [h]⟩

theorem isOne_iff (d : Dimension) : d.isOne = true ↔ d.exponent = 0 := by
  have hzero : one.exponent = 0 := rfl
  rw [← hzero, exponent_eq_iff]
  constructor
  · intro h
    obtain ⟨⟨es, hes⟩, hadmissible⟩ := d
    have : es = [] := List.isEmpty_iff.1 h
    subst this
    rfl
  · rintro rfl
    rfl

/-- Raising the exponents one after the other adds to each what belongs to it. -/
theorem exponent_foldlM {f : Int → Int} {es : List (String × Int)}
    (hes : es.Pairwise fun a b => a.1 < b.1) {a d : Dimension}
    (h : es.foldlM (fun d e => d.raise e.1 (f e.2)) a = some d) (name : String) :
    d.exponent name = a.exponent name + ((es.lookup name).map f).getD 0 := by
  induction es generalizing a with
  | nil =>
    cases h
    simp
  | cons e es ih =>
    obtain ⟨hfirst, hrest⟩ := List.pairwise_cons.1 hes
    rw [List.foldlM_cons] at h
    obtain ⟨a', ha', h⟩ := Option.bind_eq_some_iff.1 h
    rw [ih hrest h, exponent_raise ha', Table.lookup_cons]
    by_cases hname : name = e.1
    · have hnone : es.lookup name = none := Table.lookup_eq_none (hname ▸ hfirst)
      simp [hname ▸ hnone, hname]
    · simp only [if_neg hname]

theorem exponent_mul {a b d : Dimension} (h : a.mul b = some d) :
    d.exponent = a.exponent + b.exponent := by
  funext name
  have hmap : ((b.exponents.entries.lookup name).map id).getD 0 = b.exponent name := by
    rw [Option.map_id, id]
    rfl
  rw [exponent_foldlM (f := id) b.exponents.ascending h, hmap]
  rfl

theorem exponent_pow {a d : Dimension} {k : Int} (h : a.pow k = some d) :
    d.exponent = k • a.exponent := by
  funext name
  rw [exponent_foldlM (f := (· * k)) a.exponents.ascending h, exponent_one, zero_add,
    Pi.smul_apply, zsmul_eq_mul, Int.cast_id, exponent, Table.find?]
  cases a.exponents.entries.lookup name with
  | none => simp
  | some e => simp [mul_comm]

end Dimension

/-! ### Operations -/

namespace Value

theorem orOutOfRange_agrees {d : Option Dimension} {x : Ideal.Exponents}
    (h : ∀ d', d = some d' → d'.exponent = x) :
    Calculated Dimension.exponent (orOutOfRange d) (.ok x) := by
  cases d with
  | none => exact .left rfl _
  | some d => exact .ok (h d rfl)

theorem limited_agrees (n : Decimal) :
    Calculated Kind.ideal (limited n) (.ok (.number n.toRat)) := by
  rw [limited]
  split
  · exact .ok rfl
  · exact .left rfl _

/-- An exponent is an integer for the one calculator if it is for the other. -/
theorem integerExponent_agrees (lhs rhs : Value) :
    Calculated id (integerExponent lhs rhs) (lhs.ideal.integerExponent rhs.ideal) := by
  obtain ⟨kind, unit⟩ := rhs
  cases kind with
  | number n =>
    simp only [integerExponent, Ideal.Value.integerExponent, ideal, Kind.ideal]
    by_cases hinteger : n.isInteger = true
    · have hvalue := Decimal.cast_truncate hinteger
      rw [if_pos hinteger, ← hvalue, if_pos (Rat.den_intCast _), Rat.num_intCast]
      split
      · exact .ok rfl
      · exact .left rfl _
    · have hden : n.toRat.den ≠ 1 := by
        intro hden
        have hnum : n.toRat = n.toRat.num := (Rat.coe_int_num_of_den_eq_one hden).symm
        exact hinteger (Decimal.isInteger_of_toRat_eq hnum)
      rw [if_neg hinteger, if_neg hden]
      exact .error rfl
  | bool b => exact .error rfl
  | function name => exact .error rfl

/-- The units of equal dimensions agree, and so do the faults of different ones. -/
theorem sameUnit_agrees (op : Operator) (lhs rhs : Value) (unit : Dimension) :
    Calculated Dimension.exponent
      (if lhs.unit = rhs.unit then .ok unit else .error (.incompatibleUnits op lhs.unit rhs.unit))
      (open Classical in if lhs.ideal.unit = rhs.ideal.unit then .ok unit.exponent
        else .error (.incompatibleUnits op lhs.ideal.unit rhs.ideal.unit)) := by
  have hunit : lhs.ideal.unit = rhs.ideal.unit ↔ lhs.unit = rhs.unit := Dimension.exponent_eq_iff
  by_cases h : lhs.unit = rhs.unit
  · rw [if_pos h, if_pos (hunit.2 h)]
    exact .ok rfl
  · rw [if_neg h, if_neg (mt hunit.1 h)]
    exact .error rfl

theorem unit_isOne_iff (v : Value) : v.unit.isOne = true ↔ v.ideal.unit = 0 :=
  v.unit.isOne_iff

theorem operationUnit_agrees {op : Operator} (hop : op ≠ .div) (lhs rhs : Value) :
    Calculated Dimension.exponent (operationUnit op lhs rhs)
      (lhs.ideal.operationUnit op rhs.ideal) := by
  cases op with
  | div => exact absurd rfl hop
  | mul => exact orOutOfRange_agrees fun d h => Dimension.exponent_mul h
  | add | sub | mod => exact sameUnit_agrees _ lhs rhs lhs.unit
  | eq | ne | lt | le | gt | ge => exact sameUnit_agrees _ lhs rhs .one
  | pow =>
    simp only [operationUnit, Ideal.Value.operationUnit]
    by_cases hr : rhs.unit.isOne = true
    · have hr' : rhs.ideal.unit = 0 := (unit_isOne_iff rhs).1 hr
      have hnot : ¬ (!rhs.unit.isOne) = true := by simp [hr]
      rw [if_neg hnot, if_neg (not_not.2 hr')]
      by_cases hl : lhs.unit.isOne = true
      · rw [if_pos hl, if_pos ((unit_isOne_iff lhs).1 hl)]
        exact .ok rfl
      · rw [if_neg hl, if_neg (mt (unit_isOne_iff lhs).2 hl)]
        apply (integerExponent_agrees lhs rhs).bind
        rintro k _ - - rfl
        exact orOutOfRange_agrees fun d h => Dimension.exponent_pow h
    · have hr' : rhs.ideal.unit ≠ 0 := mt (unit_isOne_iff rhs).2 hr
      have hnot : (!rhs.unit.isOne) = true := by simpa using hr
      rw [if_pos hnot, if_pos hr']
      exact .error rfl

/-- A power with a natural exponent is exact. -/
theorem power_agrees (precision : Nat) (base : Decimal) (k : Nat) :
    Calculated Decimal.toRat (power precision base k) (.ok (base.toRat ^ (k : ℤ))) := by
  simp only [power]
  split
  · exact .left rfl _
  · rw [if_pos (Int.natCast_nonneg k), Int.natAbs_natCast]
    have hpower : base.toRat ^ (k : ℤ) = (base.power k).toRat := by
      rw [zpow_natCast, Decimal.toRat_power]
    rw [hpower]
    exact .ok rfl

theorem numberOperation_agrees (precision : Nat) {op : Operator} (hop : op ≠ .div)
    (lhs rhs : Value) (a b : Decimal) (hrhs : rhs.kind = .number b)
    (hpow : op = .pow → ∃ k : ℕ, b.toRat = k) :
    Calculated Kind.ideal (numberOperation precision op lhs rhs a b)
      (lhs.ideal.numberOperation op rhs.ideal a.toRat b.toRat) := by
  cases op with
  | div => exact absurd rfl hop
  | add =>
    simp only [numberOperation, Ideal.Value.numberOperation, ← Decimal.toRat_add]
    exact limited_agrees _
  | sub =>
    simp only [numberOperation, Ideal.Value.numberOperation, ← Decimal.toRat_sub]
    exact limited_agrees _
  | mul =>
    simp only [numberOperation, Ideal.Value.numberOperation, ← Decimal.toRat_mul]
    exact limited_agrees _
  | mod =>
    simp only [numberOperation, Ideal.Value.numberOperation]
    by_cases hzero : b.isZero = true
    · rw [if_pos hzero, if_pos ((b.isZero_iff).1 hzero)]
      exact .error rfl
    · rw [if_neg hzero, if_neg (mt (b.isZero_iff).2 hzero),
        ← Decimal.toRat_rem a (Bool.eq_false_iff.2 hzero)]
      exact limited_agrees _
  | pow =>
    obtain ⟨k, hk⟩ := hpow rfl
    have hideal : rhs.ideal.kind = .number (k : ℚ) := by rw [ideal, hrhs, Kind.ideal, hk]
    have hexponent : lhs.ideal.integerExponent rhs.ideal = .ok (k : ℤ) := by
      rw [Ideal.Value.integerExponent, hideal]
      exact if_pos (Rat.den_natCast k)
    simp only [numberOperation, Ideal.Value.numberOperation]
    apply (integerExponent_agrees lhs rhs).bind
    -- The exponent is the natural number that is written.
    rintro e _ - he rfl
    obtain rfl : e = k := Except.ok.inj (he.symm.trans hexponent)
    have hnonneg : ¬ (a.toRat = 0 ∧ (k : ℤ) < 0) := by
      rintro ⟨-, hneg⟩
      exact absurd hneg (by simp)
    rw [id, if_neg hnonneg]
    have hlimited : Calculated Kind.ideal ((power precision a k).bind limited)
        ((Except.ok (a.toRat ^ (k : ℤ)) : Except Ideal.Fault ℚ).bind
          fun q => .ok (.number q)) := by
      apply (power_agrees precision a k).bind
      rintro n _ - - rfl
      exact limited_agrees n
    exact hlimited
  | eq | ne | lt | le | gt | ge =>
    refine .ok (congrArg Ideal.Kind.bool (decide_eq_decide.2 ?_))
    simp [Decimal.compare_eq_eq_iff, Decimal.compare_eq_lt_iff, Decimal.compare_eq_gt_iff]

theorem operationKind_agrees (precision : Nat) {op : Operator} (hop : op ≠ .div) (lhs rhs : Value)
    (hpow : op = .pow → ∃ k : ℕ, rhs.kind.ideal = .number k) :
    Calculated Kind.ideal (operationKind precision op lhs rhs)
      (lhs.ideal.operationKind op rhs.ideal) := by
  obtain ⟨lkind, lunit⟩ := lhs
  obtain ⟨rkind, runit⟩ := rhs
  cases lkind with
  | number a =>
    cases rkind with
    | number b =>
      refine numberOperation_agrees precision hop ⟨.number a, lunit⟩ ⟨.number b, runit⟩ a b rfl ?_
      intro hp
      obtain ⟨k, hk⟩ := hpow hp
      exact ⟨k, Ideal.Kind.number.inj hk⟩
    | bool b => exact .error rfl
    | function g => exact .error rfl
  | bool a =>
    cases rkind with
    | number b => exact .error rfl
    | bool b =>
      cases op with
      | eq | ne => exact .ok rfl
      | _ => exact .error rfl
    | function g => exact .error rfl
  | function f =>
    cases rkind with
    | number b => exact .error rfl
    | bool b => exact .error rfl
    | function g => exact .error rfl

theorem operate_agrees (precision : Nat) {op : Operator} (hop : op ≠ .div) (lhs rhs : Value)
    (hpow : op = .pow → ∃ k : ℕ, rhs.kind.ideal = .number k) :
    Calculated ideal (lhs.operate precision op rhs) (lhs.ideal.operate op rhs.ideal) := by
  apply (operationUnit_agrees hop lhs rhs).bind
  rintro unit _ - - rfl
  apply (operationKind_agrees precision hop lhs rhs hpow).bind
  rintro kind _ - - rfl
  exact .ok rfl

theorem applySign_agrees (sign : Sign) (v : Value) :
    Calculated ideal (v.applySign sign) (v.ideal.applySign sign) := by
  obtain ⟨kind, unit⟩ := v
  cases kind with
  | number n =>
    cases sign with
    | plus => exact .ok rfl
    | minus =>
      simp only [applySign, Ideal.Value.applySign, ideal, Kind.ideal, ← Decimal.toRat_neg]
      exact .ok rfl
  | bool b => exact .error rfl
  | function name => exact .error rfl

theorem applySiPrefix_agrees (si : SiPrefix) (v : Value) :
    Calculated ideal (v.applySiPrefix si) (v.ideal.applySiPrefix si) := by
  obtain ⟨kind, unit⟩ := v
  cases kind with
  | number n =>
    simp only [applySiPrefix, Ideal.Value.applySiPrefix, ideal, Kind.ideal, ← Decimal.toRat_shift]
    exact .ok rfl
  | bool b => exact .error rfl
  | function name => exact .error rfl

end Value

/-! ### Names and calls -/

namespace State

/-- A scope with the counterparts of its values. -/
def Scope.ideal (scope : Scope) : Ideal.State.Scope := scope.map fun p => (p.1, p.2.ideal)

theorem Scope.lookup_ideal (scope : Scope) (name : String) :
    List.lookup name scope.ideal = (List.lookup name scope).map Value.ideal := by
  induction scope with
  | nil => rfl
  | cons p scope ih =>
    rw [Table.lookup_cons, ideal, List.map_cons, Table.lookup_cons]
    by_cases h : name = p.1
    · simp [h]
    · rw [if_neg h, if_neg h]
      exact ih

theorem Scope.ideal_bindArguments (params : List String) (values : List Value) :
    Scope.ideal (bindArguments params values) =
      bindArguments params (values.map Value.ideal) := by
  rw [bindArguments, bindArguments, List.zip_map_right, ← List.map_reverse]
  rfl

theorem ofUnit_ideal (name : String) :
    (Value.ofUnit name).ideal = ⟨.number 1, Pi.single name 1⟩ := by
  have hunit : (Dimension.base name).exponent = Pi.single name 1 := by
    funext other
    rw [Dimension.exponent_base, Pi.single_apply]
  simp only [Value.ofUnit, Value.ideal, Value.Kind.ideal, Decimal.toRat_one, hunit]

theorem lookupIn_ideal (s : State) (scope : Scope) (name : String) :
    s.ideal.lookupIn scope.ideal name = (s.lookupIn scope name).map Value.ideal := by
  rw [Ideal.State.lookupIn, Scope.lookup_ideal, lookupIn]
  cases List.lookup name scope with
  | some v => rfl
  | none =>
    have hvars : s.ideal.vars name = (s.vars.find? name).map Value.ideal := rfl
    rw [hvars, Option.none_or, lookup]
    cases s.vars.find? name with
    | some v => rfl
    | none =>
      simp only [Option.map_none]
      have hunits : s.ideal.units name = s.units.contains name := rfl
      rw [hunits]
      by_cases hunit : s.units.contains name = true
      · rw [if_pos hunit, if_pos hunit, Option.map_some, ofUnit_ideal]
      · rw [if_neg hunit, if_neg hunit, Table.contains]
        have hfunctions :
            s.ideal.functions name = (s.functions.find? name).map Function.ideal := rfl
        rw [hfunctions]
        cases s.functions.find? name with
        | none => rfl
        | some f => rfl

theorem evalName_agrees (s : State) (scope : Scope) (name : String) :
    Calculated Value.ideal (s.evalName scope name) (s.ideal.evalName scope.ideal name) := by
  rw [evalName, Ideal.State.evalName, lookupIn_ideal]
  cases s.lookupIn scope name with
  | some v => exact .ok rfl
  | none =>
    simp only [Option.map_none]
    cases SiPrefix.split? name with
    | none => exact .error rfl
    | some p =>
      obtain ⟨si, base⟩ := p
      simp only [lookupIn_ideal]
      cases s.lookupIn scope base with
      | some v => exact v.applySiPrefix_agrees si
      | none => exact .error rfl

theorem callableWith_agrees (s : State) (callee : Value) (count : Nat) :
    Calculated Function.ideal (s.callableWith callee count)
      (s.ideal.callableWith callee.ideal count) := by
  obtain ⟨kind, unit⟩ := callee
  cases kind with
  | number n => exact .error rfl
  | bool b => exact .error rfl
  | function name =>
    have hfunctions : s.ideal.functions name = (s.functions.find? name).map Function.ideal := rfl
    simp only [callableWith, callable, Ideal.State.callableWith, Value.ideal, Value.Kind.ideal,
      hfunctions]
    cases s.functions.find? name with
    | none => exact .error rfl
    | some f =>
      show Calculated Function.ideal
        (if f.params.length = count then .ok f
          else .error (.arityMismatch name f.params.length count))
        (if f.params.length = count then .ok f.ideal
          else .error (.arityMismatch name f.params.length count))
      split
      · exact .ok rfl
      · exact .error rfl

theorem called_agrees (s : State) (scope : Scope) (callee : Ident) (count : Nat)
    (span : Span) :
    Evaluated Function.ideal (s.called scope callee count span)
      (s.ideal.called scope.ideal callee count span) := by
  apply ((s.evalName_agrees scope callee.name).locate callee.span).bind
  rintro f _ - - rfl
  exact (s.callableWith_agrees f count).locate span

end State

/-! ### Evaluation -/

/-- Expressions without division, in which every exponent is written as a natural number. -/
inductive Expr.Exact : Expr → Prop where
  | number (n : Decimal) (span : Span) : Exact (.number n span)
  | name (id : Ident) : Exact (.name id)
  | call (callee : Ident) {args : List Expr} (span : Span) (hargs : ∀ e ∈ args, e.Exact) :
      Exact (.call callee args span)
  | signed (sign : Sign) {e : Expr} (span : Span) (he : e.Exact) : Exact (.signed sign e span)
  | power {base : Expr} {n : Decimal} (literal span : Span) (hbase : base.Exact)
      (hn : ∃ k : ℕ, n.toRat = k) : Exact (.binary .pow base (.number n literal) span)
  | binary {op : Operator} {l r : Expr} (span : Span) (hdiv : op ≠ .div) (hpow : op ≠ .pow)
      (hl : l.Exact) (hr : r.Exact) : Exact (.binary op l r span)
  | unitOf {e : Expr} (span : Span) (he : e.Exact) : Exact (.unitOf e span)
  | paren {e : Expr} (span : Span) (he : e.Exact) : Exact (.paren e span)

theorem Expr.Exact.part {e part : Expr} (h : e.Exact) (hpart : part ∈ e.parts) : part.Exact := by
  cases h with
  | number | name => cases hpart
  | call callee span hargs => exact hargs part hpart
  | signed sign span he | unitOf span he | paren span he =>
    rw [List.mem_singleton.1 hpart]
    exact he
  | @power base n literal span hbase hn =>
    rcases List.mem_cons.1 hpart with rfl | hpart
    · exact hbase
    · rw [List.mem_singleton.1 hpart]
      exact .number n literal
  | binary span hdiv hpow hl hr =>
    rcases List.mem_cons.1 hpart with rfl | hpart
    · exact hl
    · rw [List.mem_singleton.1 hpart]
      exact hr

/-- Lists of values and of their counterparts. -/
theorem forall₂_ideal {vs : List Value} {vs' : List Ideal.Value} :
    List.Forall₂ (fun v v' => v.ideal = v') vs vs' ↔ vs.map Value.ideal = vs' := by
  rw [← List.forall₂_eq_eq_eq, List.forall₂_map_left_iff]

namespace State

/-- The bodies of all functions are exact. -/
def Exact (s : State) : Prop := ∀ name f, s.functions.find? name = some f → f.body.Exact

/-- The ideal calculator treats exact nodes alike. -/
theorem Exact.alike {s : State} (hs : s.Exact) {depth : Nat} (scope : Scope)
    (hbody : ∀ inner < depth, ∀ (scope : Scope) (body : Expr), body.Exact → Evaluated Value.ideal
      (s.evalAt inner scope body) (s.ideal.evalAt inner scope.ideal body.ideal)) :
    Alike Expr.Exact .idealAt (fun v v' => v.ideal = v') (s.evaluator depth scope)
      (s.ideal.evaluator depth scope.ideal) where
  parts e he part hpart := he.part hpart
  number n := .ok rfl
  name id _ := (s.evalName_agrees scope id.name).locate id.span
  call callee args span _ := by
    apply (s.called_agrees scope callee args.length span).bind
    rintro g _ hg - rfl
    cases depth with
    | zero => exact .error ⟨rfl, rfl⟩
    | succ depth =>
      refine .ok fun values values' hvalues => ?_
      obtain ⟨name, hname⟩ := called_eq_ok hg
      have hagrees := hbody depth depth.lt_succ_self (bindArguments g.params values) g.body
        (hs name g hname)
      rw [Scope.ideal_bindArguments, forall₂_ideal.1 hvalues] at hagrees
      exact hagrees
  signed sign e span _ := by
    rintro v _ rfl
    exact (v.applySign_agrees sign).locate span
  binary op l r span he := by
    rintro lhs _ rhs _ rfl rfl hr -
    cases he with
    | @power _ n _ _ _ hn =>
      have hrhs := (s.evalAt_number depth scope n _).symm.trans hr
      cases hrhs
      have hexponent : ∃ k : ℕ, (Value.ofDecimal n).kind.ideal = .number k := by
        obtain ⟨k, hk⟩ := hn
        exact ⟨k, congrArg Ideal.Kind.number hk⟩
      have hdiv : Operator.pow ≠ .div := nofun
      exact (lhs.operate_agrees s.precision hdiv _ fun _ => hexponent).locate span
    | binary _ hdiv hpow =>
      exact (lhs.operate_agrees s.precision hdiv rhs fun hp => absurd hp hpow).locate span
  unitOf e span _ := by
    rintro v _ rfl
    have hone : (⟨.number 1, v.unit⟩ : Value).ideal = ⟨.number 1, v.ideal.unit⟩ := by
      rw [Value.ideal, Value.Kind.ideal, Decimal.toRat_one]
      rfl
    exact .ok hone

theorem evalAt_agrees {s : State} (hs : s.Exact) (depth : Nat) (scope : Scope) {e : Expr}
    (he : e.Exact) :
    Evaluated Value.ideal (s.evalAt depth scope e)
      (s.ideal.evalAt depth scope.ideal e.ideal) := by
  induction depth using Nat.strongRecOn generalizing scope e with
  | ind depth ih =>
    exact (hs.alike scope fun inner hinner scope _ hbody => ih inner hinner scope hbody).eval e he

theorem eval_agrees {s : State} (hs : s.Exact) {e : Expr} (he : e.Exact) :
    Evaluated Value.ideal (s.eval e) (s.ideal.eval e.ideal) :=
  evalAt_agrees hs maxCallDepth [] he

/-- In a state whose functions are exact, an exact expression has its ideal value, and an error that
no limit made is the ideal error. Expressions that differ in the pairs alone that their numbers are
kept as, in states that differ in those alone, have values that are the same. -/
theorem eval_exact {s : State} (hs : s.Exact) {e : Expr} (he : e.Exact) :
    (∀ v, s.eval e = .ok v → s.ideal.eval e.ideal = .ok v.ideal) ∧
      (∀ err, s.eval e = .error err → err.fault.isLimit = false →
        ∃ fault, err.fault.ideal? = some fault ∧
          s.ideal.eval e.ideal = .error ⟨fault, err.span⟩) ∧
      ∀ (s' : State) (e' : Expr), s'.Exact → e'.Exact → s'.ideal = s.ideal → e'.ideal = e.ideal →
        ∀ v v', s.eval e = .ok v → s'.eval e' = .ok v' → v.same v' = true := by
  have hagrees := eval_agrees hs he
  refine ⟨fun v => hagrees.value, fun err => hagrees.fault, ?_⟩
  intro s' e' hs' he' hstate hexpr v v' hv hv'
  have hideal := hagrees.value hv
  have hideal' := (eval_agrees hs' he').value hv'
  rw [hstate, hexpr, hideal] at hideal'
  exact (Value.same_iff_ideal_eq v v').2 (Except.ok.inj hideal')

/-- The state in which `x` is a length, kept as the given pair. -/
def measured (n : Decimal) : State :=
  { initial 50 with
    units := Table.empty.insert "m" ()
    vars := Table.empty.insert "x" ⟨.number n, .base "m"⟩ }

/-- The expression `x^3`. -/
def cube : Expr := .binary .pow (.name ⟨"x", ⟨0, 1⟩⟩) (.number 3 ⟨2, 3⟩) ⟨0, 3⟩

theorem eval_cube :
    (measured ⟨150, 2⟩).eval cube =
      .ok ⟨.number ⟨337500, 5⟩, ⟨Table.empty.insert "m" 3, by decide⟩⟩ := by
  have hpower : (⟨150, 2⟩ : Decimal).power (3 : ℤ).natAbs = ⟨337500, 5⟩ := by
    rw [Decimal.power, Decimal.powerLoop, dif_neg (by decide), Decimal.powerLoop]
    decide
  have hsmall : ¬ Decimal.maxExtent < (⟨150, 2⟩ : Decimal).extent * (3 : ℤ).natAbs := by decide
  have hexact : Value.power 50 ⟨150, 2⟩ 3 = .ok ⟨337500, 5⟩ := by
    rw [Value.power, if_neg hsmall, hpower]
    rfl
  have heval : (measured ⟨150, 2⟩).eval cube = locate ⟨0, 3⟩
      ((Value.power 50 ⟨150, 2⟩ 3).bind fun n => (Value.limited n).bind fun kind =>
        .ok ⟨kind, ⟨Table.empty.insert "m" 3, by decide⟩⟩) := rfl
  rw [heval, hexact]
  rfl

theorem measured_exact (n : Decimal) : (measured n).Exact := by
  intro name f hf
  cases hf

theorem cube_exact : cube.Exact :=
  .power _ _ (.name _) ⟨3, Decimal.toRat_ofNat 3⟩

theorem measured_ideal {a b : Decimal} (h : a.toRat = b.toRat) :
    (measured a).ideal = (measured b).ideal := by
  have hvars : (measured a).ideal.vars = (measured b).ideal.vars := by
    funext name
    simp only [ideal, measured, Table.find?_insert]
    split
    · simp only [Option.map_some, Value.ideal, Value.Kind.ideal, h]
    · rfl
  simp only [ideal, measured] at hvars ⊢
  rw [hvars]

/-- The cube of 1.50 m is exact, and does not depend on the zero. -/
theorem eval_exact_cube :
    ∃ v, (measured ⟨150, 2⟩).eval cube = .ok v ∧
      (measured ⟨150, 2⟩).ideal.eval cube.ideal = .ok v.ideal ∧
      ∀ v', (measured ⟨15, 1⟩).eval cube = .ok v' → v.same v' = true := by
  obtain ⟨hvalue, -, hsame⟩ := eval_exact (measured_exact ⟨150, 2⟩) cube_exact
  have hpairs : (⟨15, 1⟩ : Decimal).toRat = (⟨150, 2⟩ : Decimal).toRat := by
    norm_num [Decimal.toRat]
  refine ⟨_, eval_cube, hvalue _ eval_cube, fun v' => ?_⟩
  exact hsame _ cube (measured_exact _) cube_exact (measured_ideal hpairs) rfl _ v' eval_cube

end State

end UnitCalc
