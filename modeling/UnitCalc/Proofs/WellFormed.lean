import UnitCalc.Proofs.NumberFlow

/-! Well-formed values. The base units of a value are declared and no variable hides them, truth
values and functions have no unit, and the function that a value names exists. If the variables of
a state are well-formed, so is every value that evaluation works with, parameters and the values of
function bodies included, and a call never looks for a function that is not there. The units of a
sum, a remainder or a comparison are called incompatible only if they differ. -/

namespace UnitCalc

/-! ### Base units of a dimension -/

namespace Dimension

variable {P : String → Prop}

/-- All base units that occur have a property. -/
def Over (P : String → Prop) (d : Dimension) : Prop := ∀ e ∈ d.exponents.entries, P e.1

theorem over_one : one.Over P := by
  intro e he
  cases he

theorem over_base {name : String} (h : P name) : (base name).Over P := by
  intro e he
  rcases Table.mem_place he with rfl | he
  · exact h
  · cases he

theorem Over.mono {Q : String → Prop} {d : Dimension} (h : d.Over P)
    (hPQ : ∀ name, P name → Q name) : d.Over Q :=
  fun e he => hPQ e.1 (h e he)

theorem Over.raise {d d' : Dimension} {name : String} {k : Int} (hd : d.Over P) (hname : P name)
    (h : d.raise name k = some d') : d'.Over P := by
  rw [Dimension.raise] at h
  split at h
  · cases h
    exact fun e he => hd e (List.mem_filter.1 he).1
  · split at h
    · cases h
      intro e he
      rcases Table.mem_place he with rfl | he
      · exact hname
      · exact hd e he
    · cases h

/-- What every step keeps is kept by the whole fold. -/
theorem Over.foldlM {α : Type} {step : Dimension → α → Option Dimension} {as : List α}
    (hstep : ∀ a ∈ as, ∀ d d' : Dimension, d.Over P → step d a = some d' → d'.Over P)
    {d d' : Dimension} (hd : d.Over P) (h : as.foldlM step d = some d') : d'.Over P := by
  induction as generalizing d with
  | nil =>
    cases h
    exact hd
  | cons a as ih =>
    rw [List.foldlM_cons] at h
    obtain ⟨d₁, hd₁, h⟩ := Option.bind_eq_some_iff.1 h
    refine ih (fun b hb => hstep b (List.mem_cons_of_mem a hb)) ?_ h
    exact hstep a List.mem_cons_self d d₁ hd hd₁

theorem Over.mul {a b d : Dimension} (ha : a.Over P) (hb : b.Over P) (h : a.mul b = some d) :
    d.Over P :=
  ha.foldlM (fun e he _ _ hd => hd.raise (hb e he)) h

theorem Over.div {a b d : Dimension} (ha : a.Over P) (hb : b.Over P) (h : a.div b = some d) :
    d.Over P := by
  refine ha.foldlM (fun e he d₁ d₂ hd hstep => ?_) h
  split at hstep
  · exact hd.raise (hb e he) hstep
  · cases hstep

theorem Over.pow {a d : Dimension} {k : Int} (ha : a.Over P) (h : a.pow k = some d) : d.Over P :=
  over_one.foldlM (fun e he _ _ hd => hd.raise (ha e he)) h

end Dimension

/-! ### Operations -/

/-- A fault that only a declaration can have: its name is taken. -/
def Fault.declares : Fault → Bool
  | unitRedeclared _ | variableRedefined _ | functionRedefined _ => true
  | _ => false

namespace Value

/-- A fault in a calculation with base units that have a property. It is none of declarations, and
units are called incompatible only if they differ, unless one of them is the unit of an exponent. -/
def Calculates (P : String → Prop) : Fault → Prop
  | .incompatibleUnits op l r => (l.Over P ∧ r.Over P) ∧ (op ≠ .pow → l ≠ r)
  | f => f.declares = false

variable {P : String → Prop}

theorem integerExponent_meets (lhs rhs : Value) :
    Meets (fun _ => True) (Calculates P) (integerExponent lhs rhs) := by
  rw [integerExponent]
  split
  · split
    · split <;> trivial
    · rfl
  · rfl

theorem orOutOfRange_meets {R : Dimension → Prop} {d : Option Dimension}
    (h : ∀ d', d = some d' → R d') : Meets R (Calculates P) (orOutOfRange d) := by
  cases d with
  | none => rfl
  | some d => exact h d rfl

/-- The base units of a result are those of the operands, and a comparison has none. -/
theorem operationUnit_meets (op : Operator) {lhs rhs : Value} (hl : lhs.unit.Over P)
    (hr : rhs.unit.Over P) :
    Meets (fun d => d.Over P ∧ (op.isComparison = true → d = .one)) (Calculates P)
      (operationUnit op lhs rhs) := by
  cases op with
  | mul => exact orOutOfRange_meets fun d h => ⟨hl.mul hr h, nofun⟩
  | div => exact orOutOfRange_meets fun d h => ⟨hl.div hr h, nofun⟩
  | add | sub | mod =>
    simp only [operationUnit]
    split
    · exact ⟨hl, nofun⟩
    · rename_i hne
      exact ⟨⟨hl, hr⟩, fun _ => hne⟩
  | pow =>
    simp only [operationUnit]
    split
    · exact ⟨⟨hl, hr⟩, fun hpow => absurd rfl hpow⟩
    · split
      · exact ⟨Dimension.over_one, nofun⟩
      · refine (integerExponent_meets lhs rhs).bind fun e _ => ?_
        exact orOutOfRange_meets fun d h => ⟨hl.pow h, nofun⟩
  | eq | ne | lt | le | gt | ge =>
    simp only [operationUnit]
    split
    · exact ⟨Dimension.over_one, fun _ => rfl⟩
    · rename_i hne
      exact ⟨⟨hl, hr⟩, fun _ => hne⟩

/-- An operation gives a number, or a truth value if it compares. -/
def Kind.ResultOf (op : Operator) : Kind → Prop
  | .number _ => True
  | .bool _ => op.isComparison = true
  | .function _ => False

theorem limited_meets (op : Operator) (n : Decimal) :
    Meets (Kind.ResultOf op) (Calculates P) (limited n) := by
  rw [limited]
  split
  · trivial
  · rfl

theorem power_meets (precision : Nat) (base : Decimal) (e : Int) :
    Meets (fun _ => True) (Calculates P) (power precision base e) := by
  simp only [power]
  split
  · rfl
  · split
    · trivial
    · split
      · rfl
      · trivial

theorem numberOperation_meets (precision : Nat) (op : Operator) (lhs rhs : Value) (a b : Decimal) :
    Meets (Kind.ResultOf op) (Calculates P) (numberOperation precision op lhs rhs a b) := by
  cases op with
  | add | sub | mul => exact limited_meets _ _
  | div | mod =>
    simp only [numberOperation]
    split
    · rfl
    · exact limited_meets _ _
  | pow =>
    refine (integerExponent_meets lhs rhs).bind fun e _ => ?_
    refine (power_meets precision a e).bind fun n _ => ?_
    exact limited_meets _ n
  | eq | ne | lt | le | gt | ge => rfl

theorem operationKind_meets (precision : Nat) (op : Operator) (lhs rhs : Value) :
    Meets (Kind.ResultOf op) (Calculates P) (operationKind precision op lhs rhs) := by
  rw [operationKind.eq_def]
  split
  · exact numberOperation_meets _ _ _ _ _ _
  · rfl
  · rfl
  · rfl

/-- A value that is not a number has no unit. -/
def Plain (v : Value) : Prop := (∀ n, v.kind ≠ .number n) → v.unit = .one

end Value

/-! ### Well-formed values and states -/

/-- A unit that is declared and that no variable hides. -/
def State.IsBase (s : State) (name : String) : Prop :=
  s.units.contains name = true ∧ s.vars.contains name = false

/-- A value that makes sense in a state. -/
structure Value.WellFormed (s : State) (v : Value) : Prop where
  bases : v.unit.Over s.IsBase
  exponents : ∀ e ∈ v.unit.exponents.entries, e.2 ≠ 0 ∧ exponentFits e.2 := v.unit.admissible
  plain : v.Plain
  function : ∀ name, v.kind = .function name → s.functions.contains name = true

namespace State

/-- The values of variables make sense, no function has a parameter twice, and between one and a
hundred digits are kept. -/
structure WellFormed (s : State) : Prop where
  vars : ∀ name v, s.vars.find? name = some v → v.WellFormed s
  params : ∀ name g, s.functions.find? name = some g → g.params.Nodup
  precision : 1 ≤ s.precision ∧ s.precision ≤ 100

def ScopeWellFormed (s : State) (scope : Scope) : Prop :=
  ∀ name v, scope.lookup name = some v → v.WellFormed s

/-- A fault that evaluation can have in a state. -/
def Calculates (s : State) : Fault → Prop := Value.Calculates s.IsBase

/-- A result of evaluation: a value that makes sense, or a fault of a calculation. -/
def Settles (s : State) : Except EvalError Value → Prop :=
  Meets (Value.WellFormed s) fun err => s.Calculates err.fault

theorem meets_locate {α : Type} {P : α → Prop} {Q : Fault → Prop} {span : Span}
    {x : Except Fault α} (h : Meets P Q x) :
    Meets P (fun err => Q err.fault) (locate span x) := by
  cases x with
  | ok a => exact h
  | error f => exact h

/-! ### Numbers -/

theorem wellFormed_number {s : State} (n : Decimal) {unit : Dimension} (h : unit.Over s.IsBase) :
    Value.WellFormed s ⟨.number n, unit⟩ where
  bases := h
  plain := fun hnumber => absurd rfl (hnumber n)
  function := nofun

theorem applySign_meets {s : State} (sign : Sign) {v : Value} (hv : v.WellFormed s) :
    Meets (Value.WellFormed s) s.Calculates (v.applySign sign) := by
  rw [Value.applySign.eq_def]
  split
  · exact wellFormed_number _ hv.bases
  · exact wellFormed_number _ hv.bases
  · rfl

theorem applySiPrefix_meets {s : State} (si : SiPrefix) {v : Value} (hv : v.WellFormed s) :
    Meets (Value.WellFormed s) s.Calculates (v.applySiPrefix si) := by
  rw [Value.applySiPrefix]
  split
  · exact wellFormed_number _ hv.bases
  · rfl

theorem operate_meets {s : State} (precision : Nat) (op : Operator) {lhs rhs : Value}
    (hl : lhs.WellFormed s) (hr : rhs.WellFormed s) :
    Meets (Value.WellFormed s) s.Calculates (lhs.operate precision op rhs) := by
  refine (Value.operationUnit_meets op hl.bases hr.bases).bind fun unit hunit => ?_
  refine (Value.operationKind_meets precision op lhs rhs).bind fun kind hkind => ?_
  cases kind with
  | number n => exact wellFormed_number n hunit.1
  | bool b =>
    have hone : unit = .one := hunit.2 hkind
    exact { bases := hunit.1, plain := fun _ => hone, function := nofun }
  | function name => exact hkind.elim

/-! ### Names -/

theorem WellFormed.lookup {s : State} (hs : s.WellFormed) {name : String} {v : Value}
    (h : s.lookup name = some v) : v.WellFormed s := by
  rw [State.lookup] at h
  split at h
  · rename_i w hw
    cases h
    exact hs.vars name _ hw
  · rename_i hfree
    split at h
    · rename_i hunit
      cases h
      have hbase : s.IsBase name := ⟨hunit, by rw [Table.contains, hfree]; rfl⟩
      exact wellFormed_number 1 (Dimension.over_base hbase)
    · split at h
      · rename_i hfunction
        cases h
        refine { bases := Dimension.over_one, plain := fun _ => rfl, function := ?_ }
        rintro _ ⟨⟩
        exact hfunction
      · cases h

theorem WellFormed.lookupIn {s : State} (hs : s.WellFormed) {scope : Scope}
    (hscope : s.ScopeWellFormed scope) {name : String} {v : Value}
    (h : s.lookupIn scope name = some v) : v.WellFormed s := by
  rcases Option.or_eq_some_iff.1 h with hparam | ⟨-, hglobal⟩
  · exact hscope name v hparam
  · exact hs.lookup hglobal

theorem WellFormed.evalName {s : State} (hs : s.WellFormed) {scope : Scope}
    (hscope : s.ScopeWellFormed scope) (name : String) :
    Meets (Value.WellFormed s) s.Calculates (s.evalName scope name) := by
  rw [State.evalName]
  split
  · rename_i v hv
    exact hs.lookupIn hscope hv
  · split
    · rfl
    · split
      · rename_i v hv
        exact applySiPrefix_meets _ (hs.lookupIn hscope hv)
      · rfl

/-! ### Calls -/

/-- The function that a well-formed value names is there. -/
theorem callable_ne_undefined {s : State} {callee : Value} (h : callee.WellFormed s)
    (name : String) : s.callable callee ≠ .error (.undefinedName name) := by
  intro herror
  rw [callable] at herror
  split at herror
  · rename_i f hf
    obtain ⟨g, hg⟩ := Option.isSome_iff_exists.1 (h.function f hf)
    rw [hg] at herror
    cases herror
  · cases herror

theorem callableWith_meets (s : State) (callee : Value) (count : Nat) :
    Meets (fun _ => True) s.Calculates (s.callableWith callee count) := by
  have hcallable : Meets (fun _ => True) s.Calculates (s.callable callee) := by
    rw [callable]
    split
    · split
      · trivial
      · rfl
    · rfl
  refine hcallable.bind fun r _ => ?_
  simp only
  split
  · trivial
  · rfl

theorem scopeWellFormed_bindArguments {s : State} {params : List String} {values : List Value}
    (h : ∀ v ∈ values, v.WellFormed s) : s.ScopeWellFormed (bindArguments params values) :=
  fun _ v hv => h v (mem_of_lookup_bindArguments hv)

/-! ### Evaluation -/

theorem WellFormed.called {s : State} (hs : s.WellFormed) {scope : Scope}
    (hscope : s.ScopeWellFormed scope) (callee : Ident) (count : Nat) (span : Span) :
    Meets (fun _ => True) (fun err => s.Calculates err.fault) (s.called scope callee count span) :=
  (meets_locate (hs.evalName hscope callee.name)).bind fun f _ =>
    meets_locate (callableWith_meets s f count)

/-- Evaluation settles each node if it settles what is inside calls. -/
theorem WellFormed.preserves {s : State} (hs : s.WellFormed) {depth : Nat} {scope : Scope}
    (hscope : s.ScopeWellFormed scope)
    (hbody : ∀ inner < depth, ∀ scope body, s.ScopeWellFormed scope →
      s.Settles (s.evalAt inner scope body)) :
    (s.evaluator depth scope).Preserves (fun _ => True) (Value.WellFormed s)
      fun err => s.Calculates err.fault where
  parts _ _ _ _ := trivial
  number n := .ok ⟨wellFormed_number n Dimension.over_one, rfl⟩
  name id _ := (meets_locate (hs.evalName hscope id.name)).related
  call callee args span _ := by
    apply (hs.called hscope callee args.length span).related.bind
    rintro g _ - - ⟨-, rfl⟩
    cases depth with
    | zero => exact .error ⟨rfl, rfl⟩
    | succ depth =>
      refine .ok fun values values' hvalues => ?_
      obtain ⟨hall, rfl⟩ := forall₂_same.1 hvalues
      have hinner : s.ScopeWellFormed (bindArguments g.params values) :=
        scopeWellFormed_bindArguments hall
      exact (hbody depth depth.lt_succ_self _ g.body hinner).related
  signed sign e span _ := by
    rintro v _ ⟨hv, rfl⟩
    exact (meets_locate (applySign_meets sign hv)).related
  binary op l r span _ := by
    rintro lhs _ rhs _ ⟨hl, rfl⟩ ⟨hr, rfl⟩ - -
    exact (meets_locate (operate_meets s.precision op hl hr)).related
  unitOf e span _ := by
    rintro v _ ⟨hv, rfl⟩
    exact .ok ⟨wellFormed_number 1 hv.bases, rfl⟩

theorem evalAt_settles {s : State} (hs : s.WellFormed) (depth : Nat) {scope : Scope}
    (hscope : s.ScopeWellFormed scope) (e : Expr) : s.Settles (s.evalAt depth scope e) := by
  induction depth using Nat.strongRecOn generalizing scope e with
  | ind depth ih =>
    exact (hs.preserves hscope fun inner hinner _ body h => ih inner hinner h body).eval e trivial

theorem scopeWellFormed_nil (s : State) : s.ScopeWellFormed [] := by
  intro name v h
  cases h

theorem WellFormed.eval {s : State} (hs : s.WellFormed) (e : Expr) : s.Settles (s.eval e) := by
  rw [State.eval]
  exact evalAt_settles hs maxCallDepth s.scopeWellFormed_nil e

end State

/-! ### Expressions that evaluation gets to -/

namespace State

/-- The evaluation of an expression in a scope gets to an expression in a scope: to its parts, and
to the bodies of the functions that it calls. -/
inductive Visits (s : State) : Nat → Scope → Expr → Scope → Expr → Prop where
  | here (depth : Nat) (scope : Scope) (e : Expr) : Visits s depth scope e scope e
  | part {depth : Nat} {scope scope' : Scope} {e part e' : Expr} (hpart : part ∈ e.parts)
      (h : Visits s depth scope part scope' e') : Visits s depth scope e scope' e'
  | body {depth : Nat} {scope scope' : Scope} {callee : Ident} {args : List Expr} {span : Span}
      {g : Function} {values : List Value} {e' : Expr}
      (hcall : s.Calls depth scope callee args g values)
      (h : Visits s depth (bindArguments g.params values) g.body scope' e') :
      Visits s (depth + 1) scope (.call callee args span) scope' e'

theorem Calls.scopeWellFormed {s : State} (hs : s.WellFormed) {depth : Nat} {scope : Scope}
    (hscope : s.ScopeWellFormed scope) {callee : Ident} {args : List Expr} {g : Function}
    {values : List Value} (h : s.Calls depth scope callee args g values) :
    s.ScopeWellFormed (bindArguments g.params values) := by
  have hpreserves : (s.evaluator (depth + 1) scope).Preserves (fun _ => True) (Value.WellFormed s)
      fun err => s.Calculates err.fault :=
    hs.preserves hscope fun inner _ _ body h => evalAt_settles hs inner h body
  have hargs := hpreserves.evalAll args fun _ _ => trivial
  exact scopeWellFormed_bindArguments (hargs.ok h.values)

theorem Visits.scopeWellFormed {s : State} (hs : s.WellFormed) {depth : Nat}
    {scope scope' : Scope} {e e' : Expr} (h : s.Visits depth scope e scope' e')
    (hscope : s.ScopeWellFormed scope) : s.ScopeWellFormed scope' := by
  induction h with
  | here depth scope e => exact hscope
  | part _ _ ih => exact ih hscope
  | body hcall _ ih => exact ih (hcall.scopeWellFormed hs hscope)

/-- A call that evaluation gets to finds the function that it looks for. -/
theorem Visits.callable_ne {s : State} (hs : s.WellFormed) {e : Expr} {scope : Scope}
    {callee : Ident} {args : List Expr} {span : Span}
    (h : s.Visits maxCallDepth [] e scope (.call callee args span)) {f : Value}
    (hf : s.evalName scope callee.name = .ok f) (name : String) :
    s.callable f ≠ .error (.undefinedName name) := by
  have hscope := h.scopeWellFormed hs s.scopeWellFormed_nil
  exact callable_ne_undefined ((hs.evalName hscope callee.name).ok hf) name

end State

end UnitCalc
