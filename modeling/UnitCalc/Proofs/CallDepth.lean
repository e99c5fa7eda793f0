import UnitCalc.Proofs.NumberFlow

/-! The depth of calls. Evaluation is written down as rules that know no bound but the one on the
level of nested calls, and say how deep a run goes. Because of that bound every run ends, and it is
the run of the evaluator. The bound shows only as an error of its own: with more levels left every
other outcome stays the same. -/

namespace UnitCalc

namespace State

/-! ### Rules of evaluation -/

mutual
/-- Inside `level` nested calls an expression has a result, and the calls nest to the level
`deepest` until it is there. Arguments are evaluated at the level of the call, and the body of the
function one level deeper. -/
inductive Evaluates (s : State) :
    (level : Nat) → Scope → Expr → (deepest : Nat) → Except EvalError Value → Prop where
  | number (level : Nat) (scope : Scope) (d : Decimal) (span : Span) :
      Evaluates s level scope (.number d span) level (.ok (.ofDecimal d))
  | name (level : Nat) (scope : Scope) (id : Ident) :
      Evaluates s level scope (.name id) level (locate id.span (s.evalName scope id.name))
  | refused {level : Nat} {scope : Scope} {callee : Ident} {args : List Expr} {span : Span}
      {err : EvalError} (h : s.called scope callee args.length span = .error err) :
      Evaluates s level scope (.call callee args span) level (.error err)
  | tooDeep {level : Nat} {scope : Scope} {callee : Ident} {args : List Expr} {span : Span}
      {g : Function} (h : s.called scope callee args.length span = .ok g)
      (hlevel : maxCallDepth ≤ level) :
      Evaluates s level scope (.call callee args span) level (.error ⟨.callDepthExceeded, span⟩)
  | argument {level deepest : Nat} {scope : Scope} {callee : Ident} {args : List Expr}
      {span : Span} {g : Function} {err : EvalError}
      (h : s.called scope callee args.length span = .ok g) (hlevel : level < maxCallDepth)
      (hargs : EvaluatesAll s level scope args deepest (.error err)) :
      Evaluates s level scope (.call callee args span) deepest (.error err)
  | body {level m n : Nat} {scope : Scope} {callee : Ident} {args : List Expr} {span : Span}
      {g : Function} {values : List Value} {r : Except EvalError Value}
      (h : s.called scope callee args.length span = .ok g) (hlevel : level < maxCallDepth)
      (hargs : EvaluatesAll s level scope args m (.ok values))
      (hbody : Evaluates s (level + 1) (bindArguments g.params values) g.body n r) :
      Evaluates s level scope (.call callee args span) (max m n) r
  | signed {level deepest : Nat} {scope : Scope} {sign : Sign} {e : Expr} {span : Span}
      {r : Except EvalError Value} (he : Evaluates s level scope e deepest r) :
      Evaluates s level scope (.signed sign e span) deepest
        (r.bind fun v => locate span (v.applySign sign))
  | leftOperand {level deepest : Nat} {scope : Scope} {op : Operator} {l r : Expr} {span : Span}
      {err : EvalError} (hl : Evaluates s level scope l deepest (.error err)) :
      Evaluates s level scope (.binary op l r span) deepest (.error err)
  | binary {level m n : Nat} {scope : Scope} {op : Operator} {l r : Expr} {span : Span}
      {lhs : Value} {rhs : Except EvalError Value} (hl : Evaluates s level scope l m (.ok lhs))
      (hr : Evaluates s level scope r n rhs) :
      Evaluates s level scope (.binary op l r span) (max m n)
        (rhs.bind fun rhs => locate span (lhs.operate s.precision op rhs))
  | unitOf {level deepest : Nat} {scope : Scope} {e : Expr} {span : Span}
      {r : Except EvalError Value} (he : Evaluates s level scope e deepest r) :
      Evaluates s level scope (.unitOf e span) deepest (r.bind fun v => .ok ⟨.number 1, v.unit⟩)
  | paren {level deepest : Nat} {scope : Scope} {e : Expr} {span : Span}
      {r : Except EvalError Value} (he : Evaluates s level scope e deepest r) :
      Evaluates s level scope (.paren e span) deepest r

/-- Arguments are evaluated in order, up to the first that fails. -/
inductive EvaluatesAll (s : State) :
    (level : Nat) → Scope → List Expr → (deepest : Nat) → Except EvalError (List Value) → Prop where
  | nil (level : Nat) (scope : Scope) : EvaluatesAll s level scope [] level (.ok [])
  | failed {level deepest : Nat} {scope : Scope} {e : Expr} {es : List Expr} {err : EvalError}
      (he : Evaluates s level scope e deepest (.error err)) :
      EvaluatesAll s level scope (e :: es) deepest (.error err)
  | cons {level m n : Nat} {scope : Scope} {e : Expr} {es : List Expr} {v : Value}
      {vs : Except EvalError (List Value)} (he : Evaluates s level scope e m (.ok v))
      (hes : EvaluatesAll s level scope es n vs) :
      EvaluatesAll s level scope (e :: es) (max m n) (vs.map (v :: ·))
end

/-! ### Runs of the evaluator -/

/-- How bodies are evaluated inside `level` nested calls. -/
def invokeIn (s : State) (level : Nat) : Invoke :=
  if level < maxCallDepth then some (s.evalAt (maxCallDepth - (level + 1))) else none

/-- Evaluation inside `level` nested calls. -/
def evalIn (s : State) (level : Nat) : Scope → Expr → Except EvalError Value :=
  s.evalAt (maxCallDepth - level)

theorem evalIn_eq (s : State) (level : Nat) : s.evalIn level = s.evalWith (s.invokeIn level) := by
  rw [evalIn, invokeIn]
  split
  · rename_i hlevel
    rw [show maxCallDepth - level = maxCallDepth - (level + 1) + 1 by omega]
    rfl
  · rename_i hlevel
    rw [show maxCallDepth - level = 0 by omega]
    rfl

theorem invokeIn_of_lt {s : State} {level : Nat} (h : level < maxCallDepth) :
    s.invokeIn level = some (s.evalIn (level + 1)) := if_pos h

theorem invokeIn_of_le {s : State} {level : Nat} (h : maxCallDepth ≤ level) :
    s.invokeIn level = none := if_neg (Nat.not_lt.2 h)

mutual
/-- A run by the rules gives what the evaluator gives, and stays within the bound. -/
theorem Evaluates.spec {s : State} {level deepest : Nat} {scope : Scope} {e : Expr}
    {r : Except EvalError Value} (h : s.Evaluates level scope e deepest r) :
    r = s.evalIn level scope e ∧ deepest ≤ max level maxCallDepth := by
  rw [evalIn_eq]
  match h with
  | .number .. => exact ⟨by rw [evalWith], Nat.le_max_left _ _⟩
  | .name .. => exact ⟨by rw [evalWith], Nat.le_max_left _ _⟩
  | .refused hcalled => exact ⟨by rw [evalWith_call, hcalled]; rfl, Nat.le_max_left _ _⟩
  | .tooDeep hcalled hlevel =>
    exact ⟨by rw [evalWith_call, hcalled, invokeIn_of_le hlevel]; rfl, Nat.le_max_left _ _⟩
  | .argument hcalled hlevel hargs =>
    obtain ⟨hall, hdeepest⟩ := hargs.spec
    refine ⟨?_, hdeepest⟩
    rw [evalWith_call, hcalled, ← hall, invokeIn_of_lt hlevel]
    rfl
  | .body hcalled hlevel hargs hbody =>
    obtain ⟨hall, hm⟩ := hargs.spec
    obtain ⟨hr, hn⟩ := hbody.spec
    refine ⟨?_, by omega⟩
    rw [evalWith_call, hcalled, ← hall, invokeIn_of_lt hlevel, hr]
    rfl
  | .signed he =>
    obtain ⟨hr, hdeepest⟩ := he.spec
    exact ⟨by rw [evalWith, hr, evalIn_eq]; rfl, hdeepest⟩
  | .leftOperand hl =>
    obtain ⟨hr, hdeepest⟩ := hl.spec
    exact ⟨by rw [evalWith, ← evalIn_eq, ← hr]; rfl, hdeepest⟩
  | .binary hl hr =>
    obtain ⟨hlhs, hm⟩ := hl.spec
    obtain ⟨hrhs, hn⟩ := hr.spec
    exact ⟨by rw [evalWith, ← evalIn_eq, ← hlhs, ← hrhs]; rfl, by omega⟩
  | .unitOf he =>
    obtain ⟨hr, hdeepest⟩ := he.spec
    exact ⟨by rw [evalWith, hr, evalIn_eq]; rfl, hdeepest⟩
  | .paren he =>
    obtain ⟨hr, hdeepest⟩ := he.spec
    exact ⟨by rw [evalWith, hr, evalIn_eq], hdeepest⟩

theorem EvaluatesAll.spec {s : State} {level deepest : Nat} {scope : Scope} {es : List Expr}
    {r : Except EvalError (List Value)} (h : s.EvaluatesAll level scope es deepest r) :
    r = s.evalAllWith (s.invokeIn level) scope es ∧ deepest ≤ max level maxCallDepth := by
  match h with
  | .nil .. => exact ⟨by rw [evalAllWith], Nat.le_max_left _ _⟩
  | .failed he =>
    obtain ⟨hr, hdeepest⟩ := he.spec
    exact ⟨by rw [evalAllWith, ← evalIn_eq, ← hr]; rfl, hdeepest⟩
  | @EvaluatesAll.cons _ _ _ _ _ _ _ _ vs he hes =>
    obtain ⟨hv, hm⟩ := he.spec
    obtain ⟨hvs, hn⟩ := hes.spec
    refine ⟨?_, by omega⟩
    rw [evalAllWith, ← evalIn_eq, ← hv, ← hvs]
    cases vs <;> rfl
end

/-! ### Every run ends -/

mutual
/-- If all runs one level deeper end, so do those at this level. -/
theorem exists_evaluates_of_deeper {s : State} {level : Nat}
    (hdeeper : level < maxCallDepth →
      ∀ scope e, ∃ deepest r, s.Evaluates (level + 1) scope e deepest r)
    (scope : Scope) (e : Expr) : ∃ deepest r, s.Evaluates level scope e deepest r := by
  match e with
  | .number d span => exact ⟨_, _, .number level scope d span⟩
  | .name id => exact ⟨_, _, .name level scope id⟩
  | .call callee args span =>
    cases hcalled : s.called scope callee args.length span with
    | error err => exact ⟨_, _, .refused hcalled⟩
    | ok g =>
      by_cases hlevel : level < maxCallDepth
      · obtain ⟨m, values, hargs⟩ := exists_evaluatesAll_of_deeper hdeeper scope args
        cases values with
        | error err => exact ⟨_, _, .argument hcalled hlevel hargs⟩
        | ok values =>
          obtain ⟨n, r, hbody⟩ := hdeeper hlevel (bindArguments g.params values) g.body
          exact ⟨_, _, .body hcalled hlevel hargs hbody⟩
      · exact ⟨_, _, .tooDeep hcalled (Nat.not_lt.1 hlevel)⟩
  | .signed sign e span =>
    obtain ⟨n, r, he⟩ := exists_evaluates_of_deeper hdeeper scope e
    exact ⟨_, _, .signed he⟩
  | .binary op l r span =>
    obtain ⟨m, lhs, hl⟩ := exists_evaluates_of_deeper hdeeper scope l
    cases lhs with
    | error err => exact ⟨_, _, .leftOperand hl⟩
    | ok lhs =>
      obtain ⟨n, rhs, hr⟩ := exists_evaluates_of_deeper hdeeper scope r
      exact ⟨_, _, .binary hl hr⟩
  | .unitOf e span =>
    obtain ⟨n, r, he⟩ := exists_evaluates_of_deeper hdeeper scope e
    exact ⟨_, _, .unitOf he⟩
  | .paren e span =>
    obtain ⟨n, r, he⟩ := exists_evaluates_of_deeper hdeeper scope e
    exact ⟨_, _, .paren he⟩

theorem exists_evaluatesAll_of_deeper {s : State} {level : Nat}
    (hdeeper : level < maxCallDepth →
      ∀ scope e, ∃ deepest r, s.Evaluates (level + 1) scope e deepest r)
    (scope : Scope) (es : List Expr) : ∃ deepest r, s.EvaluatesAll level scope es deepest r := by
  match es with
  | [] => exact ⟨_, _, .nil level scope⟩
  | e :: es =>
    obtain ⟨m, v, he⟩ := exists_evaluates_of_deeper hdeeper scope e
    cases v with
    | error err => exact ⟨_, _, .failed he⟩
    | ok v =>
      obtain ⟨n, vs, hes⟩ := exists_evaluatesAll_of_deeper hdeeper scope es
      exact ⟨_, _, .cons he hes⟩
end

theorem exists_evaluates (s : State) (level : Nat) (scope : Scope) (e : Expr) :
    ∃ deepest r, s.Evaluates level scope e deepest r := by
  -- A body is no part of the call, but it has one level less left.
  induction hleft : maxCallDepth - level generalizing level scope e with
  | zero =>
    have hdeeper : ¬ level < maxCallDepth := by omega
    exact exists_evaluates_of_deeper (fun h => absurd h hdeeper) scope e
  | succ left ih =>
    exact exists_evaluates_of_deeper (fun _ scope e => ih (level + 1) scope e (by omega)) scope e

/-! ### More levels -/

/-- The bound on the depth of calls has shown. -/
def Exceeds {α : Type} (r : Except EvalError α) : Prop :=
  ∃ span, r = .error ⟨.callDepthExceeded, span⟩

/-- Errors are the same unless the bound has shown in the first. -/
def depthMatch : ErrorMatch EvalError EvalError where
  pair err err' := err = err'
  left err := err.fault = .callDepthExceeded
  right _ := False

/-- A second result is the same unless the bound has shown in the first. -/
abbrev Upholds {α : Type} : Except EvalError α → Except EvalError α → Prop := Related depthMatch Eq

theorem upholds_refl {α : Type} (r : Except EvalError α) : Upholds r r := by
  cases r with
  | ok a => exact .ok rfl
  | error err => exact .error rfl

theorem Upholds.eq {α : Type} {r r' : Except EvalError α} (h : Upholds r r')
    (hlimit : ¬ Exceeds r) : r' = r := by
  cases h with
  | ok h => rw [h]
  | @error err err' h =>
    have hsame : err = err' := h
    rw [hsame]
  | @left err h => exact absurd ⟨err.span, by rw [← h]⟩ hlimit
  | right _ h => exact h.elim

/-- More nested calls left make no difference to a node. -/
theorem alike_upholds (s : State) {depth depth' : Nat} (hdepth : depth ≤ depth') (scope : Scope)
    (hbody : ∀ inner < depth, ∀ inner', inner ≤ inner' → ∀ scope body,
      Upholds (s.evalAt inner scope body) (s.evalAt inner' scope body)) :
    Alike (fun _ => True) depthMatch Eq (s.evaluator depth scope) (s.evaluator depth' scope) where
  parts _ _ _ _ := trivial
  number n := upholds_refl _
  name id _ := upholds_refl _
  call callee args span _ := by
    apply (upholds_refl (s.called scope callee args.length span)).bind
    rintro g _ - - rfl
    cases depth with
    | zero => exact .left rfl _
    | succ depth =>
      cases depth' with
      | zero => cases hdepth
      | succ depth' =>
        refine .ok fun values values' hvalues => ?_
        rw [List.forall₂_eq_eq_eq] at hvalues
        subst hvalues
        exact hbody depth depth.lt_succ_self depth' (Nat.le_of_succ_le_succ hdepth) _ g.body
  signed sign e span _ := by
    rintro v _ rfl
    exact upholds_refl _
  binary op l r span _ := by
    rintro lhs _ rhs _ rfl rfl - -
    exact upholds_refl _
  unitOf e span _ := by
    rintro v _ rfl
    exact upholds_refl _

theorem evalAt_upholds (s : State) {depth depth' : Nat} (hdepth : depth ≤ depth') (scope : Scope)
    (e : Expr) : Upholds (s.evalAt depth scope e) (s.evalAt depth' scope e) := by
  induction depth using Nat.strongRecOn generalizing depth' scope e with
  | ind depth ih =>
    refine (s.alike_upholds hdepth scope ?_).eval e trivial
    intro inner hinner _ hle scope body
    exact ih inner hinner hle scope body

/-- Inside any number of calls the evaluation of an expression ends, its calls nest no deeper than
the bound, and its result is that of the evaluator. Unless the bound has shown in the result, it is
the same inside fewer calls. -/
theorem evaluates_within_depth (s : State) (level : Nat) (scope : Scope) (e : Expr) :
    (∃ deepest r, s.Evaluates level scope e deepest r) ∧
      ∀ deepest r, s.Evaluates level scope e deepest r →
        deepest ≤ max level maxCallDepth ∧ r = s.evalAt (maxCallDepth - level) scope e ∧
        (¬ Exceeds r → ∀ level' ≤ level, s.evalAt (maxCallDepth - level') scope e = r ∧
          ∃ deepest', s.Evaluates level' scope e deepest' r) := by
  refine ⟨s.exists_evaluates level scope e, fun deepest r h => ?_⟩
  obtain ⟨hr, hdeepest⟩ := h.spec
  refine ⟨hdeepest, hr, fun hlimit level' hlevel => ?_⟩
  have hsame : s.evalIn level' scope e = r := by
    rw [hr] at hlimit ⊢
    exact (s.evalAt_upholds (by omega) scope e).eq hlimit
  obtain ⟨deepest', r', h'⟩ := s.exists_evaluates level' scope e
  have hr' : r' = r := h'.spec.1.trans hsame
  exact ⟨hsame, deepest', hr' ▸ h'⟩

end State

end UnitCalc
