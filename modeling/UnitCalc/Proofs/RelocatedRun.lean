import UnitCalc.Proofs.Evaluators
import UnitCalc.Proofs.Relocation

/-! Evaluation never looks at a span. Running relocated lines from a relocated state gives the
relocated results: the same values and faults, the same declarations, with every span moved. Errors
carry the spans of the expressions they arose in, bodies of functions included, so they move too. -/

namespace UnitCalc

variable {f : Span → Span}

/-- The results of evaluation with the places of errors moved; values have none. -/
def movedValue {α : Type} (f : Span → Span) : Except EvalError α → Except EvalError α :=
  mapBoth (EvalError.relocate f) id

theorem locate_relocate {α : Type} (span : Span) (x : Except Fault α) :
    locate (f span) x = movedValue f (locate span x) := by
  cases x <;> rfl

theorem locate_mapBoth {α β : Type} (h : α → β) (span : Span) (x : Except Fault α) :
    locate (f span) (mapBoth id h x) = mapBoth (EvalError.relocate f) h (locate span x) := by
  cases x <;> rfl

/-- Evaluation of what an expression is relocated to. -/
def Evaluator.relocate {ε α : Type} (f : Span → Span) (m : Evaluator ε α) : Evaluator ε α where
  number := m.number
  name id := m.name (id.relocate f)
  call callee count span := m.call (callee.relocate f) count (f span)
  signed sign span := m.signed sign (f span)
  binary op span := m.binary op (f span)
  unitOf := m.unitOf
  eval e := m.eval (e.relocate f)
  evalAll es := m.evalAll (Expr.relocateAll f es)
  eval_number n span := m.eval_number n (f span)
  eval_name id := m.eval_name (id.relocate f)
  eval_call callee args span := by
    rw [Expr.relocate, m.eval_call, Expr.relocateAll_eq_map, List.length_map]
  eval_signed sign e span := m.eval_signed sign (e.relocate f) (f span)
  eval_binary op l r span := m.eval_binary op (l.relocate f) (r.relocate f) (f span)
  eval_unitOf e span := m.eval_unitOf (e.relocate f) (f span)
  eval_paren e span := m.eval_paren (e.relocate f) (f span)
  evalAll_nil := m.evalAll_nil
  evalAll_cons e es := m.evalAll_cons (e.relocate f) (Expr.relocateAll f es)

namespace State

/-! ### Evaluation -/

@[simp] theorem relocate_units (s : State) : (s.relocate f).units = s.units := rfl

@[simp] theorem relocate_vars (s : State) : (s.relocate f).vars = s.vars := rfl

@[simp] theorem relocate_functions (s : State) :
    (s.relocate f).functions = s.functions.map (Function.relocate f) := rfl

@[simp] theorem relocate_isDefined (s : State) (name : String) :
    (s.relocate f).isDefined name = s.isDefined name := by
  simp only [isDefined, relocate, Table.contains_map]

@[simp] theorem relocate_lookup (s : State) (name : String) :
    (s.relocate f).lookup name = s.lookup name := by
  simp only [lookup, relocate, Table.contains_map]

@[simp] theorem relocate_evalName (s : State) (scope : Scope) (name : String) :
    (s.relocate f).evalName scope name = s.evalName scope name := by
  simp only [evalName, lookupIn, relocate_lookup]

theorem relocate_callable (s : State) (callee : Value) :
    (s.relocate f).callable callee =
      mapBoth id (fun r => (r.1, r.2.relocate f)) (s.callable callee) := by
  simp only [callable, relocate, Table.find?_map]
  cases callee.kind with
  | number n => rfl
  | bool b => rfl
  | function name =>
    simp only
    cases s.functions.find? name <;> rfl

theorem relocate_callableWith (s : State) (callee : Value) (count : Nat) :
    (s.relocate f).callableWith callee count =
      mapBoth id (Function.relocate f) (s.callableWith callee count) := by
  rw [callableWith, callableWith, bind_eq, bind_eq, relocate_callable]
  apply mapBoth_bind
  rintro ⟨name, g⟩ -
  by_cases hcount : g.params.length = count
  · simp only [Function.relocate_params, hcount, if_true, mapBoth_ok]
  · simp only [Function.relocate_params, hcount, if_false, mapBoth_error, id]

/-- A call of the relocated state asks for the relocated function. -/
theorem called_relocate (s : State) (scope : Scope) (callee : Ident) (count : Nat) (span : Span) :
    (s.relocate f).called scope (callee.relocate f) count (f span) =
      mapBoth (EvalError.relocate f) (Function.relocate f) (s.called scope callee count span) := by
  rw [called, called, Ident.relocate_name, Ident.relocate_span, relocate_evalName, locate_relocate]
  apply mapBoth_bind
  intro v _
  rw [id, relocate_callableWith, locate_mapBoth]

/-- The evaluator of the relocated state treats relocated nodes alike. -/
theorem alike_relocate (s : State) {depth : Nat} (scope : Scope)
    (hbody : ∀ inner < depth, ∀ scope e, (s.relocate f).evalAt inner scope (e.relocate f) =
      movedValue f (s.evalAt inner scope e)) :
    Alike (fun _ => True) (.via (EvalError.relocate f)) Eq (s.evaluator depth scope)
      (((s.relocate f).evaluator depth scope).relocate f) where
  parts _ _ _ _ := trivial
  number n := .ok rfl
  name id _ := by
    apply related_via.2
    show locate (f id.span) ((s.relocate f).evalName scope id.name) = _
    rw [relocate_evalName]
    exact locate_relocate id.span _
  call callee args span _ := by
    apply (related_via.2 (called_relocate s scope callee args.length span)).bind
    rintro g _ - - rfl
    cases depth with
    | zero => exact .error rfl
    | succ depth =>
      refine .ok fun values values' hvalues => ?_
      rw [List.forall₂_eq_eq_eq] at hvalues
      subst hvalues
      exact related_via.2 (hbody depth depth.lt_succ_self _ g.body)
  signed sign e span _ := by
    rintro v _ rfl
    exact related_via.2 (locate_relocate span _)
  binary op l r span _ := by
    rintro lhs _ rhs _ rfl rfl - -
    exact related_via.2 (locate_relocate span _)
  unitOf e span _ := by
    rintro v _ rfl
    exact .ok rfl

theorem evalAt_relocate (s : State) (depth : Nat) (scope : Scope) (e : Expr) :
    (s.relocate f).evalAt depth scope (e.relocate f) = movedValue f (s.evalAt depth scope e) := by
  induction depth using Nat.strongRecOn generalizing scope e with
  | ind depth ih => exact related_via.1 ((s.alike_relocate scope ih).eval e trivial)

theorem eval_relocate (s : State) (e : Expr) :
    (s.relocate f).eval (e.relocate f) = movedValue f (s.eval e) :=
  evalAt_relocate s maxCallDepth [] e

/-! ### Lines -/

/-- A state and an outcome with their spans moved. -/
def movedStep (f : Span → Span) (r : State × Outcome) : State × Outcome :=
  (r.1.relocate f, r.2.relocate f)

theorem execute_relocate (s : State) (statement : Statement) :
    (s.relocate f).execute (statement.relocate f) =
      mapBoth (EvalError.relocate f) (movedStep f) (s.execute statement) := by
  cases statement with
  | declareUnit name span =>
    cases hname : s.units.contains name.name with
    | true =>
      simp only [Statement.relocate, execute, Ident.relocate_name, relocate_units, hname, if_true]
      rfl
    | false =>
      simp only [Statement.relocate, execute, Ident.relocate_name, relocate_units, hname,
        Bool.false_eq_true, if_false]
      rfl
  | declareVariable name rhs span =>
    simp only [Statement.relocate, execute, bind_eq, Ident.relocate_name, eval_relocate]
    apply mapBoth_bind
    intro v _
    cases hname : s.vars.contains name.name with
    | true =>
      simp only [relocate_vars, hname, if_true]
      rfl
    | false =>
      simp only [relocate_vars, hname, Bool.false_eq_true, if_false]
      rfl
  | declareFunction name params rhs span =>
    have hparams : (params.map (·.relocate f)).map (·.name) = params.map (·.name) := by
      rw [List.map_map]
      rfl
    simp only [Statement.relocate, execute, Ident.relocate_name, relocate_functions,
      Table.contains_map, hparams]
    cases s.functions.contains name.name with
    | true => rfl
    | false =>
      simp only [Bool.false_eq_true, if_false, mapBoth_ok, movedStep, relocate, Table.map_insert]
      rfl
  | print e span =>
    simp only [Statement.relocate, execute, bind_eq, eval_relocate]
    apply mapBoth_bind
    intro v _
    rfl
  | eval e =>
    simp only [Statement.relocate, execute, bind_eq, eval_relocate]
    apply mapBoth_bind
    intro v _
    rfl

end State

/-- The left side of a binding, which spans the name and the last parameter. -/
theorem Binding.relocate_lhs (hf : ∀ a b, f (a.merge b) = (f a).merge (f b)) (b : Binding) :
    (b.relocate f).lhs = b.lhs.relocate f := by
  obtain ⟨name, params, rhs, span⟩ := b
  cases params with
  | none => rfl
  | some ps =>
    simp only [lhs, relocate, Option.map_some, Expr.relocate, List.getLast?_map, Option.map_map,
      hf, Expr.relocateAll_eq_map, List.map_map]
    cases ps.getLast? <;> rfl

namespace State

theorem resolve_relocate (hf : ∀ a b, f (a.merge b) = (f a).merge (f b)) (s : State) (l : Line) :
    (s.relocate f).resolve (l.relocate f) = (s.resolve l).map (Statement.relocate f) := by
  cases l with
  | blank | unit _ _ | print _ _ | expr _ => rfl
  | binding b =>
    have hname : (b.relocate f).name.name = b.name.name := rfl
    simp only [Line.relocate, resolve, relocate_isDefined, hname, Option.map_some]
    cases s.isDefined b.name.name with
    | true =>
      simp only [if_true, Binding.asEquation, Binding.relocate_lhs hf, Statement.relocate,
        Expr.relocate_combine hf]
      rfl
    | false =>
      obtain ⟨name, params, rhs, span⟩ := b
      cases params <;> rfl

theorem runLine_relocate (hf : ∀ a b, f (a.merge b) = (f a).merge (f b)) (s : State) (l : Line) :
    (s.relocate f).runLine (l.relocate f) =
      mapBoth (EvalError.relocate f) (movedStep f) (s.runLine l) := by
  rw [runLine, runLine, resolve_relocate hf]
  cases s.resolve l with
  | none => rfl
  | some statement => exact execute_relocate s statement

/-- Running relocated lines gives the relocated results. -/
theorem runLines_relocate (hf : ∀ a b, f (a.merge b) = (f a).merge (f b)) (s : State)
    (number : Nat) (ls : List Line) :
    (s.relocate f).runLines number (ls.map (Line.relocate f)) =
      ((s.runLines number ls).1.relocate f,
        mapBoth (ProgramError.relocate f) (List.map (Outcome.relocate f))
          (s.runLines number ls).2) := by
  induction ls generalizing s number with
  | nil => rfl
  | cons l ls ih =>
    rw [List.map_cons, runLines, runLines, runLine_relocate hf]
    cases s.runLine l with
    | error e => rfl
    | ok r =>
      obtain ⟨s', o⟩ := r
      simp only [mapBoth_ok, movedStep, ih]
      cases (s'.runLines (number + 1) ls).2 <;> rfl

end State

end UnitCalc
