import UnitCalc.Proofs.Spans

/-! Spans in states. The bodies of the functions of a state keep the spans of the sources that
declared them, and an error of evaluation carries a span of the expression evaluated or of a body
that was called. A property of spans that holds of the bodies of a state and of the lines that run
therefore holds of all errors, and of the bodies afterwards. -/

namespace UnitCalc

variable {P Q : Span → Prop}

theorem Expr.Within.mono {e : Expr} (h : e.Within P) (hPQ : ∀ sp, P sp → Q sp) : e.Within Q :=
  fun sp hsp => hPQ sp (h sp hsp)

namespace State

/-- All spans in bodies of functions have a property. -/
def BodiesWithin (P : Span → Prop) (s : State) : Prop :=
  ∀ name g, s.functions.find? name = some g → g.body.Within P

/-- A span stands in the body of some function. -/
def InBody (s : State) (sp : Span) : Prop :=
  ∃ name g, s.functions.find? name = some g ∧ sp ∈ g.body.spans

/-! ### Evaluation -/

theorem meets_at {α : Type} {span : Span} (h : P span) (x : Except Fault α) :
    Meets (fun _ => True) (fun err => P err.span) (locate span x) := by
  cases x with
  | ok a => trivial
  | error fault => exact h

/-- Errors arise at nodes of the expression evaluated or inside calls. -/
theorem BodiesWithin.preserves {s : State} (hs : s.BodiesWithin P) {depth : Nat} (scope : Scope)
    (hbody : ∀ inner < depth, ∀ scope body, body.Within P →
      Meets (fun _ => True) (fun err => P err.span) (s.evalAt inner scope body)) :
    (s.evaluator depth scope).Preserves (Expr.Within P) (fun _ => True) fun err => P err.span where
  parts e he part hpart := he.part hpart
  number n := .ok ⟨trivial, rfl⟩
  name id he := (meets_at (within_name.1 he) _).related
  call callee args span he := by
    obtain ⟨hspan, hcallee, -⟩ := within_call.1 he
    have hcalled : Meets (fun _ => True) (fun err => P err.span)
        (s.called scope callee args.length span) :=
      (meets_at hcallee _).bind fun f _ => meets_at hspan _
    apply hcalled.related.bind
    rintro g _ hg - ⟨-, rfl⟩
    cases depth with
    | zero => exact .error ⟨hspan, rfl⟩
    | succ depth =>
      refine .ok fun values values' hvalues => ?_
      obtain ⟨-, rfl⟩ := forall₂_same.1 hvalues
      obtain ⟨name, hname⟩ := called_eq_ok hg
      exact (hbody depth depth.lt_succ_self _ g.body (hs name g hname)).related
  signed sign e span he := by
    rintro v _ ⟨-, rfl⟩
    exact (meets_at (within_signed.1 he).1 _).related
  binary op l r span he := by
    rintro lhs _ rhs _ ⟨-, rfl⟩ ⟨-, rfl⟩ - -
    exact (meets_at (within_binary.1 he).1 _).related
  unitOf e span _ := by
    rintro v _ ⟨-, rfl⟩
    exact .ok ⟨trivial, rfl⟩

theorem evalAt_meets {s : State} (hs : s.BodiesWithin P) (depth : Nat) (scope : Scope) {e : Expr}
    (he : e.Within P) :
    Meets (fun _ => True) (fun err => P err.span) (s.evalAt depth scope e) := by
  induction depth using Nat.strongRecOn generalizing scope e with
  | ind depth ih =>
    exact (hs.preserves scope fun inner hinner scope _ h => ih inner hinner scope h).eval e he

theorem eval_error {s : State} (hs : s.BodiesWithin P) {e : Expr} (he : e.Within P)
    {err : EvalError} (h : s.eval e = .error err) : P err.span :=
  (evalAt_meets hs maxCallDepth [] he).error h

end State

/-! ### Lines -/

/-- The spans that a statement may show in an error or leave in a state. -/
def Statement.Within (P : Span → Prop) : Statement → Prop
  | .declareUnit _ s => P s
  | .declareVariable _ rhs s => rhs.Within P ∧ P s
  | .declareFunction _ _ rhs s => rhs.Within P ∧ P s
  | .print e _ => e.Within P
  | .eval e => e.Within P

theorem Statement.Within.mono {statement : Statement} (h : statement.Within P)
    (hPQ : ∀ sp, P sp → Q sp) : statement.Within Q := by
  cases statement with
  | declareUnit _ s => exact hPQ s h
  | declareVariable _ rhs s => exact ⟨h.1.mono hPQ, hPQ s h.2⟩
  | declareFunction _ _ rhs s => exact ⟨h.1.mono hPQ, hPQ s h.2⟩
  | print e _ => exact Expr.Within.mono h hPQ
  | eval e => exact Expr.Within.mono h hPQ

theorem Binding.lhs_within (hmerge : ∀ a b, P a → P b → P (a.merge b)) {b : Binding}
    (h : b.Within P) : b.lhs.Within P := by
  rw [Binding.lhs]
  cases hparams : b.params with
  | none => exact within_name.2 h.name
  | some ps =>
    have hps : ∀ p ∈ ps, P p.span := by
      have := h.params
      rwa [hparams] at this
    have hlast : P ((ps.getLast?.map (·.span)).getD b.name.span) := by
      cases hget : ps.getLast? with
      | none => exact h.name
      | some p => exact hps p (List.mem_of_getLast? hget)
    refine within_call.2 ⟨hmerge _ _ h.name hlast, h.name, fun a ha => ?_⟩
    obtain ⟨p, hp, rfl⟩ := List.mem_map.1 ha
    exact within_name.2 (hps p hp)

theorem State.resolve_within (hmerge : ∀ a b, P a → P b → P (a.merge b)) {s : State} {l : Line}
    (hl : l.Within P) {statement : Statement} (h : s.resolve l = some statement) :
    statement.Within P := by
  cases l with
  | blank => cases h
  | unit name span =>
    cases h
    exact hl.2
  | binding b =>
    cases h
    split
    · exact (closed_within hmerge).binary (Binding.lhs_within hmerge hl) hl.rhs
    · rw [Binding.asDeclaration]
      cases b.params with
      | none => exact ⟨hl.rhs, hl.span⟩
      | some ps => exact ⟨hl.rhs, hl.span⟩
  | print e span =>
    cases h
    exact hl.1
  | expr e =>
    cases h
    exact hl

namespace State

theorem Executes.bodiesWithin {s s' : State} {statement : Statement} {o : Outcome}
    (h : Executes s statement s' o) (hs : s.BodiesWithin P) (hstatement : statement.Within P) :
    s'.BodiesWithin P := by
  cases h with
  | declareFunction name params rhs span hnew =>
    intro other g hg
    rw [Table.find?_insert] at hg
    split at hg
    · cases hg
      exact hstatement.1
    · exact hs other g hg
  | declareUnit | declareVariable | print | eval => exact hs

theorem Refuses.within {s : State} {statement : Statement} {err : EvalError}
    (h : Refuses s statement err) (hs : s.BodiesWithin P) (hstatement : statement.Within P) :
    P err.span := by
  cases h with
  | takenUnit name span => exact hstatement
  | takenVariable name rhs span => exact hstatement.2
  | takenFunction name params rhs span => exact hstatement.2
  | declared name rhs span err herr => exact eval_error hs hstatement.1 herr
  | print e span err herr => exact eval_error hs hstatement herr
  | eval e err herr => exact eval_error hs hstatement herr

/-- Lines whose spans have a property that merging keeps lead to errors and bodies whose spans have
it too, or one that they had before. -/
theorem keeps_bodiesWithin (hmerge : ∀ a b, Q a → Q b → Q (a.merge b)) (hPQ : ∀ sp, Q sp → P sp) :
    Keeps (Line.Within Q) (BodiesWithin P) (fun _ => True) fun err => P err.span where
  ok hs hl h := by
    rcases runLine_eq_ok h with ⟨rfl, -⟩ | ⟨statement, hresolve, hexec⟩
    · exact ⟨hs, trivial⟩
    · exact ⟨hexec.bodiesWithin hs ((resolve_within hmerge hl hresolve).mono hPQ), trivial⟩
  error hs hl h := by
    obtain ⟨statement, hresolve, hrefuses⟩ := runLine_eq_error h
    exact hrefuses.within hs ((resolve_within hmerge hl hresolve).mono hPQ)

end State

end UnitCalc
