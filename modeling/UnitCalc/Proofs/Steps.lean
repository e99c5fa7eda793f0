import UnitCalc.Program.Basic
import UnitCalc.Proofs.Evaluators

/-! What running can do to a state. Each way in which a statement succeeds and each way in which it
fails is a case of its own, and the induction over the lines of a program and over the sources of a
session is done here once. An invariant of runs then comes down to one line. -/

namespace UnitCalc

theorem locate_ok {α : Type} {span : Span} {x : Except Fault α} {a : α}
    (h : locate span x = .ok a) : x = .ok a := by
  cases x with
  | ok b =>
    cases h
    rfl
  | error f => cases h

namespace State

/-! ### Calls -/

theorem callableWith_eq_ok {s : State} {callee : Value} {count : Nat} {g : Function}
    (h : s.callableWith callee count = .ok g) :
    g.params.length = count ∧ ∃ name, s.functions.find? name = some g := by
  obtain ⟨⟨name, g'⟩, hcallable, h⟩ := bind_eq_ok.1 h
  simp only at h
  split at h
  · rename_i hcount
    cases h
    rw [callable] at hcallable
    split at hcallable
    · split at hcallable
      · rename_i hfind
        cases hcallable
        exact ⟨hcount, _, hfind⟩
      · cases hcallable
    · cases hcallable
  · cases h

/-- Only declared functions are called. -/
theorem called_eq_ok {s : State} {scope : Scope} {callee : Ident} {count : Nat} {span : Span}
    {g : Function} (h : s.called scope callee count span = .ok g) :
    ∃ name, s.functions.find? name = some g := by
  obtain ⟨f, -, hf⟩ := bind_eq_ok.1 h
  exact (callableWith_eq_ok (locate_ok hf)).2

/-! ### Statements -/

/-- A statement succeeds: the state that it leads to and what it gives. -/
inductive Executes (s : State) : Statement → State → Outcome → Prop where
  | declareUnit (name : Ident) (span : Span) (hnew : s.units.contains name.name = false) :
      Executes s (.declareUnit name span) { s with units := s.units.insert name.name () } .empty
  | declareVariable (name : Ident) (rhs : Expr) (span : Span) (v : Value) (hv : s.eval rhs = .ok v)
      (hnew : s.vars.contains name.name = false) :
      Executes s (.declareVariable name rhs span) { s with vars := s.vars.insert name.name v }
        (.value v)
  | declareFunction (name : Ident) (params : List Ident) (rhs : Expr) (span : Span)
      (hnew : s.functions.contains name.name = false) :
      Executes s (.declareFunction name params rhs span)
        { s with functions := s.functions.insert name.name ⟨params.map (·.name), rhs⟩ } .empty
  | print (e : Expr) (span : Span) (v : Value) (hv : s.eval e = .ok v) :
      Executes s (.print e span) s (.printed e v)
  | eval (e : Expr) (v : Value) (hv : s.eval e = .ok v) : Executes s (.eval e) s (.value v)

theorem executes_of_execute {s s' : State} {statement : Statement} {o : Outcome}
    (h : s.execute statement = .ok (s', o)) : Executes s statement s' o := by
  cases statement with
  | declareUnit name span =>
    rw [execute] at h
    split at h
    · cases h
    · rename_i hnew
      cases h
      exact .declareUnit name span (Bool.eq_false_iff.2 hnew)
  | declareVariable name rhs span =>
    obtain ⟨v, hv, h⟩ := bind_eq_ok.1 h
    split at h
    · cases h
    · rename_i hnew
      cases h
      exact .declareVariable name rhs span v hv (Bool.eq_false_iff.2 hnew)
  | declareFunction name params rhs span =>
    rw [execute] at h
    split at h
    · cases h
    · rename_i hnew
      cases h
      exact .declareFunction name params rhs span (Bool.eq_false_iff.2 hnew)
  | print e span =>
    obtain ⟨v, hv, h⟩ := bind_eq_ok.1 h
    cases h
    exact .print e span v hv
  | eval e =>
    obtain ⟨v, hv, h⟩ := bind_eq_ok.1 h
    cases h
    exact .eval e v hv

/-- A statement fails: its expression does, or the name is taken. -/
inductive Refuses (s : State) : Statement → EvalError → Prop where
  | takenUnit (name : Ident) (span : Span) (htaken : s.units.contains name.name = true) :
      Refuses s (.declareUnit name span) ⟨.unitRedeclared name.name, span⟩
  | takenVariable (name : Ident) (rhs : Expr) (span : Span) (v : Value) (hv : s.eval rhs = .ok v)
      (htaken : s.vars.contains name.name = true) :
      Refuses s (.declareVariable name rhs span) ⟨.variableRedefined name.name, span⟩
  | takenFunction (name : Ident) (params : List Ident) (rhs : Expr) (span : Span)
      (htaken : s.functions.contains name.name = true) :
      Refuses s (.declareFunction name params rhs span) ⟨.functionRedefined name.name, span⟩
  | declared (name : Ident) (rhs : Expr) (span : Span) (err : EvalError)
      (herr : s.eval rhs = .error err) : Refuses s (.declareVariable name rhs span) err
  | print (e : Expr) (span : Span) (err : EvalError) (herr : s.eval e = .error err) :
      Refuses s (.print e span) err
  | eval (e : Expr) (err : EvalError) (herr : s.eval e = .error err) : Refuses s (.eval e) err

theorem refuses_of_execute {s : State} {statement : Statement} {err : EvalError}
    (h : s.execute statement = .error err) : Refuses s statement err := by
  cases statement with
  | declareUnit name span =>
    rw [execute] at h
    split at h
    · rename_i htaken
      cases h
      exact .takenUnit name span htaken
    · cases h
  | declareVariable name rhs span =>
    rcases bind_eq_error.1 h with herr | ⟨v, hv, h⟩
    · exact .declared name rhs span err herr
    · split at h
      · rename_i htaken
        cases h
        exact .takenVariable name rhs span v hv htaken
      · cases h
  | declareFunction name params rhs span =>
    rw [execute] at h
    split at h
    · rename_i htaken
      cases h
      exact .takenFunction name params rhs span htaken
    · cases h
  | print e span =>
    rcases bind_eq_error.1 h with herr | ⟨v, hv, h⟩
    · exact .print e span err herr
    · cases h
  | eval e =>
    rcases bind_eq_error.1 h with herr | ⟨v, hv, h⟩
    · exact .eval e err herr
    · cases h

/-- A line is blank and does nothing, or it is run as the statement it resolves to. -/
theorem runLine_eq_ok {s s' : State} {l : Line} {o : Outcome} (h : s.runLine l = .ok (s', o)) :
    (s' = s ∧ o = .empty) ∨ ∃ statement, s.resolve l = some statement ∧
      Executes s statement s' o := by
  rw [runLine] at h
  split at h
  · cases h
    exact .inl ⟨rfl, rfl⟩
  · rename_i statement hresolve
    exact .inr ⟨statement, hresolve, executes_of_execute h⟩

theorem runLine_eq_error {s : State} {l : Line} {err : EvalError}
    (h : s.runLine l = .error err) :
    ∃ statement, s.resolve l = some statement ∧ Refuses s statement err := by
  rw [runLine] at h
  split at h
  · cases h
  · rename_i statement hresolve
    exact ⟨statement, hresolve, refuses_of_execute h⟩

/-- Only the line that says so declares a unit. -/
theorem resolve_declareUnit {s : State} {l : Line} {name : Ident} {span : Span}
    (h : s.resolve l = some (.declareUnit name span)) : l = .unit name span := by
  cases l with
  | blank | print | expr => cases h
  | unit =>
    cases h
    rfl
  | binding b =>
    obtain ⟨other, params, rhs, whole⟩ := b
    rw [resolve] at h
    split at h
    · cases h
    · cases params <;> cases h

/-! ### Programs -/

/-- An invariant of states, with what it guarantees of the outcomes and errors of lines. -/
structure Keeps (line : Line → Prop) (state : State → Prop) (outcome : Outcome → Prop)
    (error : EvalError → Prop) : Prop where
  ok : ∀ {s s' : State} {l : Line} {o : Outcome}, state s → line l → s.runLine l = .ok (s', o) →
    state s' ∧ outcome o
  error : ∀ {s : State} {l : Line} {err : EvalError}, state s → line l →
    s.runLine l = .error err → error err

section Runs

variable {line : Line → Prop} {state : State → Prop} {outcome : Outcome → Prop}
  {error : EvalError → Prop}

theorem Keeps.runLines (h : Keeps line state outcome error) {s : State} (hs : state s)
    {ls : List Line} (hls : ∀ l ∈ ls, line l) (number : Nat) :
    state (s.runLines number ls).1 ∧
      (∀ os, (s.runLines number ls).2 = .ok os → ∀ o ∈ os, outcome o) ∧
      ∀ err, (s.runLines number ls).2 = .error err → ∃ k e, err = .eval k e ∧ error e := by
  induction ls generalizing s number with
  | nil =>
    refine ⟨hs, ?_, ?_⟩
    · rintro _ ⟨⟩ o ho
      cases ho
    · rintro _ ⟨⟩
  | cons l ls ih =>
    have hl := hls l List.mem_cons_self
    rw [State.runLines]
    cases hline : s.runLine l with
    | error e =>
      refine ⟨hs, ?_, ?_⟩
      · rintro _ ⟨⟩
      · rintro _ ⟨⟩
        exact ⟨number, e, rfl, h.error hs hl hline⟩
    | ok r =>
      obtain ⟨s', o⟩ := r
      obtain ⟨hs', ho⟩ := h.ok hs hl hline
      obtain ⟨hfinal, hoks, herrors⟩ := ih hs' (fun l' hl' => hls l' (List.mem_cons_of_mem l hl'))
        (number + 1)
      refine ⟨hfinal, ?_, ?_⟩
      · intro os hos
        obtain ⟨os', hos', rfl⟩ := map_eq_ok.1 hos
        intro o' ho'
        rcases List.mem_cons.1 ho' with rfl | ho'
        · exact ho
        · exact hoks os' hos' o' ho'
      · intro err herr
        exact herrors err (map_eq_error.1 herr)

/-- A program that cannot be read changes nothing, and the lines of any other keep the invariant. -/
theorem Keeps.runProgram (h : Keeps line state outcome error) {source : String}
    (hlines : ∀ lines, parseProgram source = .ok lines → ∀ l ∈ lines, line l) {s : State}
    (hs : state s) :
    state (s.runProgram source).1 ∧
      ∀ k err, (s.runProgram source).2 = .error (.eval k err) → error err := by
  rw [State.runProgram]
  cases hparse : parseProgram source with
  | error errors =>
    refine ⟨hs, ?_⟩
    rintro k err ⟨⟩
  | ok lines =>
    obtain ⟨hfinal, -, herrors⟩ := h.runLines hs (hlines lines hparse) 1
    refine ⟨hfinal, fun k err herr => ?_⟩
    obtain ⟨k', err', heq, herror⟩ := herrors _ herr
    cases heq
    exact herror

end Runs

/-! ### Sessions -/

/-- The state after sources have been run one after the other, whether they failed or not. -/
def afterSources (s : State) (sources : List String) : State :=
  sources.foldl (fun s source => (s.runProgram source).1) s

/-- What holds at the start and is kept by every source holds after all of them. -/
theorem afterSources_induct {invariant : State → Prop}
    (hstep : ∀ s source, invariant s → invariant (s.runProgram source).1) {s : State}
    (hs : invariant s) (sources : List String) : invariant (s.afterSources sources) := by
  induction sources generalizing s with
  | nil => exact hs
  | cons source sources ih => exact ih (hstep s source hs)

end State

end UnitCalc
