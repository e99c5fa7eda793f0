import UnitCalc.Proofs.LineByLine
import UnitCalc.Proofs.Reachable

/-! What a step leaves behind. A statement that fails leaves the state as it was, and one that
succeeds adds at most one entry to the tables and takes none away. For programs this means that one
that cannot be read changes nothing, and that one that fails in a line leaves exactly what the lines
before it have declared. -/

namespace UnitCalc

/-- What the tables of a state hold. -/
inductive Entry where
  | unit (name : String)
  | var (name : String) (v : Value)
  | function (name : String) (f : Function)

namespace Table

/-- A set does not change when a member is put into it. -/
theorem insert_member {t : Table Unit} {name : String} (h : t.contains name = true) :
    t.insert name () = t := by
  apply ext_find?
  intro other
  rw [find?_insert]
  split
  · rename_i hname
    obtain ⟨a, ha⟩ := Option.isSome_iff_exists.1 h
    rw [hname, ha]
  · rfl

variable {α : Type}

/-- A table with one more entry finds that one and those that were there. -/
theorem find?_insert_cases {t : Table α} {name other : String} {a b : α}
    (h : (t.insert name a).find? other = some b) :
    t.find? other = some b ∨ other = name ∧ b = a := by
  rw [find?_insert] at h
  split at h
  · rename_i hname
    exact .inr ⟨hname, (Option.some.inj h).symm⟩
  · exact .inl h

end Table

namespace State

def Holds (s : State) : Entry → Prop
  | .unit name => s.units.contains name = true
  | .var name v => s.vars.find? name = some v
  | .function name f => s.functions.find? name = some f

/-- A later state has the entries of an earlier one, at most one more, and the same precision. -/
structure Grows (s s' : State) : Prop where
  kept : ∀ entry, s.Holds entry → s'.Holds entry
  added : ∃ new, ∀ entry, s'.Holds entry → s.Holds entry ∨ entry = new
  precision : s'.precision = s.precision

theorem Grows.refl (s : State) : s.Grows s where
  kept _ h := h
  added := ⟨.unit "", fun _ h => .inl h⟩
  precision := rfl

/-! ### Statements -/

theorem Executes.grows {s s' : State} {statement : Statement} {o : Outcome}
    (h : Executes s statement s' o) : s.Grows s' := by
  cases h with
  | print | eval => exact .refl s
  | declareUnit name span =>
    refine ⟨fun entry hentry => ?_, ⟨.unit name.name, fun entry hentry => ?_⟩, rfl⟩
    · cases entry with
      | unit other =>
        have hother : s.units.contains other = true := hentry
        simp [Holds, Table.contains_insert, hother]
      | var | function => exact hentry
    · cases entry with
      | unit other =>
        simp only [Holds, Table.contains_insert, Bool.or_eq_true, decide_eq_true_eq] at hentry
        exact hentry.symm.imp_right fun hother => by rw [hother]
      | var | function => exact .inl hentry
  | declareVariable name rhs span v hv hnew =>
    refine ⟨fun entry hentry => ?_, ⟨.var name.name v, fun entry hentry => ?_⟩, rfl⟩
    · cases entry with
      | var other w => exact Table.find?_insert_new hnew hentry
      | unit | function => exact hentry
    · cases entry with
      | var other w =>
        rcases Table.find?_insert_cases hentry with hold | ⟨rfl, rfl⟩
        · exact .inl hold
        · exact .inr rfl
      | unit | function => exact .inl hentry
  | declareFunction name params rhs span hnew =>
    refine ⟨fun entry hentry => ?_, ⟨.function name.name ⟨params.map (·.name), rhs⟩,
      fun entry hentry => ?_⟩, rfl⟩
    · cases entry with
      | function other g => exact Table.find?_insert_new hnew hentry
      | unit | var => exact hentry
    · cases entry with
      | function other g =>
        rcases Table.find?_insert_cases hentry with hold | ⟨rfl, rfl⟩
        · exact .inl hold
        · exact .inr rfl
      | unit | var => exact .inl hentry

theorem runLine_grows {s s' : State} {l : Line} {o : Outcome} (h : s.runLine l = .ok (s', o)) :
    s.Grows s' := by
  rcases runLine_eq_ok h with ⟨rfl, -⟩ | ⟨statement, -, hexec⟩
  · exact .refl s'
  · exact hexec.grows

/-! ### Statements in place -/

/-- Executes a statement on tables that are changed in place, and gives what is left of them even
if it fails. A unit goes into the set of units before it is known whether it was there. -/
def executeInPlace (s : State) : Statement → State × Except EvalError Outcome
  | .declareUnit name span =>
    let s' := { s with units := s.units.insert name.name () }
    if s.units.contains name.name then (s', .error ⟨.unitRedeclared name.name, span⟩)
    else (s', .ok .empty)
  | .declareVariable name rhs span =>
    match s.eval rhs with
    | .error err => (s, .error err)
    | .ok v =>
      if s.vars.contains name.name then (s, .error ⟨.variableRedefined name.name, span⟩)
      else ({ s with vars := s.vars.insert name.name v }, .ok (.value v))
  | .declareFunction name params rhs span =>
    if s.functions.contains name.name then (s, .error ⟨.functionRedefined name.name, span⟩)
    else
      let f : Function := ⟨params.map (·.name), rhs⟩
      ({ s with functions := s.functions.insert name.name f }, .ok .empty)
  | .print e _ =>
    match s.eval e with
    | .error err => (s, .error err)
    | .ok v => (s, .ok (.printed e v))
  | .eval e =>
    match s.eval e with
    | .error err => (s, .error err)
    | .ok v => (s, .ok (.value v))

theorem executeInPlace_ok {s s' : State} {statement : Statement} {o : Outcome}
    (h : s.execute statement = .ok (s', o)) : s.executeInPlace statement = (s', .ok o) := by
  cases executes_of_execute h with
  | declareUnit name span hnew => simp [executeInPlace, hnew]
  | declareVariable name rhs span v hv hnew => simp [executeInPlace, hv, hnew]
  | declareFunction name params rhs span hnew => simp [executeInPlace, hnew]
  | print e span v hv => simp [executeInPlace, hv]
  | eval e v hv => simp [executeInPlace, hv]

/-- A statement that fails leaves the state as it was. -/
theorem executeInPlace_error {s : State} {statement : Statement} {err : EvalError}
    (h : s.execute statement = .error err) : s.executeInPlace statement = (s, .error err) := by
  cases refuses_of_execute h with
  | takenUnit name span htaken => simp [executeInPlace, htaken, Table.insert_member htaken]
  | takenVariable name rhs span v hv htaken => simp [executeInPlace, hv, htaken]
  | takenFunction name params rhs span htaken => simp [executeInPlace, htaken]
  | declared name rhs span err herr => simp [executeInPlace, herr]
  | print e span err herr => simp [executeInPlace, herr]
  | eval e err herr => simp [executeInPlace, herr]

/-! ### Programs -/

/-- A run that fails stops in the state that the lines before the failing one lead to. -/
theorem runLines_eq_error {s s' : State} {number k : Nat} {lines : List Line} {err : EvalError}
    (h : s.runLines number lines = (s', .error (.eval k err))) :
    ∃ before line after os, lines = before ++ line :: after ∧ number + before.length = k ∧
      s.runLines number before = (s', .ok os) ∧ s'.runLine line = .error err := by
  induction lines generalizing s number with
  | nil => cases h
  | cons line lines ih =>
    rw [runLines] at h
    cases hline : s.runLine line with
    | error e =>
      rw [hline] at h
      cases h
      exact ⟨[], line, lines, [], rfl, rfl, rfl, hline⟩
    | ok r =>
      obtain ⟨s₁, o⟩ := r
      rw [hline] at h
      obtain ⟨hstate, hresult⟩ := Prod.mk.inj h
      have hrest : s₁.runLines (number + 1) lines = (s', .error (.eval k err)) :=
        Prod.ext hstate (map_eq_error.1 hresult)
      obtain ⟨before, failed, after, os, rfl, rfl, hbefore, hfailed⟩ := ih hrest
      refine ⟨line :: before, failed, after, o :: os, rfl, ?_, ?_, hfailed⟩
      · rw [List.length_cons]
        omega
      · rw [runLines, hline]
        simp only [hbefore]
        rfl

/-- What fails changes nothing, and what succeeds only adds. A statement that is executed in place
has the result of `execute`, and when it fails the state is as before; a statement or a line that
succeeds adds at most one entry. A program that cannot be read leaves the state as it was, and one
that fails in a line leaves it as the lines before have made it. -/
theorem execution_atomic (s : State) :
    (∀ statement, s.executeInPlace statement =
        match s.execute statement with
        | .ok (s', o) => (s', .ok o)
        | .error err => (s, .error err)) ∧
      (∀ statement s' o, s.execute statement = .ok (s', o) → s.Grows s') ∧
      (∀ line s' o, s.runLine line = .ok (s', o) → s.Grows s') ∧
      (∀ line number err, s.runLine line = .error err →
        s.runLines number [line] = (s, .error (.eval number err))) ∧
      (∀ source errors, (s.runProgram source).2 = .error (.parse errors) →
        (s.runProgram source).1 = s) ∧
      ∀ source k err, (s.runProgram source).2 = .error (.eval k err) →
        ∃ before line after os, parseProgram source = .ok (before ++ line :: after) ∧
          before.length + 1 = k ∧ s.runLines 1 before = ((s.runProgram source).1, .ok os) ∧
          (s.runProgram source).1.runLine line = .error err := by
  refine ⟨fun statement => ?_, fun statement s' o h => (executes_of_execute h).grows,
    fun line s' o h => runLine_grows h, fun line number err h => ?_, fun source errors h => ?_,
    fun source k err h => ?_⟩
  · cases h : s.execute statement with
    | ok r => exact executeInPlace_ok h
    | error err => exact executeInPlace_error h
  · rw [runLines, h]
  · rw [runProgram] at h ⊢
    cases hparse : parseProgram source with
    | error es => rfl
    | ok lines =>
      rw [hparse] at h
      obtain ⟨k, e, heq⟩ := runLines_error h
      cases heq
  · rw [runProgram] at h ⊢
    cases hparse : parseProgram source with
    | error es =>
      rw [hparse] at h
      cases h
    | ok lines =>
      rw [hparse] at h
      obtain ⟨before, line, after, os, rfl, hk, hbefore, hline⟩ :=
        runLines_eq_error (Prod.ext rfl h)
      exact ⟨before, line, after, os, rfl, by omega, hbefore, hline⟩

end State

end UnitCalc
