import UnitCalc.Proofs.LineGrammar
import UnitCalc.Proofs.WellFormed

/-! The states that a session can reach are well-formed. A declaration keeps a state so because a
name that is taken is not declared again: what looks like a second declaration is read as an
equation. Therefore no new variable hides a base unit in use, and no source reports a variable or a
function as declared twice. -/

namespace UnitCalc

/-! ### Declarations -/

theorem Table.contains_insert {α : Type} (t : Table α) (name other : String) (a : α) :
    (t.insert name a).contains other = (decide (other = name) || t.contains other) := by
  rw [contains, find?_insert, contains]
  split <;> simp [*]

/-- The parameters of a binding have different names. -/
def Line.ParamsDistinct : Line → Prop
  | .binding b => ((b.params.getD []).map (·.name)).Nodup
  | .blank | .unit _ _ | .print _ _ | .expr _ => True

theorem Grammar.DerivesLine.paramsDistinct {ts : List Token} {line : Line}
    (h : DerivesLine ts line) : line.ParamsDistinct := by
  cases h with
  | blank | unit | print | expr => trivial
  | binding _ hparams _ => exact hparams

/-- A statement that may be executed: a variable or a function that it declares is new, and its
parameters have different names. -/
def Statement.Admissible (s : State) : Statement → Prop
  | .declareVariable name _ _ => s.isDefined name.name = false
  | .declareFunction name params _ _ =>
    s.isDefined name.name = false ∧ (params.map (·.name)).Nodup
  | .declareUnit _ _ | .print _ _ | .eval _ => True

namespace State

theorem resolve_admissible {s : State} {l : Line} (hl : l.ParamsDistinct) {statement : Statement}
    (h : s.resolve l = some statement) : statement.Admissible s := by
  cases l with
  | blank => cases h
  | unit | print | expr =>
    cases h
    trivial
  | binding b =>
    cases h
    split
    · trivial
    · rename_i hdefined
      obtain ⟨name, params, rhs, span⟩ := b
      have hfree : s.isDefined name.name = false := Bool.eq_false_iff.2 hdefined
      cases params with
      | none => exact hfree
      | some ps => exact ⟨hfree, hl⟩

theorem isDefined_eq_false {s : State} {name : String} (h : s.isDefined name = false) :
    s.units.contains name = false ∧ s.vars.contains name = false ∧
      s.functions.contains name = false := by
  simpa [isDefined, and_assoc] using h

/-- A value still makes sense when more is declared, as long as no unit gets hidden. -/
theorem wellFormed_mono {s s' : State} {v : Value} (hv : v.WellFormed s)
    (hbases : ∀ name, s.IsBase name → s'.IsBase name)
    (hfunctions : ∀ name, s.functions.contains name = true → s'.functions.contains name = true) :
    v.WellFormed s' where
  bases := hv.bases.mono hbases
  plain := hv.plain
  function := fun name h => hfunctions name (hv.function name h)

theorem Executes.wellFormed {s s' : State} {statement : Statement} {o : Outcome}
    (h : Executes s statement s' o) (hs : s.WellFormed) (hadmissible : statement.Admissible s) :
    s'.WellFormed := by
  cases h with
  | print | eval => exact hs
  | declareUnit name span =>
    refine ⟨fun other v hv => ?_, hs.params, hs.precision⟩
    refine wellFormed_mono (hs.vars other v hv) (fun base hbase => ⟨?_, hbase.2⟩) fun _ h => h
    rw [Table.contains_insert, hbase.1, Bool.or_true]
  | declareVariable name rhs span v hv =>
    obtain ⟨hunits, -, -⟩ := isDefined_eq_false hadmissible
    -- The name is no unit, so the new variable hides none of the base units in use.
    have hbases : ∀ base, s.IsBase base →
        ({ s with vars := s.vars.insert name.name v } : State).IsBase base := by
      rintro base ⟨hunit, hfree⟩
      refine ⟨hunit, ?_⟩
      have hne : base ≠ name.name := by
        rintro rfl
        exact Bool.false_ne_true (hunits.symm.trans hunit)
      simp [Table.contains_insert, hne, hfree]
    refine ⟨fun other w hw => ?_, hs.params, hs.precision⟩
    rw [Table.find?_insert] at hw
    split at hw
    · cases hw
      exact wellFormed_mono ((hs.eval rhs).ok hv) hbases fun _ h => h
    · exact wellFormed_mono (hs.vars other w hw) hbases fun _ h => h
  | declareFunction name params rhs span =>
    refine ⟨fun other v hv => ?_, fun other g hg => ?_, hs.precision⟩
    · refine wellFormed_mono (hs.vars other v hv) (fun _ h => h) fun base hbase => ?_
      rw [Table.contains_insert, hbase, Bool.or_true]
    · rw [Table.find?_insert] at hg
      split at hg
      · cases hg
        exact hadmissible.2
      · exact hs.params other g hg

/-- A fault that says that a variable or a function is declared twice. -/
def Redefines (f : Fault) : Prop :=
  ∃ name, f = .variableRedefined name ∨ f = .functionRedefined name

theorem not_redefines {s : State} {f : Fault} (h : s.Calculates f) : ¬ Redefines f := by
  rintro ⟨name, rfl | rfl⟩ <;> cases h

theorem Refuses.not_redefines {s : State} {statement : Statement} {err : EvalError}
    (h : Refuses s statement err) (hs : s.WellFormed) (hadmissible : statement.Admissible s) :
    ¬ Redefines err.fault := by
  cases h with
  | takenUnit name span =>
    rintro ⟨other, heq | heq⟩ <;> cases heq
  | takenVariable name rhs span v _ htaken =>
    obtain ⟨-, hfree, -⟩ := isDefined_eq_false hadmissible
    exact absurd (hfree.symm.trans htaken) Bool.false_ne_true
  | takenFunction name params rhs span htaken =>
    obtain ⟨-, -, hfree⟩ := isDefined_eq_false hadmissible.1
    exact absurd (hfree.symm.trans htaken) Bool.false_ne_true
  | declared name rhs span err herr => exact State.not_redefines ((hs.eval rhs).error herr)
  | print e span err herr => exact State.not_redefines ((hs.eval e).error herr)
  | eval e err herr => exact State.not_redefines ((hs.eval e).error herr)

theorem keeps_wellFormed :
    Keeps Line.ParamsDistinct WellFormed (fun _ => True) fun err => ¬ Redefines err.fault where
  ok hs hl h := by
    rcases runLine_eq_ok h with ⟨rfl, -⟩ | ⟨statement, hresolve, hexec⟩
    · exact ⟨hs, trivial⟩
    · exact ⟨hexec.wellFormed hs (resolve_admissible hl hresolve), trivial⟩
  error hs hl h := by
    obtain ⟨statement, hresolve, hrefuses⟩ := runLine_eq_error h
    exact hrefuses.not_redefines hs (resolve_admissible hl hresolve)

/-! ### Sessions -/

theorem parseProgram_paramsDistinct {source : String} {lines : List Line}
    (h : parseProgram source = .ok lines) : ∀ l ∈ lines, l.ParamsDistinct := by
  intro l hl
  obtain ⟨tl, -, hline⟩ := parseProgram_derives h l hl
  exact hline.paramsDistinct

theorem runProgram_wellFormed {s : State} (hs : s.WellFormed) (source : String) :
    (s.runProgram source).1.WellFormed ∧
      ∀ k err, (s.runProgram source).2 = .error (.eval k err) → ¬ Redefines err.fault :=
  keeps_wellFormed.runProgram (fun _ => parseProgram_paramsDistinct) hs

theorem initial_wellFormed (precision : Nat) : (initial precision).WellFormed := by
  refine ⟨nofun, nofun, ?_⟩
  simp only [initial, clampPrecision, maxPrecision]
  omega

/-- The state that a session leaves which starts with nothing declared. -/
def session (precision : Nat) (sources : List String) : State :=
  (initial precision).afterSources sources

theorem session_wellFormed (precision : Nat) (sources : List String) :
    (session precision sources).WellFormed := by
  refine afterSources_induct (fun s source hs => ?_) (initial_wellFormed precision) sources
  exact (runProgram_wellFormed hs source).1

/-- In every state that a session reaches, the values of variables and of expressions are
well-formed, no source reports a variable or a function as declared twice, and no call fails to
find the function that its name stands for. -/
theorem reachable_wellFormed (precision : Nat) (sources : List String) :
    (session precision sources).WellFormed ∧
      (∀ e v, (session precision sources).eval e = .ok v →
        v.WellFormed (session precision sources)) ∧
      (∀ source k err, ((session precision sources).runProgram source).2 = .error (.eval k err) →
        ∀ name, err.fault ≠ .variableRedefined name ∧ err.fault ≠ .functionRedefined name) ∧
      ∀ e scope callee args span f,
        (session precision sources).Visits maxCallDepth [] e scope (.call callee args span) →
        (session precision sources).evalName scope callee.name = .ok f →
        ∀ name, (session precision sources).callable f ≠ .error (.undefinedName name) := by
  have hs := session_wellFormed precision sources
  refine ⟨hs, fun e v => (hs.eval e).ok, ?_, ?_⟩
  · intro source k err herr name
    have hnot := (runProgram_wellFormed hs source).2 k err herr
    exact ⟨fun heq => hnot ⟨name, .inl heq⟩, fun heq => hnot ⟨name, .inr heq⟩⟩
  · intro e scope callee args span f hvisits hf
    exact hvisits.callable_ne hs hf

end State

end UnitCalc
