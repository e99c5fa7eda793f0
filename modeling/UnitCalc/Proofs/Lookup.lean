import UnitCalc.Proofs.LineByLine
import UnitCalc.Proofs.Reachable

/-! What names mean over a session. A line `x = e` asks all three tables whether `x` is taken, so
what it declares hides nothing. A line `unit x` asks the units alone: a variable of that name stays
in front of the new unit, but a function of that name is hidden by it. This is the one way in which
a name that is defined comes to mean something else. -/

namespace UnitCalc

namespace State

/-! ### Names of variables and functions -/

/-- No name is a variable and a function. -/
def Separate (s : State) : Prop :=
  ∀ name, s.vars.contains name = true → s.functions.contains name = false

theorem Executes.separate {s s' : State} {statement : Statement} {o : Outcome}
    (h : Executes s statement s' o) (hs : s.Separate) (hadmissible : statement.Admissible s) :
    s'.Separate := by
  cases h with
  | print | eval | declareUnit => exact hs
  | declareVariable name rhs span v hv =>
    obtain ⟨-, -, hfunctions⟩ := isDefined_eq_false hadmissible
    intro other hother
    rw [Table.contains_insert, Bool.or_eq_true, decide_eq_true_eq] at hother
    rcases hother with rfl | hother
    · exact hfunctions
    · exact hs other hother
  | declareFunction name params rhs span =>
    obtain ⟨-, hvars, -⟩ := isDefined_eq_false hadmissible.1
    intro other hother
    have hne : other ≠ name.name := by
      rintro rfl
      exact Bool.false_ne_true (hvars.symm.trans hother)
    rw [Table.contains_insert, decide_eq_false hne, Bool.false_or]
    exact hs other hother

theorem keeps_separate : Keeps Line.ParamsDistinct Separate (fun _ => True) fun _ => True where
  ok hs hl h := by
    refine ⟨?_, trivial⟩
    rcases runLine_eq_ok h with ⟨rfl, -⟩ | ⟨statement, hresolve, hexec⟩
    · exact hs
    · exact hexec.separate hs (resolve_admissible hl hresolve)
  error _ _ _ := trivial

theorem session_separate (precision : Nat) (sources : List String) :
    (session precision sources).Separate := by
  have hstep : ∀ s source, Separate s → Separate (s.runProgram source).1 := fun s source hs =>
    (keeps_separate.runProgram (fun _ => parseProgram_paramsDistinct) hs).1
  have hinitial : (initial precision).Separate := by
    intro name h
    cases h
  exact afterSources_induct hstep hinitial sources

/-! ### Lookup -/

theorem isDefined_of_lookup {s : State} {name : String} {v : Value}
    (h : s.lookup name = some v) : s.isDefined name = true := by
  rw [lookup] at h
  rw [isDefined]
  split at h
  · rename_i w hw
    simp [Table.contains, hw]
  · split at h
    · rename_i hunit
      simp [hunit]
    · split at h
      · rename_i hfunction
        simp [hfunction]
      · cases h

/-- A name that stands for the function of that name is neither a variable nor a unit. -/
theorem lookup_function {s : State} (hs : s.WellFormed) (hseparate : s.Separate) {name : String}
    (h : s.lookup name = some (.ofFunction name)) :
    s.vars.find? name = none ∧ s.units.contains name = false := by
  rw [lookup] at h
  cases hvar : s.vars.find? name with
  | some w =>
    rw [hvar] at h
    cases h
    have hfunction := (hs.vars name _ hvar).function name rfl
    have hnone := hseparate name (by rw [Table.contains, hvar]; rfl)
    exact absurd (hnone.symm.trans hfunction) Bool.false_ne_true
  | none =>
    rw [hvar] at h
    cases hunit : s.units.contains name with
    | false => exact ⟨rfl, rfl⟩
    | true =>
      rw [hunit] at h
      cases h

/-- A new unit stands for one of itself, unless a variable has its name. -/
theorem lookup_insertUnit (s : State) (name other : String) :
    ({ s with units := s.units.insert name () } : State).lookup other =
      if other = name ∧ s.vars.find? other = none then some (.ofUnit other)
      else s.lookup other := by
  simp only [lookup, Table.contains_insert]
  cases s.vars.find? other with
  | some v => simp
  | none => by_cases hname : other = name <;> simp [hname]

/-- A name means what it did, unless that was a function and the name is a unit by now. -/
def Means (s : State) (name : String) (v : Value) : Prop :=
  s.lookup name = some
    (if v = .ofFunction name ∧ s.units.contains name = true then .ofUnit name else v)

theorem Executes.means {s s' : State} {statement : Statement} {o : Outcome}
    (h : Executes s statement s' o) (hs : s.WellFormed) (hseparate : s.Separate)
    (hadmissible : statement.Admissible s) {name : String} {v : Value} (hv : s.Means name v) :
    s'.Means name v := by
  cases h with
  | print | eval => exact hv
  | declareUnit id span hnew =>
    rw [Means, lookup_insertUnit, Table.contains_insert]
    by_cases hname : name = id.name
    · subst hname
      rw [Means, hnew, if_neg (by simp)] at hv
      by_cases hfunction : v = .ofFunction id.name
      · have hvar := (lookup_function hs hseparate (hfunction ▸ hv)).1
        simp [hvar, hfunction]
      · -- The name was no unit and no function, so it is a variable and stays in front.
        have hvar : s.vars.find? id.name ≠ none := by
          intro hnone
          rw [State.lookup, hnone] at hv
          simp only [hnew, Bool.false_eq_true, if_false] at hv
          split at hv
          · exact hfunction (Option.some.inj hv).symm
          · cases hv
        simp [hvar, hfunction, hv]
    · rw [Means] at hv
      simpa [hname] using hv
  | declareVariable id rhs span w =>
    have hne : name ≠ id.name := by
      rintro rfl
      exact Bool.false_ne_true (hadmissible.symm.trans (isDefined_of_lookup hv))
    rw [Means, State.lookup] at hv ⊢
    rwa [Table.find?_insert, if_neg hne]
  | declareFunction id params rhs span =>
    have hne : name ≠ id.name := by
      rintro rfl
      exact Bool.false_ne_true (hadmissible.1.symm.trans (isDefined_of_lookup hv))
    rw [Means, State.lookup] at hv ⊢
    simpa [Table.contains_insert, hne] using hv

theorem keeps_means (name : String) (v : Value) :
    Keeps Line.ParamsDistinct (fun s => (s.WellFormed ∧ s.Separate) ∧ s.Means name v)
      (fun _ => True) fun _ => True where
  ok hs hl h := by
    obtain ⟨⟨hwell, hseparate⟩, hv⟩ := hs
    refine ⟨⟨⟨(keeps_wellFormed.ok hwell hl h).1, (keeps_separate.ok hseparate hl h).1⟩, ?_⟩,
      trivial⟩
    rcases runLine_eq_ok h with ⟨rfl, -⟩ | ⟨statement, hresolve, hexec⟩
    · exact hv
    · exact hexec.means hwell hseparate (resolve_admissible hl hresolve) hv
  error _ _ _ := trivial

theorem runProgram_means {s : State} (hs : s.WellFormed) (hseparate : s.Separate) {name : String}
    {v : Value} (hv : s.lookup name = some v) (source : String) :
    (s.runProgram source).1.Means name v := by
  have hmeans : s.Means name v := by
    rw [Means, if_neg, hv]
    rintro ⟨rfl, hunit⟩
    exact Bool.false_ne_true ((lookup_function hs hseparate hv).2.symm.trans hunit)
  exact ((keeps_means name v).runProgram (fun _ => parseProgram_paramsDistinct)
    ⟨⟨hs, hseparate⟩, hmeans⟩).1.2

end State

/-! ### Source lines -/

/-- The unit that a line declares. -/
def Line.declaredUnit? : Line → Option String
  | .unit name _ => some name.name
  | _ => none

/-- A line adds the unit that it declares and no other. -/
theorem State.contains_runLine (s : State) (number : Nat) (line : Line) (name : String) :
    (s.runLines number [line]).1.units.contains name =
      (s.units.contains name || decide (line.declaredUnit? = some name)) := by
  cases line with
  | unit id span =>
    simp only [runLines, runLine, resolve, execute, Line.declaredUnit?, Option.some.injEq]
    cases hunit : s.units.contains id.name with
    | true =>
      by_cases hname : id.name = name
      · simp [← hname, hunit]
      · simp [hname]
    | false => simp [Table.contains_insert, eq_comm, Bool.or_comm]
  | blank | binding | print | expr =>
    simp only [Line.declaredUnit?, reduceCtorEq, decide_false, Bool.or_false, runLines]
    split
    · rfl
    · rename_i s' o h
      rcases runLine_eq_ok h with ⟨rfl, -⟩ | ⟨statement, hresolve, hexec⟩
      · rfl
      · cases hexec with
        | declareVariable | declareFunction | print | eval => rfl
        | declareUnit => cases resolve_declareUnit hresolve

/-- The unit that a source declares if it is a line `unit x`. -/
def declaredUnit? (source : String) : Option String :=
  match Line.ofString source with
  | .ok line => line.declaredUnit?
  | .error _ => none

theorem parseProgram_line_error {source : String} (h : '\n' ∉ source.toList) {err : ParseError}
    (hline : Line.ofString source = .error err) : parseProgram source = .error [err] := by
  rw [Line.ofString_eq h] at hline
  rw [parseProgram_eq_collect, TokenLine.ofProgram, TokenLine.ofSource_eq,
    TokenLine.ofText_single h]
  simp only [List.map_cons, List.map_nil, hline]
  rfl

/-- A source of one line adds the unit that it declares and no other. -/
theorem State.contains_runProgram (s : State) {source : String} (hsource : '\n' ∉ source.toList)
    (name : String) :
    (s.runProgram source).1.units.contains name =
      (s.units.contains name || decide (declaredUnit? source = some name)) := by
  rw [runProgram, declaredUnit?]
  cases h : Line.ofString source with
  | error err =>
    rw [parseProgram_line_error hsource h]
    simp
  | ok line =>
    rw [ReadsAs.parseProgram ⟨hsource, h⟩]
    exact s.contains_runLine 1 line name

namespace State

/-- No source changes what a name means that is defined in a session, except that the name of a
function may become the name of a unit, which is then meant; and among the sources of one line this
happens with the line that declares the unit, and with no other. -/
theorem session_lookup_kept (precision : Nat) (sources : List String) {name : String} {v : Value}
    (hv : (session precision sources).lookup name = some v) (source : String) :
    let s' := ((session precision sources).runProgram source).1
    s'.lookup name = some
        (if v = .ofFunction name ∧ s'.units.contains name = true then .ofUnit name else v) ∧
      ('\n' ∉ source.toList → v = .ofFunction name →
        (s'.units.contains name = true ↔ declaredUnit? source = some name)) := by
  have hs := session_wellFormed precision sources
  have hseparate := session_separate precision sources
  refine ⟨runProgram_means hs hseparate hv source, fun hsource hfunction => ?_⟩
  have hunit := (lookup_function hs hseparate (hfunction ▸ hv)).2
  rw [contains_runProgram _ hsource, hunit, Bool.false_or, decide_eq_true_eq]

/-- The name of a function is taken over by a unit, and that of a variable is not. -/
theorem session_lookup_kept_unit :
    (session 50 ["f() = 1", "x = 2"]).lookup "f" = some (.ofFunction "f") ∧
      ((session 50 ["f() = 1", "x = 2"]).runProgram "unit f").1.lookup "f" = some (.ofUnit "f") ∧
      (session 50 ["f() = 1", "x = 2"]).lookup "x" = some ⟨.number ⟨2, 0⟩, .one⟩ ∧
      ((session 50 ["f() = 1", "x = 2"]).runProgram "unit x").1.lookup "x" =
        some ⟨.number ⟨2, 0⟩, .one⟩ := by
  have hf : (session 50 ["f() = 1", "x = 2"]).lookup "f" = some (.ofFunction "f") := by
    decide +kernel
  have hx : (session 50 ["f() = 1", "x = 2"]).lookup "x" = some ⟨.number ⟨2, 0⟩, .one⟩ := by
    decide +kernel
  obtain ⟨hmeans, hunit⟩ := session_lookup_kept 50 _ hf "unit f"
  refine ⟨hf, ?_, hx, ?_⟩
  · rw [hmeans, if_pos ⟨rfl, (hunit (by decide) rfl).2 (by decide)⟩]
  · rw [(session_lookup_kept 50 _ hx "unit x").1, if_neg (by rintro ⟨h, -⟩; cases h)]

/-- Not every line leaves the meaning of every name that is defined as it is. -/
theorem not_lookup_kept :
    ¬ ∀ precision sources source name v, '\n' ∉ source.toList →
      (session precision sources).lookup name = some v →
        ((session precision sources).runProgram source).1.lookup name = some v := by
  intro h
  have hbefore : (session 50 ["f() = 1"]).lookup "f" = some (.ofFunction "f") := by decide +kernel
  have hafter : ((session 50 ["f() = 1"]).runProgram "unit f").1.lookup "f" =
      some (.ofUnit "f") := by decide +kernel
  have hkept := h 50 ["f() = 1"] "unit f" "f" _ (by decide) hbefore
  rw [hafter] at hkept
  cases hkept

end State

end UnitCalc
