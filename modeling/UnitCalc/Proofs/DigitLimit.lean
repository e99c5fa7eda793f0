import UnitCalc.Proofs.NumberFlow
import UnitCalc.Proofs.Recognition

/-! The limit of digits over a whole session. Literals are checked when they are read, so numbers
beyond the limit come from scaled names only, and once one is stored in a variable it can be scaled
again. The main result says for which sessions all variables and all outcomes keep the limit: those
that retain no value of a name that scales beyond it. -/

namespace UnitCalc

open Grammar

/-! ### Literals -/

theorem closed_literalsWithin : Closed (fun _ => True) Expr.LiteralsWithin where
  number _ _ _ hd := .number hd
  name _ _ := .name
  call _ _ _ hargs := .call hargs
  signed _ he := .signed he
  binary hl hr := .binary hl hr
  paren _ _ he := .paren he
  unitOf _ _ he := .unitOf he

theorem Grammar.Derives.literalsWithin {l : Level} {ts rest : List Token} {e : Expr}
    (h : Derives l ts e rest) : e.LiteralsWithin :=
  h.closed closed_literalsWithin fun _ _ => trivial

/-- The literals of a line are within the limit. -/
def Line.LiteralsWithin : Line → Prop
  | .blank | .unit _ _ => True
  | .binding b => b.rhs.LiteralsWithin
  | .print e _ | .expr e => e.LiteralsWithin

def Statement.LiteralsWithin : Statement → Prop
  | .declareUnit _ _ => True
  | .declareVariable _ rhs _ | .declareFunction _ _ rhs _ => rhs.LiteralsWithin
  | .print e _ | .eval e => e.LiteralsWithin

theorem parseProgram_literalsWithin {source : String} {lines : List Line}
    (h : parseProgram source = .ok lines) : ∀ l ∈ lines, l.LiteralsWithin := by
  intro l hl
  obtain ⟨tl, -, hparse⟩ := parseProgram_eq_ok h l hl
  cases Line.reads_of_parseTokens hparse with
  | blank | unit => trivial
  | print _ _ he => exact he.literalsWithin
  | binding _ he => exact he.literalsWithin
  | expr he => exact he.literalsWithin

theorem Binding.lhs_literalsWithin (b : Binding) : b.lhs.LiteralsWithin := by
  rw [Binding.lhs]
  cases b.params with
  | none => exact .name
  | some params =>
    refine .call fun a ha => ?_
    obtain ⟨p, -, rfl⟩ := List.mem_map.1 ha
    exact .name

theorem State.resolve_literalsWithin {s : State} {l : Line} (hl : l.LiteralsWithin)
    {statement : Statement} (h : s.resolve l = some statement) : statement.LiteralsWithin := by
  cases l with
  | blank => cases h
  | unit name span =>
    cases h
    trivial
  | binding b =>
    cases h
    split
    · exact .binary b.lhs_literalsWithin hl
    · rw [Binding.asDeclaration]
      cases b.params with
      | none => exact hl
      | some params => exact hl
  | print e span =>
    cases h
    exact hl
  | expr e =>
    cases h
    exact hl

/-! ### Statements -/

/-- The expression that a statement evaluates when it runs. -/
def Statement.evaluated? : Statement → Option Expr
  | .declareVariable _ rhs _ => some rhs
  | .print e _ | .eval e => some e
  | .declareUnit _ _ | .declareFunction _ _ _ _ => none

/-- Whether the value is stored, and stays even if a later line fails. -/
def Statement.stores : Statement → Bool
  | .declareVariable _ _ _ => true
  | .declareUnit _ _ | .declareFunction _ _ _ _ | .print _ _ | .eval _ => false

theorem Statement.LiteralsWithin.evaluated {statement : Statement} (h : statement.LiteralsWithin)
    {e : Expr} (he : statement.evaluated? = some e) : e.LiteralsWithin := by
  cases statement with
  | declareUnit | declareFunction => cases he
  | declareVariable | print | eval =>
    cases he
    exact h

/-- The numbers of an outcome are within the limit. -/
def Outcome.WithinLimit : Outcome → Prop
  | .empty => True
  | .value v => v.withinLimit = true
  | .printed e v => e.LiteralsWithin ∧ v.withinLimit = true

/-- An outcome is the value of an expression, with the expression or without. -/
def Outcome.Of (e : Expr) (v : Value) (o : Outcome) : Prop := o = .value v ∨ o = .printed e v

theorem Outcome.Of.withinLimit {e : Expr} {v : Value} {o : Outcome} (h : o.Of e v)
    (he : e.LiteralsWithin) (hv : v.withinLimit = true) : o.WithinLimit := by
  rcases h with rfl | rfl
  · exact hv
  · exact ⟨he, hv⟩

theorem Outcome.Of.value_withinLimit {e : Expr} {v : Value} {o : Outcome} (h : o.Of e v)
    (ho : o.WithinLimit) : v.withinLimit = true := by
  rcases h with rfl | rfl
  · exact ho
  · exact ho.2

namespace State

theorem Executes.evaluated {s s' : State} {statement : Statement} {o : Outcome}
    (h : Executes s statement s' o) {e : Expr} (he : statement.evaluated? = some e) :
    ∃ v, s.eval e = .ok v ∧ o.Of e v := by
  cases h with
  | declareUnit | declareFunction => cases he
  | declareVariable name rhs span v hv =>
    cases he
    exact ⟨v, hv, .inl rfl⟩
  | print e span v hv =>
    cases he
    exact ⟨v, hv, .inr rfl⟩
  | eval e v hv =>
    cases he
    exact ⟨v, hv, .inl rfl⟩

theorem Executes.outcome {s s' : State} {statement : Statement} {o : Outcome}
    (h : Executes s statement s' o) :
    o = .empty ∨ ∃ e, statement.evaluated? = some e := by
  cases h with
  | declareUnit | declareFunction => exact .inl rfl
  | declareVariable name rhs => exact .inr ⟨rhs, rfl⟩
  | print e => exact .inr ⟨e, rfl⟩
  | eval e => exact .inr ⟨e, rfl⟩

/-- A state stays bounded unless a variable takes an oversized value. -/
theorem Executes.bounded {s s' : State} {statement : Statement} {o : Outcome}
    (h : Executes s statement s' o) (hs : s.Bounded) (hliterals : statement.LiteralsWithin)
    (hno : ∀ e, statement.stores = true → statement.evaluated? = some e → ¬ s.Overflows e) :
    s'.Bounded := by
  cases h with
  | declareUnit | print | eval => exact ⟨hs.vars, hs.bodies⟩
  | declareVariable name rhs span v hv =>
    refine ⟨fun other w hw => ?_, hs.bodies⟩
    rw [Table.find?_insert] at hw
    split at hw
    · cases hw
      exact hs.withinLimit hliterals hv (hno rhs rfl rfl)
    · exact hs.vars other w hw
  | declareFunction name params rhs span =>
    refine ⟨hs.vars, fun other g hg => ?_⟩
    rw [Table.find?_insert] at hg
    split at hg
    · cases hg
      exact hliterals
    · exact hs.bodies other g hg

/-- A variable keeps its value. -/
theorem keeps_variable (name : String) (v : Value) :
    Keeps (fun _ => True) (fun s => s.vars.find? name = some v) (fun _ => True) fun _ => True where
  ok hs _ h := by
    refine ⟨?_, trivial⟩
    rcases runLine_eq_ok h with ⟨rfl, -⟩ | ⟨statement, -, hexec⟩
    · exact hs
    · cases hexec with
      | declareVariable other rhs span w _ hnew => exact Table.find?_insert_new hnew hs
      | declareUnit | declareFunction | print | eval => exact hs
  error _ _ _ := trivial

/-! ### Lines -/

/-- A run of lines gets to a statement that succeeds: the state that it runs in. -/
inductive Ran : State → List Line → State → Statement → Prop where
  | here {s s' : State} {l : Line} {ls : List Line} {statement : Statement} {o : Outcome}
      (hresolve : s.resolve l = some statement) (hline : s.runLine l = .ok (s', o)) :
      Ran s (l :: ls) s statement
  | later {s s' s₁ : State} {l : Line} {ls : List Line} {statement : Statement} {o : Outcome}
      (hline : s.runLine l = .ok (s', o)) (hrest : Ran s' ls s₁ statement) :
      Ran s (l :: ls) s₁ statement

/-- No value that the lines store overflows. -/
def StoresWithin (s : State) (ls : List Line) : Prop :=
  ∀ s₁ statement e, Ran s ls s₁ statement → statement.stores = true →
    statement.evaluated? = some e → ¬ s₁.Overflows e

theorem executes_of_runLine {s s' : State} {l : Line} {statement : Statement} {o : Outcome}
    (hresolve : s.resolve l = some statement) (hline : s.runLine l = .ok (s', o)) :
    Executes s statement s' o := by
  rw [runLine, hresolve] at hline
  exact executes_of_execute hline

theorem runLine_bounded {s s' : State} {l : Line} {ls : List Line} {o : Outcome}
    (hs : s.Bounded) (hl : l.LiteralsWithin) (hno : s.StoresWithin (l :: ls))
    (hline : s.runLine l = .ok (s', o)) : s'.Bounded := by
  rcases runLine_eq_ok hline with ⟨rfl, -⟩ | ⟨statement, hresolve, hexec⟩
  · exact hs
  · exact hexec.bounded hs (resolve_literalsWithin hl hresolve)
      fun e => hno s statement e (.here hresolve hline)

theorem StoresWithin.later {s s' : State} {l : Line} {ls : List Line} {o : Outcome}
    (hno : s.StoresWithin (l :: ls)) (hline : s.runLine l = .ok (s', o)) : s'.StoresWithin ls :=
  fun s₁ statement e hran => hno s₁ statement e (.later hline hran)

theorem runLines_bounded {s : State} (hs : s.Bounded) {ls : List Line}
    (hls : ∀ l ∈ ls, l.LiteralsWithin) (hno : s.StoresWithin ls) (number : Nat) :
    (s.runLines number ls).1.Bounded := by
  induction ls generalizing s number with
  | nil => exact hs
  | cons l ls ih =>
    obtain ⟨hl, hls⟩ := List.forall_mem_cons.1 hls
    rw [runLines]
    cases hline : s.runLine l with
    | error e => exact hs
    | ok r =>
      obtain ⟨s', o⟩ := r
      exact ih (runLine_bounded hs hl hno hline) hls (hno.later hline) (number + 1)

theorem Ran.bounded {s s₁ : State} {ls : List Line} {statement : Statement}
    (h : Ran s ls s₁ statement) (hs : s.Bounded) (hls : ∀ l ∈ ls, l.LiteralsWithin)
    (hno : s.StoresWithin ls) : s₁.Bounded ∧ statement.LiteralsWithin := by
  induction h with
  | here hresolve _ => exact ⟨hs, resolve_literalsWithin (hls _ List.mem_cons_self) hresolve⟩
  | later hline _ ih =>
    obtain ⟨hl, hls⟩ := List.forall_mem_cons.1 hls
    exact ih (runLine_bounded hs hl hno hline) hls (hno.later hline)

/-- The value of a statement is among the outcomes, if there are any. -/
theorem Ran.outcome {s s₁ : State} {ls : List Line} {statement : Statement}
    (h : Ran s ls s₁ statement) {e : Expr} (he : statement.evaluated? = some e) {number : Nat}
    {os : List Outcome} (hos : (s.runLines number ls).2 = .ok os) :
    ∃ v, s₁.eval e = .ok v ∧ ∃ o ∈ os, o.Of e v := by
  induction h generalizing number os with
  | here hresolve hline =>
    obtain ⟨v, hv, ho⟩ := (executes_of_runLine hresolve hline).evaluated he
    rw [runLines, hline] at hos
    obtain ⟨os', -, rfl⟩ := map_eq_ok.1 hos
    exact ⟨v, hv, _, List.mem_cons_self, ho⟩
  | later hline _ ih =>
    rw [runLines, hline] at hos
    obtain ⟨os', hos', rfl⟩ := map_eq_ok.1 hos
    obtain ⟨v, hv, o, ho, hof⟩ := ih he hos'
    exact ⟨v, hv, o, List.mem_cons_of_mem _ ho, hof⟩

/-- The outcomes are empty, or values of statements. -/
theorem ran_of_outcome {s : State} {ls : List Line} {number : Nat} {os : List Outcome}
    (hos : (s.runLines number ls).2 = .ok os) {o : Outcome} (ho : o ∈ os) :
    o = .empty ∨ ∃ s₁ statement e v, Ran s ls s₁ statement ∧ statement.evaluated? = some e ∧
      s₁.eval e = .ok v ∧ o.Of e v := by
  induction ls generalizing s number os with
  | nil =>
    cases hos
    cases ho
  | cons l ls ih =>
    rw [runLines] at hos
    cases hline : s.runLine l with
    | error err =>
      rw [hline] at hos
      cases hos
    | ok r =>
      obtain ⟨s', o'⟩ := r
      rw [hline] at hos
      obtain ⟨os', hos', rfl⟩ := map_eq_ok.1 hos
      rcases List.mem_cons.1 ho with rfl | ho
      · rcases runLine_eq_ok hline with ⟨-, rfl⟩ | ⟨statement, hresolve, hexec⟩
        · exact .inl rfl
        · rcases hexec.outcome with rfl | ⟨e, he⟩
          · exact .inl rfl
          · obtain ⟨v, hv, hof⟩ := hexec.evaluated he
            exact .inr ⟨s, statement, e, v, .here hresolve hline, he, hv, hof⟩
      · rcases ih hos' ho with rfl | ⟨s₁, statement, e, v, hran, hrest⟩
        · exact .inl rfl
        · exact .inr ⟨s₁, statement, e, v, .later hline hran, hrest⟩

/-- A value that a statement stores is still there after the last line. -/
theorem Ran.stored {s s₁ : State} {ls : List Line} {statement : Statement}
    (h : Ran s ls s₁ statement) (hstores : statement.stores = true) {e : Expr}
    (he : statement.evaluated? = some e) (number : Nat) :
    ∃ name v, s₁.eval e = .ok v ∧ (s.runLines number ls).1.vars.find? name = some v := by
  induction h generalizing number with
  | @here s s' l ls statement o hresolve hline =>
    cases executes_of_runLine hresolve hline with
    | declareUnit | declareFunction | print | eval => cases hstores
    | declareVariable name rhs span v hv _ =>
      cases he
      refine ⟨name.name, v, hv, ?_⟩
      rw [runLines, hline]
      refine ((keeps_variable name.name v).runLines ?_ (fun _ _ => trivial) (number + 1)).1
      rw [Table.find?_insert, if_pos rfl]
  | later hline _ ih =>
    rw [runLines, hline]
    exact ih hstores he (number + 1)

/-! ### Sources -/

/-- A source evaluates `e` in the state `s₁`, and the value stays: it is stored in a variable, or
all lines succeed and it is among the outcomes. -/
def Retains (s : State) (source : String) (s₁ : State) (e : Expr) : Prop :=
  ∃ lines statement, parseProgram source = .ok lines ∧ Ran s lines s₁ statement ∧
    statement.evaluated? = some e ∧
    (statement.stores = true ∨ ∃ os, (s.runProgram source).2 = .ok os)

theorem runProgram_bounded {s : State} (hs : s.Bounded) {source : String}
    (hno : ∀ s₁ e, s.Retains source s₁ e → ¬ s₁.Overflows e) :
    (s.runProgram source).1.Bounded ∧
      ∀ os, (s.runProgram source).2 = .ok os → ∀ o ∈ os, o.WithinLimit := by
  cases hparse : parseProgram source with
  | error errors =>
    rw [runProgram, hparse]
    refine ⟨hs, ?_⟩
    rintro _ ⟨⟩
  | ok lines =>
    have hrun : s.runProgram source = s.runLines 1 lines := by rw [runProgram, hparse]
    have hlines := parseProgram_literalsWithin hparse
    have hstores : s.StoresWithin lines := fun s₁ statement e hran hstores he =>
      hno s₁ e ⟨lines, statement, hparse, hran, he, .inl hstores⟩
    constructor
    · rw [hrun]
      exact runLines_bounded hs hlines hstores 1
    · intro os hos o ho
      rw [hrun] at hos
      rcases ran_of_outcome hos ho with rfl | ⟨s₁, statement, e, v, hran, he, hv, hof⟩
      · trivial
      · obtain ⟨hs₁, hliterals⟩ := hran.bounded hs hlines hstores
        have hretains : s.Retains source s₁ e :=
          ⟨lines, statement, hparse, hran, he, .inr ⟨os, by rw [hrun, hos]⟩⟩
        have hwithin := hs₁.withinLimit (hliterals.evaluated he) hv (hno s₁ e hretains)
        exact hof.withinLimit (hliterals.evaluated he) hwithin

theorem Retains.withinLimit {s s₁ : State} {source : String} {e : Expr}
    (h : s.Retains source s₁ e)
    (hvars : ∀ name v, (s.runProgram source).1.vars.find? name = some v → v.withinLimit = true)
    (houtcomes : ∀ os, (s.runProgram source).2 = .ok os → ∀ o ∈ os, o.WithinLimit) :
    ¬ s₁.Overflows e := by
  obtain ⟨lines, statement, hparse, hran, he, hstays⟩ := h
  have hrun : s.runProgram source = s.runLines 1 lines := by rw [runProgram, hparse]
  intro hoverflows
  rcases hstays with hstores | ⟨os, hos⟩
  · obtain ⟨name, v, hv, hfind⟩ := hran.stored hstores he 1
    rw [← hrun] at hfind
    cases (hvars name v hfind).symm.trans (hoverflows.withinLimit hv)
  · obtain ⟨v, hv, o, ho, hof⟩ := hran.outcome he (hrun ▸ hos)
    have hwithin := hof.value_withinLimit (houtcomes os hos o ho)
    cases hwithin.symm.trans (hoverflows.withinLimit hv)

/-! ### Sessions -/

theorem runProgram_variable {s : State} {name : String} {v : Value}
    (h : s.vars.find? name = some v) (source : String) :
    (s.runProgram source).1.vars.find? name = some v :=
  ((keeps_variable name v).runProgram (fun _ _ _ _ => trivial) h).1

theorem afterSources_variable {s : State} {name : String} {v : Value}
    (h : s.vars.find? name = some v) (sources : List String) :
    (s.afterSources sources).vars.find? name = some v := by
  induction sources generalizing s with
  | nil => exact h
  | cons source sources ih => exact ih (runProgram_variable h source)

theorem afterSources_append (s : State) (before after : List String) :
    s.afterSources (before ++ after) = (s.afterSources before).afterSources after :=
  List.foldl_append

/-- Every number in a variable after the sources, and every number in an outcome of one of them, is
within the limit. -/
structure LimitKept (s : State) (sources : List String) : Prop where
  vars : ∀ name v, (s.afterSources sources).vars.find? name = some v → v.withinLimit = true
  outcomes : ∀ before source after os, sources = before ++ source :: after →
    ((s.afterSources before).runProgram source).2 = .ok os → ∀ o ∈ os, o.WithinLimit

/-- No value that the sources retain overflows. -/
def RetainsWithin (s : State) (sources : List String) : Prop :=
  ∀ before source after, sources = before ++ source :: after →
    ∀ s₁ e, (s.afterSources before).Retains source s₁ e → ¬ s₁.Overflows e

theorem afterSources_bounded {s : State} (hs : s.Bounded) {sources : List String}
    (hno : s.RetainsWithin sources) : (s.afterSources sources).Bounded := by
  induction sources generalizing s with
  | nil => exact hs
  | cons source sources ih =>
    have hfirst := (runProgram_bounded hs (hno [] source sources rfl)).1
    exact ih hfirst fun before source' after heq =>
      hno (source :: before) source' after (by rw [heq, List.cons_append])

theorem initial_bounded (precision : Nat) : (initial precision).Bounded := by
  constructor
  · intro name v h
    cases h
  · intro name g h
    cases h

/-- A session keeps the limit of digits exactly if it retains no value that a name has scaled beyond
the limit. -/
theorem limitKept_iff_retainsWithin (precision : Nat) (sources : List String) :
    (initial precision).LimitKept sources ↔ (initial precision).RetainsWithin sources := by
  constructor
  · rintro hkept before source after rfl s₁ e hretains
    refine hretains.withinLimit (fun name v hv => ?_) fun os => ?_
    · refine hkept.vars name v ?_
      rw [afterSources_append]
      exact afterSources_variable hv after
    · exact hkept.outcomes before source after os rfl
  · intro hno
    have hinitial := initial_bounded precision
    refine ⟨(afterSources_bounded hinitial hno).vars, ?_⟩
    rintro before source after os rfl hos
    have hbefore : (initial precision).RetainsWithin before := by
      rintro before' source' after' rfl
      exact hno before' source' (after' ++ source :: after) (by simp)
    have hlast := hno before source after rfl
    exact (runProgram_bounded (afterSources_bounded hinitial hbefore) hlast).2 os hos

/-! ### A session beyond the limit -/

/-- The first number has 999 991 digits, and the prefix `P` appends fifteen more. -/
theorem afterSources_scaled :
    ((initial 50).afterSources ["x = 1e999990", "y = Px"]).vars.find? "y" =
      some (.ofDecimal ⟨1, -1000005⟩) := by
  have hfirst : TokenLine.ofProgram "x = 1e999990" =
      [⟨[⟨.identifier, "x", ⟨0, 1⟩⟩, ⟨.equal, "=", ⟨2, 3⟩⟩, ⟨.float, "1e999990", ⟨4, 12⟩⟩],
        Token.endToken 12⟩] := by decide
  have hsecond : TokenLine.ofProgram "y = Px" =
      [⟨[⟨.identifier, "y", ⟨0, 1⟩⟩, ⟨.equal, "=", ⟨2, 3⟩⟩, ⟨.identifier, "Px", ⟨4, 6⟩⟩],
        Token.endToken 6⟩] := by decide
  have hnumber : parseProgram "x = 1e999990" =
      .ok [.binding ⟨⟨"x", ⟨0, 1⟩⟩, none, .number ⟨1, -999990⟩ ⟨4, 12⟩, ⟨0, 12⟩⟩] := by
    have hphrase : Derives .primary [⟨.float, "1e999990", ⟨4, 12⟩⟩]
        (.number ⟨1, -999990⟩ ⟨4, 12⟩) [] := .number (.inr rfl) (by decide) (by decide)
    rw [parseProgram, hfirst, List.map_singleton,
      Line.parseTokens_binding rfl rfl (hphrase.loosen (Nat.zero_le _))]
    rfl
  have hscaled : parseProgram "y = Px" =
      .ok [.binding ⟨⟨"y", ⟨0, 1⟩⟩, none, .name ⟨"Px", ⟨4, 6⟩⟩, ⟨0, 6⟩⟩] := by
    have hphrase : Derives .primary [⟨.identifier, "Px", ⟨4, 6⟩⟩] (.name ⟨"Px", ⟨4, 6⟩⟩) [] :=
      .name rfl (by rintro ⟨u, us, heq, -⟩; cases heq)
    rw [parseProgram, hsecond, List.map_singleton,
      Line.parseTokens_binding rfl rfl (hphrase.loosen (Nat.zero_le _))]
    rfl
  simp only [afterSources, List.foldl, runProgram, hnumber, hscaled]
  decide

/-- Not every session keeps the limit. -/
theorem not_limitKept : ¬ ∀ precision sources, (initial precision).LimitKept sources := by
  intro h
  have hy := (h 50 _).vars "y" _ afterSources_scaled
  exact absurd hy (by decide)

end State

end UnitCalc
