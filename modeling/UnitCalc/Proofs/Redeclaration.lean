import UnitCalc.Proofs.Independence
import UnitCalc.Proofs.Lookup
import UnitCalc.Proofs.NumberFlow
import UnitCalc.Proofs.Rational

/-! A declaration that is repeated. The first time a line `x = e` declares `x`, and the same line
again asks whether `x` is equal to `e`. Where neither `e` nor the body of a function mentions `x`,
the new variable is out of sight, so `e` still has the value that `x` was given. Numbers and truth
values are equal to themselves, and the answer is yes; functions are not compared. -/

namespace UnitCalc

/-- A value that is no function is equal to itself, whatever its unit. -/
theorem Value.operate_eq_self (precision : Nat) {v : Value}
    (hv : ∀ name, v.kind ≠ .function name) :
    v.operate precision .eq v = .ok ⟨.bool true, .one⟩ := by
  have hunit : operationUnit .eq v v = .ok .one := if_pos rfl
  have hkind : operationKind precision .eq v v = .ok (.bool true) := by
    cases hk : v.kind with
    | number n =>
      have hequal : n.compare n = .eq := Decimal.compare_eq_eq_iff.2 rfl
      simp only [operationKind, hk, numberOperation, hequal, decide_true]
    | bool b => simp only [operationKind, hk, decide_true]
    | function name => exact absurd hk (hv name)
  rw [operate, hunit, hkind]
  rfl

namespace State

variable {s : State} {name : String} {v : Value}

/-- A new variable has the same functions beside it, and bodies that do not mention it do not
notice it. So it does not matter which functions the values in the state name. -/
theorem shares_addVar (hbodies : s.BodiesAvoid name) (v : Value) :
    s.Shares (s.add (.var name v)) fun _ => True where
  plain _ _ := trivial
  lookup _ _ _ := trivial
  functions _ _ _ _ := rfl
  bodies f g hg := agreeOn_add (hbodies f g hg)
  precision := rfl

theorem eval_addVar (hbodies : s.BodiesAvoid name) {e : Expr} (he : name ∉ e.mentions) (v : Value) :
    (s.add (.var name v)).eval e = s.eval e :=
  (eval_same (shares_addVar hbodies v) (agreeOn_add he)).eq

theorem lookup_addVar (s : State) (name : String) (v : Value) :
    (s.add (.var name v)).lookup name = some v := by
  have hfind : (s.vars.insert name v).find? name = some v := by rw [Table.find?_insert, if_pos rfl]
  rw [add, lookup, hfind]

theorem eval_name_addVar (s : State) (id : Ident) (v : Value) :
    (s.add (.var id.name v)).eval (.name id) = .ok v := by
  have hlookup : (s.add (.var id.name v)).lookupIn [] id.name = some v := by
    rw [lookupIn, lookup_addVar]
    rfl
  rw [eval, evalAt_name, evalName, hlookup]
  rfl

/-- Once a variable is declared, its line compares it with its right side. -/
theorem runLine_addVar {id : Ident} {rhs : Expr} (span : Span) (hbodies : s.BodiesAvoid id.name)
    (hrhs : id.name ∉ rhs.mentions) (hv : s.eval rhs = .ok v)
    (hkind : ∀ f, v.kind ≠ .function f) :
    (s.add (.var id.name v)).runLine (.binding ⟨id, none, rhs, span⟩) =
      .ok (s.add (.var id.name v), .value ⟨.bool true, .one⟩) := by
  have hresolve : (s.add (.var id.name v)).resolve (.binding ⟨id, none, rhs, span⟩) =
      some (.eval (.combine .eq (.name id) rhs)) := by
    rw [resolve, if_pos (isDefined_of_lookup (s.lookup_addVar id.name v))]
    rfl
  have htest : (s.add (.var id.name v)).eval (.combine .eq (.name id) rhs) =
      .ok ⟨.bool true, .one⟩ := by
    have hleft := s.eval_name_addVar id v
    have hright := (eval_addVar hbodies hrhs v).trans hv
    rw [eval] at hleft hright
    rw [eval, Expr.combine, evalAt_binary, hleft, hright]
    simp only [Except.bind, Value.operate_eq_self _ hkind]
    rfl
  rw [runLine, hresolve]
  simp only [execute, htest]
  rfl

/-- A line that has declared a variable with a number or a truth value gives `true` when it is run
again, and changes nothing, if neither its right side nor the body of a function mentions the
variable. -/
theorem runProgram_again {source : String} {id : Ident} {rhs : Expr} {span : Span}
    (hread : parseProgram source = .ok [.binding ⟨id, none, rhs, span⟩])
    (hnew : s.isDefined id.name = false) (hrhs : id.name ∉ rhs.mentions)
    (hbodies : ∀ f g, s.functions.find? f = some g → id.name ∉ g.body.mentions)
    (hrun : (s.runProgram source).2 = .ok [.value v]) (hv : ∀ f, v.kind ≠ .function f) :
    (s.runProgram source).1.runProgram source =
      ((s.runProgram source).1, .ok [.value ⟨.bool true, .one⟩]) := by
  have hfirst := runProgram_new hread rfl hnew
  rw [hfirst] at hrun ⊢
  simp only [declaration] at hrun ⊢
  cases heval : s.eval rhs with
  | error err =>
    rw [heval] at hrun
    cases hrun
  | ok w =>
    rw [heval] at hrun
    cases hrun
    have hsecond := runLine_addVar span hbodies hrhs heval hv
    change (s.add (.var id.name v)).runProgram source = (s.add (.var id.name v), _)
    rw [runProgram, hread]
    simp only [runLines, hsecond]
    rfl

/-- A length that a function works out from a prefixed unit. -/
theorem runProgram_again_tripling :
    (tripling.runProgram "d = f(2 km)").2 = .ok [.value ⟨.number ⟨6, -3⟩, .base "m"⟩] ∧
      (tripling.runProgram "d = f(2 km)").1.runProgram "d = f(2 km)" =
        ((tripling.runProgram "d = f(2 km)").1, .ok [.value ⟨.bool true, .one⟩]) := by
  have hread : parseProgram "d = f(2 km)" = .ok [.binding ⟨⟨"d", ⟨0, 1⟩⟩, none,
      .call ⟨"f", ⟨4, 5⟩⟩ [.binary .mul (.number ⟨2, 0⟩ ⟨6, 7⟩) (.name ⟨"km", ⟨8, 10⟩⟩) ⟨6, 10⟩]
        ⟨4, 11⟩, ⟨0, 11⟩⟩] := by
    decide +kernel
  have hbodies : ∀ entry ∈ tripling.functions.entries, "d" ∉ entry.2.body.mentions := by
    decide +kernel
  have hrun : (tripling.runProgram "d = f(2 km)").2 =
      .ok [.value ⟨.number ⟨6, -3⟩, .base "m"⟩] := by
    decide +kernel
  exact ⟨hrun, runProgram_again hread (by decide +kernel) (by decide +kernel)
    (fun f g hg => hbodies (f, g) (Table.mem_of_find? hg)) hrun nofun⟩

end State

end UnitCalc
