import UnitCalc.Proofs.Reachable

/-! What evaluation reads of a state. A name that is not defined may be a prefixed one, so an
expression mentions the names written in it and what each of them leaves behind a prefix. Two states
that agree on these names, and on those mentioned in the bodies that may be called, give an
expression the same value or the same error. Functions are found by the names that values carry, not
only by those that are written, so the states have to agree on these functions too. They do if the
second state has the same functions, and also if it has more of them and the functions that
variables name are declared, which holds of every state that arises. -/

namespace UnitCalc

/-! ### Names mentioned -/

/-- A name, and what is left of it behind a prefix. -/
def readings (name : String) : List String := name :: ((SiPrefix.split? name).map (·.2)).toList

namespace Expr

mutual
def mentions : Expr → List String
  | number _ _ => []
  | name id => readings id.name
  | call callee args _ => readings callee.name ++ mentionsAll args
  | signed _ e _ | unitOf e _ | paren e _ => e.mentions
  | binary _ l r _ => l.mentions ++ r.mentions

def mentionsAll : List Expr → List String
  | [] => []
  | e :: es => e.mentions ++ mentionsAll es
end

theorem mentions_of_mem {e : Expr} {es : List Expr} (h : e ∈ es) : e.mentions ⊆ mentionsAll es := by
  induction h with
  | head => exact List.subset_append_left _ _
  | tail _ _ ih => exact List.subset_append_of_subset_right _ ih

theorem mentions_of_part {e part : Expr} (h : part ∈ e.parts) : part.mentions ⊆ e.mentions := by
  cases e with
  | number | name => cases h
  | call callee args span => exact List.subset_append_of_subset_right _ (mentions_of_mem h)
  | signed | unitOf | paren =>
    rw [List.mem_singleton.1 h]
    exact List.Subset.refl _
  | binary op l r span =>
    rcases List.mem_cons.1 h with rfl | h
    · exact List.subset_append_left _ _
    · rw [List.mem_singleton.1 h]
      exact List.subset_append_right _ _

end Expr

namespace State

/-! ### Functions that values name -/

/-- The function that a value names, if it names one, is declared. -/
def Knows (s : State) (v : Value) : Prop :=
  ∀ name, v.kind = .function name → s.functions.contains name = true

def KnowsVars (s : State) : Prop := ∀ name v, s.vars.find? name = some v → s.Knows v

theorem KnowsVars.lookup {s : State} (hs : s.KnowsVars) {name : String} {v : Value}
    (h : s.lookup name = some v) : s.Knows v := by
  rw [State.lookup] at h
  split at h
  · rename_i w hw
    cases h
    exact hs name _ hw
  · split at h
    · cases h
      rintro _ ⟨⟩
    · split at h
      · rename_i hfunction
        cases h
        rintro _ ⟨⟩
        exact hfunction
      · cases h

/-! ### Results that agree -/

/-- Two computations have the same result, and a value has a property. -/
abbrev Same {ε α : Type} (P : α → Prop) : Except ε α → Except ε α → Prop :=
  Related (.same fun _ => True) fun a a' => P a ∧ a = a'

theorem Same.of_ok {ε α : Type} {P : α → Prop} {x : Except ε α} (h : ∀ a, x = .ok a → P a) :
    Same P x x := by
  cases x with
  | error err => exact .error ⟨trivial, rfl⟩
  | ok a => exact .ok ⟨h a rfl, rfl⟩

theorem Same.eq {ε α : Type} {P : α → Prop} {x x' : Except ε α} (h : Same P x x') : x' = x :=
  (related_same.1 h).2.symm

theorem Same.prop {ε α : Type} {P : α → Prop} {x x' : Except ε α} (h : Same P x x') {a : α}
    (hx : x = .ok a) : P a :=
  (related_same.1 h).1.ok hx

theorem Same.locate {α : Type} {P : α → Prop} {x x' : Except Fault α} (h : Same P x x')
    (span : Span) : Same P (locate span x) (UnitCalc.locate span x') := by
  rw [h.eq]
  exact .of_ok fun a ha => h.prop (locate_ok ha)

/-! ### Evaluation -/

/-- Names stand for the same in two states. -/
def AgreeOn (s s' : State) (names : List String) : Prop :=
  ∀ name ∈ names, s'.lookup name = s.lookup name

theorem agreeOn_append {s s' : State} {names names' : List String} :
    s.AgreeOn s' (names ++ names') ↔ s.AgreeOn s' names ∧ s.AgreeOn s' names' :=
  List.forall_mem_append

/-- What two states share: the functions named by values with a property, the meaning of all bodies,
and the number of digits. The property is one of all values that evaluation in the first state comes
by. -/
structure Shares (s s' : State) (P : Value → Prop) : Prop where
  plain : ∀ v, (∀ name, v.kind ≠ .function name) → P v
  lookup : ∀ name v, s.lookup name = some v → P v
  functions : ∀ v name, P v → v.kind = .function name →
    s'.functions.find? name = s.functions.find? name
  bodies : ∀ name g, s.functions.find? name = some g → s.AgreeOn s' g.body.mentions
  precision : s'.precision = s.precision

/-- The parameters in a scope have values with a property. -/
def ScopeAll (P : Value → Prop) (scope : Scope) : Prop :=
  ∀ name v, scope.lookup name = some v → P v

theorem scopeAll_nil (P : Value → Prop) : ScopeAll P [] := by
  intro name v h
  cases h

theorem scopeAll_bindArguments {P : Value → Prop} {params : List String} {values : List Value}
    (h : ∀ v ∈ values, P v) : ScopeAll P (bindArguments params values) :=
  fun _ v hv => h v (mem_of_lookup_bindArguments hv)

namespace Shares

variable {s s' : State} {P : Value → Prop}

theorem number (h : s.Shares s' P) (n : Decimal) (unit : Dimension) : P ⟨.number n, unit⟩ :=
  h.plain _ nofun

theorem lookupIn (h : s.Shares s' P) {scope : Scope} (hscope : ScopeAll P scope) {name : String}
    {v : Value} (hv : s.lookupIn scope name = some v) : P v := by
  rcases Option.or_eq_some_iff.1 hv with hparam | ⟨-, hglobal⟩
  · exact hscope name v hparam
  · exact h.lookup name v hglobal

theorem applySign (h : s.Shares s' P) {sign : Sign} {v w : Value} (hw : v.applySign sign = .ok w) :
    P w := by
  rw [Value.applySign.eq_def] at hw
  split at hw
  · cases hw
    exact h.number _ _
  · cases hw
    exact h.number _ _
  · cases hw

theorem applySiPrefix (h : s.Shares s' P) {si : SiPrefix} {v w : Value}
    (hw : v.applySiPrefix si = .ok w) : P w := by
  rw [Value.applySiPrefix] at hw
  split at hw
  · cases hw
    exact h.number _ _
  · cases hw

theorem operate (h : s.Shares s' P) {precision : Nat} {op : Operator} {lhs rhs w : Value}
    (hw : lhs.operate precision op rhs = .ok w) : P w := by
  obtain ⟨unit, -, hw⟩ := bind_eq_ok.1 hw
  obtain ⟨kind, hkind, hw⟩ := bind_eq_ok.1 hw
  cases hw
  have hresult := (Value.operationKind_meets (P := fun _ => True) precision op lhs rhs).ok hkind
  refine h.plain _ fun name hname => ?_
  cases hname
  exact hresult.elim

theorem evalName (h : s.Shares s' P) {scope : Scope} (hscope : ScopeAll P scope) {name : String}
    (hname : s.AgreeOn s' (readings name)) :
    Same P (s.evalName scope name) (s'.evalName scope name) := by
  obtain ⟨hfull, hrest⟩ := List.forall_mem_cons.1 hname
  have hfullIn : s'.lookupIn scope name = s.lookupIn scope name := by
    rw [State.lookupIn, State.lookupIn, hfull]
  rw [State.evalName, State.evalName, hfullIn]
  cases hlookup : s.lookupIn scope name with
  | some v =>
    refine .of_ok ?_
    rintro _ ⟨⟩
    exact h.lookupIn hscope hlookup
  | none =>
    cases hsplit : SiPrefix.split? name with
    | none => exact .error ⟨trivial, rfl⟩
    | some split =>
      obtain ⟨si, base⟩ := split
      have hbase : s'.lookupIn scope base = s.lookupIn scope base := by
        rw [State.lookupIn, State.lookupIn, hrest base (by simp [hsplit])]
      simp only [hbase]
      cases s.lookupIn scope base with
      | none => exact .error ⟨trivial, rfl⟩
      | some v => exact .of_ok fun w hw => h.applySiPrefix hw

/-- A function that both states have is called alike. -/
theorem callableWith (h : s.Shares s' P) {callee : Value} (hcallee : P callee) (count : Nat) :
    Same (fun g => ∃ name, s.functions.find? name = some g) (s.callableWith callee count)
      (s'.callableWith callee count) := by
  have hcallable : s'.callable callee = s.callable callee := by
    rw [callable, callable]
    split
    · rename_i name hname
      rw [h.functions callee name hcallee hname]
    · rfl
  have hsame : s'.callableWith callee count = s.callableWith callee count := by
    rw [State.callableWith, State.callableWith, hcallable]
  rw [hsame]
  exact .of_ok fun g hg => (callableWith_eq_ok hg).2

theorem called (h : s.Shares s' P) {scope : Scope} (hscope : ScopeAll P scope) {callee : Ident}
    (hcallee : s.AgreeOn s' (readings callee.name)) (count : Nat) (span : Span) :
    Same (fun g => ∃ name, s.functions.find? name = some g) (s.called scope callee count span)
      (s'.called scope callee count span) := by
  apply ((h.evalName hscope hcallee).locate callee.span).bind
  rintro f _ - - ⟨hf, rfl⟩
  exact (h.callableWith hf count).locate span

/-- Evaluation is alike in the two states if it is inside fewer calls. -/
theorem alike (h : s.Shares s' P) {depth : Nat} {scope : Scope} (hscope : ScopeAll P scope)
    (hbody : ∀ inner < depth, ∀ scope body, ScopeAll P scope → s.AgreeOn s' body.mentions →
      Same P (s.evalAt inner scope body) (s'.evalAt inner scope body)) :
    Alike (fun e => s.AgreeOn s' e.mentions) (.same fun _ => True) (fun v v' => P v ∧ v = v')
      (s.evaluator depth scope) (s'.evaluator depth scope) where
  parts e he part hpart name hname := he name (Expr.mentions_of_part hpart hname)
  number n := .ok ⟨h.number n .one, rfl⟩
  name id he := (h.evalName hscope he).locate id.span
  call callee args span he := by
    apply (h.called hscope (agreeOn_append.1 he).1 args.length span).bind
    rintro g _ - - ⟨⟨name, hname⟩, rfl⟩
    cases depth with
    | zero => exact .error ⟨trivial, rfl⟩
    | succ depth =>
      refine .ok fun values values' hvalues => ?_
      obtain ⟨hall, rfl⟩ := forall₂_same.1 hvalues
      -- The function is one of the first state, so its body means the same in both.
      exact hbody depth depth.lt_succ_self _ _ (scopeAll_bindArguments hall) (h.bodies name g hname)
  signed sign e span _ := by
    rintro v _ ⟨-, rfl⟩
    exact (Same.of_ok fun w hw => h.applySign hw).locate span
  binary op l r span _ := by
    rintro lhs _ rhs _ ⟨-, rfl⟩ ⟨-, rfl⟩ - -
    simp only [evaluator, h.precision]
    exact (Same.of_ok fun w hw => h.operate hw).locate span
  unitOf e span _ := by
    rintro v _ ⟨-, rfl⟩
    exact .ok ⟨h.number 1 v.unit, rfl⟩

end Shares

section Evaluation

variable {s s' : State} {P : Value → Prop}

theorem evalAt_same (h : s.Shares s' P) (depth : Nat) {scope : Scope} (hscope : ScopeAll P scope)
    {e : Expr} (he : s.AgreeOn s' e.mentions) :
    Same P (s.evalAt depth scope e) (s'.evalAt depth scope e) := by
  induction depth using Nat.strongRecOn generalizing scope e with
  | ind depth ih =>
    exact (h.alike hscope fun inner hinner _ _ hscope he => ih inner hinner hscope he).eval e he

/-- An expression means the same in two states that share what bodies and functions mean, if they
agree on the names that the expression mentions. -/
theorem eval_same (h : s.Shares s' P) {e : Expr} (he : s.AgreeOn s' e.mentions) :
    Same P (s.eval e) (s'.eval e) :=
  evalAt_same h maxCallDepth (scopeAll_nil P) he

end Evaluation

/-! ### States with more functions -/

/-- A second state has the functions of the first, their bodies mean the same in it, and it keeps
as many digits. -/
structure Includes (s s' : State) : Prop where
  functions : ∀ name g, s.functions.find? name = some g → s'.functions.find? name = some g
  bodies : ∀ name g, s.functions.find? name = some g → s.AgreeOn s' g.body.mentions
  precision : s'.precision = s.precision

theorem Includes.refl (s : State) : s.Includes s where
  functions _ _ h := h
  bodies _ _ _ _ _ := rfl
  precision := rfl

/-- More functions do no harm if those that values name are there before. -/
theorem Includes.shares {s s' : State} (h : s.Includes s') (hs : s.KnowsVars) :
    s.Shares s' s.Knows where
  plain v hv name hname := absurd hname (hv name)
  lookup _ _ := hs.lookup
  functions v name hv hname := by
    obtain ⟨g, hg⟩ := Option.isSome_iff_exists.1 (hv name hname)
    rw [hg, h.functions name g hg]
  bodies := h.bodies
  precision := h.precision

/-- An expression means the same in a state that includes another and agrees with it on the names
that the expression mentions. -/
theorem eval_eq {s s' : State} (hs : s.KnowsVars) (h : s.Includes s') {e : Expr}
    (he : s.AgreeOn s' e.mentions) : s'.eval e = s.eval e :=
  (eval_same (h.shares hs) he).eq

theorem knows_eval {s : State} (hs : s.KnowsVars) {e : Expr} {v : Value} (h : s.eval e = .ok v) :
    s.Knows v :=
  (eval_same ((Includes.refl s).shares hs) fun _ _ => rfl).prop h

/-! ### States that arise -/

/-- The states that arise: at first nothing is declared, then statements are executed and the
number of digits is set. -/
inductive Arises : State → Prop where
  | initial (precision : Nat) : Arises (initial precision)
  | setPrecision {s : State} (h : Arises s) (precision : Nat) : Arises (s.setPrecision precision)
  | execute {s s' : State} {statement : Statement} {o : Outcome} (h : Arises s)
      (hexec : s.execute statement = .ok (s', o)) : Arises s'

theorem Executes.knowsVars {s s' : State} {statement : Statement} {o : Outcome}
    (h : Executes s statement s' o) (hs : s.KnowsVars) : s'.KnowsVars := by
  cases h with
  | print | eval | declareUnit => exact hs
  | declareVariable name rhs span v hv =>
    intro other w hw
    rw [Table.find?_insert] at hw
    split at hw
    · cases hw
      exact knows_eval hs hv
    · exact hs other w hw
  | declareFunction name params rhs span =>
    intro other w hw f hf
    rw [Table.contains_insert, hs other w hw f hf, Bool.or_true]

theorem keeps_arises : Keeps (fun _ => True) Arises (fun _ => True) fun _ => True where
  ok {s s' l o} hs _ h := by
    refine ⟨?_, trivial⟩
    rw [runLine] at h
    split at h
    · cases h
      exact hs
    · exact hs.execute h
  error _ _ _ := trivial

theorem Arises.runProgram {s : State} (hs : s.Arises) (source : String) :
    (s.runProgram source).1.Arises :=
  (keeps_arises.runProgram (fun _ _ _ _ => trivial) hs).1

theorem Arises.knowsVars {s : State} (h : s.Arises) : s.KnowsVars := by
  induction h with
  | initial precision =>
    rintro _ _ ⟨⟩
  | setPrecision _ precision ih => exact ih
  | execute _ hexec ih => exact (executes_of_execute hexec).knowsVars ih

end State

end UnitCalc
