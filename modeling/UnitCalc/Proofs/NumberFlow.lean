import UnitCalc.Proofs.Steps

/-! Where numbers beyond the limit of digits come from. Operators check their results, a sign keeps
the room that a number takes, and a bracket gives a one. A name with an SI prefix scales the value
of the rest of the name and does not check. So as long as the variables and the literals keep the
limit, a value beyond it is the value of such a name, passed on by signs, parentheses and calls. -/

namespace UnitCalc

/-! ### Operations on values -/

namespace Value

/-- Only numbers can be beyond the limit. -/
def Kind.withinLimit : Kind → Bool
  | number n => n.withinLimit
  | bool _ | function _ => true

def withinLimit (v : Value) : Bool := v.kind.withinLimit

theorem limited_eq_ok {n : Decimal} {k : Kind} (h : limited n = .ok k) : k.withinLimit = true := by
  rw [limited] at h
  split at h
  · rename_i hn
    cases h
    exact hn
  · cases h

theorem numberOperation_withinLimit {precision : Nat} {op : Operator} {lhs rhs : Value}
    {a b : Decimal} {k : Kind} (h : numberOperation precision op lhs rhs a b = .ok k) :
    k.withinLimit = true := by
  cases op with
  | add | sub | mul => exact limited_eq_ok h
  | div | mod =>
    simp only [numberOperation] at h
    split at h
    · cases h
    · exact limited_eq_ok h
  | pow =>
    obtain ⟨e, -, h⟩ := bind_eq_ok.1 h
    obtain ⟨n, -, h⟩ := bind_eq_ok.1 h
    exact limited_eq_ok h
  | eq | ne | lt | le | gt | ge =>
    cases h
    rfl

/-- Results of operators are within the limit, whatever the operands are. -/
theorem operate_withinLimit {precision : Nat} {op : Operator} {lhs rhs v : Value}
    (h : lhs.operate precision op rhs = .ok v) : v.withinLimit = true := by
  obtain ⟨unit, -, h⟩ := bind_eq_ok.1 h
  obtain ⟨k, hk, h⟩ := bind_eq_ok.1 h
  cases h
  rw [operationKind.eq_def] at hk
  split at hk
  · exact numberOperation_withinLimit hk
  · cases hk
    rfl
  · cases hk
    rfl
  · cases hk

theorem applySign_withinLimit {sign : Sign} {v w : Value} (h : v.applySign sign = .ok w) :
    w.withinLimit = v.withinLimit := by
  rw [applySign.eq_def] at h
  split at h
  · rename_i n hn
    cases h
    rw [withinLimit, withinLimit, hn]
  · rename_i n hn
    cases h
    rw [withinLimit, withinLimit, hn]
    simp only [Kind.withinLimit, Decimal.withinLimit, Decimal.extent_neg]
  · cases h

end Value

/-! ### Literals -/

/-- The literals of an expression are within the limit. -/
inductive Expr.LiteralsWithin : Expr → Prop where
  | number {d : Decimal} {span : Span} (hd : d.withinLimit = true) : LiteralsWithin (.number d span)
  | name {id : Ident} : LiteralsWithin (.name id)
  | call {callee : Ident} {args : List Expr} {span : Span} (hargs : ∀ a ∈ args, LiteralsWithin a) :
      LiteralsWithin (.call callee args span)
  | signed {sign : Sign} {e : Expr} {span : Span} (he : LiteralsWithin e) :
      LiteralsWithin (.signed sign e span)
  | binary {op : Operator} {l r : Expr} {span : Span} (hl : LiteralsWithin l)
      (hr : LiteralsWithin r) : LiteralsWithin (.binary op l r span)
  | unitOf {e : Expr} {span : Span} (he : LiteralsWithin e) : LiteralsWithin (.unitOf e span)
  | paren {e : Expr} {span : Span} (he : LiteralsWithin e) : LiteralsWithin (.paren e span)

namespace State

/-- The variables of a state, and the literals in the bodies of its functions, are within the
limit. -/
structure Bounded (s : State) : Prop where
  vars : ∀ name v, s.vars.find? name = some v → v.withinLimit = true
  bodies : ∀ name g, s.functions.find? name = some g → g.body.LiteralsWithin

/-! ### Names -/

/-- A name that is not defined scales the value of the rest of it beyond the limit. -/
def ScalesBeyond (s : State) (scope : Scope) (name : String) : Prop :=
  s.lookupIn scope name = none ∧ ∃ si base v n, SiPrefix.split? name = some (si, base) ∧
    s.lookupIn scope base = some v ∧ v.kind = .number n ∧
    (n.shift si.exponent).withinLimit = false

theorem ScalesBeyond.evalName {s : State} {scope : Scope} {name : String}
    (h : s.ScalesBeyond scope name) :
    ∃ v, s.evalName scope name = .ok v ∧ v.withinLimit = false := by
  obtain ⟨hnone, si, base, v, n, hsplit, hbase, hn, hbeyond⟩ := h
  refine ⟨⟨.number (n.shift si.exponent), v.unit⟩, ?_, hbeyond⟩
  simp only [State.evalName, hnone, hsplit, hbase, Value.applySiPrefix, hn]

theorem Bounded.lookup {s : State} (hs : s.Bounded) {name : String} {v : Value}
    (h : s.lookup name = some v) : v.withinLimit = true := by
  rw [State.lookup] at h
  split at h
  · rename_i w hw
    cases h
    exact hs.vars name _ hw
  · split at h
    · cases h
      rfl
    · split at h
      · cases h
        rfl
      · cases h

/-- A name whose value is beyond the limit scales a value, or it is a parameter. -/
theorem Bounded.evalName {s : State} (hs : s.Bounded) {scope : Scope} {name : String} {v : Value}
    (h : s.evalName scope name = .ok v) (hv : v.withinLimit = false) :
    s.ScalesBeyond scope name ∨ scope.lookup name = some v := by
  rw [State.evalName] at h
  split at h
  · rename_i w hw
    cases h
    rw [lookupIn, Option.or_eq_some_iff] at hw
    rcases hw with hparam | ⟨-, hw⟩
    · exact .inr hparam
    · rw [hs.lookup hw] at hv
      cases hv
  · rename_i hnone
    split at h
    · cases h
    · rename_i si base hsplit
      split at h
      · rename_i w hw
        rw [Value.applySiPrefix] at h
        split at h
        · rename_i n hn
          cases h
          exact .inl ⟨hnone, si, base, w, n, hsplit, hw, hn, hv⟩
        · cases h
      · cases h

/-! ### Calls -/

/-- A call inside which `depth` nested calls are left: the function called, and the values of its
arguments. -/
structure Calls (s : State) (depth : Nat) (scope : Scope) (callee : Ident) (args : List Expr)
    (g : Function) (values : List Value) : Prop where
  callable : ∃ f, s.evalName scope callee.name = .ok f ∧ s.callableWith f args.length = .ok g
  values : s.evalAllWith (some (s.evalAt depth)) scope args = .ok values

theorem evalAt_call_eq_ok {s : State} {depth : Nat} {scope : Scope} {callee : Ident}
    {args : List Expr} {span : Span} {v : Value}
    (h : s.evalAt depth scope (.call callee args span) = .ok v) :
    ∃ inner g values, depth = inner + 1 ∧ s.Calls inner scope callee args g values ∧
      s.evalAt inner (bindArguments g.params values) g.body = .ok v := by
  cases depth with
  | zero =>
    rw [evalAt, evalWith] at h
    obtain ⟨f, -, h⟩ := bind_eq_ok.1 h
    obtain ⟨g, -, h⟩ := bind_eq_ok.1 h
    cases h
  | succ inner =>
    rw [evalAt, evalWith] at h
    obtain ⟨f, hf, h⟩ := bind_eq_ok.1 h
    obtain ⟨g, hg, h⟩ := bind_eq_ok.1 h
    obtain ⟨values, hvalues, h⟩ := bind_eq_ok.1 h
    exact ⟨inner, g, values, rfl, ⟨⟨f, locate_ok hf, locate_ok hg⟩, hvalues⟩, h⟩

theorem Calls.unique {s : State} {depth : Nat} {scope : Scope} {callee : Ident}
    {args : List Expr} {g g' : Function} {values values' : List Value}
    (h : s.Calls depth scope callee args g values)
    (h' : s.Calls depth scope callee args g' values') : g' = g ∧ values' = values := by
  obtain ⟨f, hf, hg⟩ := h.callable
  obtain ⟨f', hf', hg'⟩ := h'.callable
  rw [hf] at hf'
  cases hf'
  rw [hg] at hg'
  cases hg'
  have hvalues := h'.values
  rw [h.values] at hvalues
  cases hvalues
  exact ⟨rfl, rfl⟩

theorem evalAllWith_forall₂ {s : State} {invoke : Invoke} {scope : Scope} {es : List Expr}
    {vs : List Value} (h : s.evalAllWith invoke scope es = .ok vs) :
    List.Forall₂ (fun e v => s.evalWith invoke scope e = .ok v) es vs := by
  induction es generalizing vs with
  | nil =>
    rw [evalAllWith] at h
    cases h
    exact .nil
  | cons e es ih =>
    rw [evalAllWith] at h
    obtain ⟨v, hv, h⟩ := bind_eq_ok.1 h
    obtain ⟨vs', hvs', h⟩ := bind_eq_ok.1 h
    cases h
    exact .cons hv (ih hvs')

theorem bindArguments_cons {α : Type} (q : String) (params : List String) (a : α) (as : List α) :
    bindArguments (q :: params) (a :: as) = bindArguments params as ++ [(q, a)] := by
  rw [bindArguments, List.zip_cons_cons, List.reverse_cons]
  rfl

theorem rel_or {α β : Type} {R : α → β → Prop} {x x' : Option α} {y y' : Option β}
    (h : Option.Rel R x y) (h' : Option.Rel R x' y') : Option.Rel R (x.or x') (y.or y') := by
  cases h with
  | some hR => exact .some hR
  | none => exact h'

/-- Parameters are bound to arguments and to their values alike. -/
theorem lookup_bindArguments {α β : Type} {R : α → β → Prop} {as : List α} {bs : List β}
    (h : List.Forall₂ R as bs) (params : List String) (p : String) :
    Option.Rel R ((bindArguments params as).lookup p) ((bindArguments params bs).lookup p) := by
  induction h generalizing params with
  | nil =>
    rw [bindArguments, bindArguments, List.zip_nil_right, List.zip_nil_right]
    exact .none
  | @cons a b as bs hab _ ih =>
    cases params with
    | nil => exact .none
    | cons q params =>
      rw [bindArguments_cons, bindArguments_cons, List.lookup_append, List.lookup_append]
      apply rel_or (ih params)
      rw [List.lookup_cons, List.lookup_cons]
      cases p == q with
      | true => exact .some hab
      | false => exact .none

/-- Only the given values are bound. -/
theorem mem_of_lookup_bindArguments {α : Type} {params : List String} {as : List α} {p : String}
    {a : α} (h : (bindArguments params as).lookup p = some a) : a ∈ as :=
  (List.of_mem_zip (List.mem_reverse.1 (Table.mem_of_lookup h))).2

theorem Calls.lookup {s : State} {depth : Nat} {scope : Scope} {callee : Ident} {args : List Expr}
    {g : Function} {values : List Value} (h : s.Calls depth scope callee args g values)
    (p : String) :
    Option.Rel (fun a v => s.evalAt (depth + 1) scope a = .ok v)
      ((bindArguments g.params args).lookup p) ((bindArguments g.params values).lookup p) :=
  lookup_bindArguments (evalAllWith_forall₂ h.values) g.params p

/-! ### Flow -/

/-- The value of an expression is that of a name, up to its sign: the name stands in the expression
itself, in the body of a function called, or in the argument that a parameter is bound to. The last
two places are the scope and the name there. -/
inductive ComesTo (s : State) : Nat → Scope → Expr → Scope → String → Prop where
  | name (depth : Nat) (scope : Scope) (id : Ident) :
      ComesTo s depth scope (.name id) scope id.name
  | signed {depth : Nat} {scope scope' : Scope} {sign : Sign} {e : Expr} {span : Span}
      {name : String} (he : ComesTo s depth scope e scope' name) :
      ComesTo s depth scope (.signed sign e span) scope' name
  | paren {depth : Nat} {scope scope' : Scope} {e : Expr} {span : Span} {name : String}
      (he : ComesTo s depth scope e scope' name) :
      ComesTo s depth scope (.paren e span) scope' name
  | body {depth : Nat} {scope scope' : Scope} {callee : Ident} {args : List Expr} {span : Span}
      {g : Function} {values : List Value} {name : String}
      (hcall : s.Calls depth scope callee args g values)
      (hbody : ComesTo s depth (bindArguments g.params values) g.body scope' name) :
      ComesTo s (depth + 1) scope (.call callee args span) scope' name
  | argument {depth : Nat} {scope scope' : Scope} {callee : Ident} {args : List Expr}
      {span : Span} {g : Function} {values : List Value} {p name : String} {a : Expr}
      (hcall : s.Calls depth scope callee args g values)
      (hbody : ComesTo s depth (bindArguments g.params values) g.body
        (bindArguments g.params values) p)
      (hbound : (bindArguments g.params args).lookup p = some a)
      (ha : ComesTo s (depth + 1) scope a scope' name) :
      ComesTo s (depth + 1) scope (.call callee args span) scope' name

theorem evalName_param {s : State} {scope : Scope} {p : String} {v : Value}
    (h : scope.lookup p = some v) : s.evalName scope p = .ok v := by
  have hlookup : s.lookupIn scope p = some v := by rw [lookupIn, h, Option.some_or]
  rw [evalName, hlookup]

/-- An expression and the name that it comes to are beyond the limit together. -/
theorem ComesTo.withinLimit {s : State} {depth : Nat} {scope scope' : Scope} {e : Expr}
    {name : String} (h : s.ComesTo depth scope e scope' name) {v : Value}
    (hv : s.evalAt depth scope e = .ok v) :
    ∃ w, s.evalName scope' name = .ok w ∧ w.withinLimit = v.withinLimit := by
  induction h generalizing v with
  | name depth scope id =>
    rw [evalAt_name] at hv
    exact ⟨v, locate_ok hv, rfl⟩
  | signed _ ih =>
    rw [evalAt_signed] at hv
    obtain ⟨u, hu, hv⟩ := bind_eq_ok.1 hv
    obtain ⟨w, hw, hlimit⟩ := ih hu
    exact ⟨w, hw, hlimit.trans (Value.applySign_withinLimit (locate_ok hv)).symm⟩
  | paren _ ih =>
    rw [evalAt_paren] at hv
    exact ih hv
  | body hcall _ ih =>
    obtain ⟨inner, g, values, heq, hcall', hv⟩ := evalAt_call_eq_ok hv
    cases heq
    obtain ⟨rfl, rfl⟩ := hcall.unique hcall'
    exact ih hv
  | @argument depth scope scope' callee args span g values p name a hcall _ hbound _ ihbody iha =>
    obtain ⟨inner, g', values', heq, hcall', hv⟩ := evalAt_call_eq_ok hv
    cases heq
    obtain ⟨rfl, rfl⟩ := hcall.unique hcall'
    obtain ⟨u, hu, hlimit⟩ := ihbody hv
    -- The parameter has the value of its argument, and the argument is evaluated outside.
    have hrel := hcall.lookup p
    rw [hbound] at hrel
    cases hparam : (bindArguments g'.params values').lookup p with
    | none =>
      rw [hparam] at hrel
      cases hrel
    | some u' =>
      rw [hparam] at hrel
      cases hrel with
      | some hau =>
        rw [evalName_param hparam] at hu
        cases hu
        obtain ⟨w, hw, hlimit'⟩ := iha hau
        exact ⟨w, hw, hlimit'.trans hlimit⟩

/-- A value beyond the limit comes from a name that scales beyond it, or from a parameter. -/
theorem Bounded.comesTo {s : State} (hs : s.Bounded) {depth : Nat} {scope : Scope} {e : Expr}
    {v : Value} (he : e.LiteralsWithin) (h : s.evalAt depth scope e = .ok v)
    (hv : v.withinLimit = false) :
    ∃ scope' name, s.ComesTo depth scope e scope' name ∧ (s.ScalesBeyond scope' name ∨
      scope' = scope ∧ ∃ w, scope.lookup name = some w ∧ w.withinLimit = false) := by
  -- Bodies are evaluated at a smaller depth, arguments at the same depth as parts of the call.
  induction depth using Nat.strongRecOn generalizing scope e v with
  | ind depth ihdepth =>
    induction he generalizing v with
    | number hd =>
      rw [evalAt_number] at h
      cases h
      cases hd.symm.trans hv
    | @name id =>
      rw [evalAt_name] at h
      refine ⟨scope, id.name, .name depth scope id, ?_⟩
      rcases hs.evalName (locate_ok h) hv with hscales | hparam
      · exact .inl hscales
      · exact .inr ⟨rfl, v, hparam, hv⟩
    | @call callee args span _ ihargs =>
      obtain ⟨inner, g, values, rfl, hcall, h⟩ := evalAt_call_eq_ok h
      obtain ⟨f, -, hg⟩ := hcall.callable
      obtain ⟨-, gname, hgname⟩ := callableWith_eq_ok hg
      have hbody := hs.bodies gname g hgname
      obtain ⟨scope', name, hcomes, hscales | ⟨rfl, w, hparam, hw⟩⟩ :=
        ihdepth inner (Nat.lt_succ_self inner) hbody h hv
      · exact ⟨scope', name, .body hcall hcomes, .inl hscales⟩
      · have hrel := hcall.lookup name
        rw [hparam] at hrel
        cases hbound : (bindArguments g.params args).lookup name with
        | none =>
          rw [hbound] at hrel
          cases hrel
        | some a =>
          rw [hbound] at hrel
          cases hrel with
          | some haw =>
            have ha : a ∈ args := mem_of_lookup_bindArguments hbound
            obtain ⟨scope'', name', hcomes', hend⟩ := ihargs a ha haw hw
            exact ⟨scope'', name', .argument hcall hcomes hbound hcomes', hend⟩
    | signed _ ih =>
      rw [evalAt_signed] at h
      obtain ⟨u, hu, h⟩ := bind_eq_ok.1 h
      rw [Value.applySign_withinLimit (locate_ok h)] at hv
      obtain ⟨scope', name, hcomes, hend⟩ := ih hu hv
      exact ⟨scope', name, .signed hcomes, hend⟩
    | binary _ _ _ _ =>
      rw [evalAt_binary] at h
      obtain ⟨lhs, -, h⟩ := bind_eq_ok.1 h
      obtain ⟨rhs, -, h⟩ := bind_eq_ok.1 h
      cases (Value.operate_withinLimit (locate_ok h)).symm.trans hv
    | unitOf _ _ =>
      rw [evalAt_unitOf] at h
      obtain ⟨u, -, h⟩ := bind_eq_ok.1 h
      cases h
      cases hv
    | paren _ ih =>
      rw [evalAt_paren] at h
      obtain ⟨scope', name, hcomes, hend⟩ := ih h hv
      exact ⟨scope', name, .paren hcomes, hend⟩

/-- The value of an expression comes from a name that scales beyond the limit. -/
def Overflows (s : State) (e : Expr) : Prop :=
  ∃ scope name, s.ComesTo maxCallDepth [] e scope name ∧ s.ScalesBeyond scope name

theorem Overflows.withinLimit {s : State} {e : Expr} (h : s.Overflows e) {v : Value}
    (hv : s.eval e = .ok v) : v.withinLimit = false := by
  obtain ⟨scope, name, hcomes, hscales⟩ := h
  obtain ⟨w, hw, hlimit⟩ := hcomes.withinLimit hv
  obtain ⟨w', hw', hbeyond⟩ := hscales.evalName
  rw [hw] at hw'
  cases hw'
  rw [← hlimit, hbeyond]

/-- Nothing but a scaled name leads beyond the limit. -/
theorem Bounded.withinLimit {s : State} (hs : s.Bounded) {e : Expr} (he : e.LiteralsWithin)
    {v : Value} (hv : s.eval e = .ok v) (hno : ¬ s.Overflows e) : v.withinLimit = true := by
  cases hlimit : v.withinLimit with
  | true => rfl
  | false =>
    obtain ⟨scope, name, hcomes, hscales | ⟨rfl, w, hparam, -⟩⟩ := hs.comesTo he hv hlimit
    · exact absurd ⟨scope, name, hcomes, hscales⟩ hno
    · cases hparam

end State

end UnitCalc
