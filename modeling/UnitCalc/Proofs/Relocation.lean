import UnitCalc.Program.Basic

/-! Relocation: the same tokens, expressions, lines and states with their spans moved by a function.
Moving every span to the same place forgets where things stand, and two things are equal up to
spans if nothing else tells them apart. -/

namespace UnitCalc

namespace Table

variable {α β : Type}

/-- The same names with other values. -/
def map (g : α → β) (t : Table α) : Table β :=
  ⟨t.entries.map fun e => (e.1, g e.2), List.pairwise_map.2 t.ascending⟩

@[simp] theorem find?_map (g : α → β) (t : Table α) (name : String) :
    (t.map g).find? name = (t.find? name).map g := by
  obtain ⟨es, hes⟩ := t
  simp only [find?, map]
  clear hes
  induction es with
  | nil => rfl
  | cons e es ih =>
    rw [List.map_cons, lookup_cons, lookup_cons, ih]
    split <;> rfl

@[simp] theorem contains_map (g : α → β) (t : Table α) (name : String) :
    (t.map g).contains name = t.contains name := by
  rw [contains, find?_map, Option.isSome_map, contains]

theorem map_insert (g : α → β) (t : Table α) (name : String) (a : α) :
    (t.insert name a).map g = (t.map g).insert name (g a) := by
  apply ext_find?
  intro other
  rw [find?_map, find?_insert, find?_insert, find?_map]
  split <;> rfl

end Table

/-! ### Tokens and expressions -/

/-- The same range further down the text. -/
def Span.shift (k : Nat) (s : Span) : Span := ⟨s.start + k, s.stop + k⟩

theorem Span.shift_merge (k : Nat) (a b : Span) :
    (a.merge b).shift k = (a.shift k).merge (b.shift k) := by
  simp only [shift, merge, Nat.add_min_add_right, Nat.add_max_add_right]

def Token.relocate (f : Span → Span) (t : Token) : Token := { t with span := f t.span }

@[simp] theorem Token.relocate_kind (f : Span → Span) (t : Token) :
    (t.relocate f).kind = t.kind := rfl

@[simp] theorem Token.relocate_lexeme (f : Span → Span) (t : Token) :
    (t.relocate f).lexeme = t.lexeme := rfl

@[simp] theorem Token.relocate_span (f : Span → Span) (t : Token) :
    (t.relocate f).span = f t.span := rfl

def Ident.relocate (f : Span → Span) (id : Ident) : Ident := { id with span := f id.span }

@[simp] theorem Ident.relocate_name (f : Span → Span) (id : Ident) :
    (id.relocate f).name = id.name := rfl

@[simp] theorem Ident.relocate_span (f : Span → Span) (id : Ident) :
    (id.relocate f).span = f id.span := rfl

@[simp] theorem Token.relocate_ident (f : Span → Span) (t : Token) :
    (t.relocate f).ident = t.ident.relocate f := rfl

namespace Expr

mutual
def relocate (f : Span → Span) : Expr → Expr
  | number d s => number d (f s)
  | name id => name (id.relocate f)
  | call callee args s => call (callee.relocate f) (relocateAll f args) (f s)
  | signed sign e s => signed sign (e.relocate f) (f s)
  | binary op l r s => binary op (l.relocate f) (r.relocate f) (f s)
  | unitOf e s => unitOf (e.relocate f) (f s)
  | paren e s => paren (e.relocate f) (f s)

def relocateAll (f : Span → Span) : List Expr → List Expr
  | [] => []
  | e :: es => e.relocate f :: relocateAll f es
end

theorem relocateAll_eq_map (f : Span → Span) (es : List Expr) :
    relocateAll f es = es.map (relocate f) := by
  induction es with
  | nil => rfl
  | cons e es ih => rw [relocateAll, ih, List.map_cons]

@[simp] theorem relocate_span (f : Span → Span) (e : Expr) : (e.relocate f).span = f e.span := by
  cases e <;> rfl

/-- A relocation keeps operations whole if it moves a merged span to the merged places. -/
theorem relocate_combine {f : Span → Span} (hf : ∀ a b, f (a.merge b) = (f a).merge (f b))
    (op : Operator) (lhs rhs : Expr) :
    (combine op lhs rhs).relocate f = combine op (lhs.relocate f) (rhs.relocate f) := by
  simp only [combine, relocate, hf, relocate_span]

mutual
/-- Moving twice is moving once by the composition. -/
theorem relocate_relocate (f g : Span → Span) (e : Expr) :
    (e.relocate g).relocate f = e.relocate (f ∘ g) := by
  match e with
  | number _ _ | name _ => rfl
  | call callee args s =>
    simp only [relocate, relocateAll_relocateAll f g args]
    rfl
  | signed _ e _ | unitOf e _ | paren e _ =>
    simp only [relocate, relocate_relocate f g e, Function.comp]
  | binary _ l r _ =>
    simp only [relocate, relocate_relocate f g l, relocate_relocate f g r, Function.comp]

theorem relocateAll_relocateAll (f g : Span → Span) (es : List Expr) :
    relocateAll f (relocateAll g es) = relocateAll (f ∘ g) es := by
  match es with
  | [] => rfl
  | e :: es => simp only [relocateAll, relocate_relocate f g e, relocateAll_relocateAll f g es]
end

end Expr

/-! ### Lines -/

def ParseError.relocate (f : Span → Span) (e : ParseError) : ParseError :=
  { e with span := f e.span }

def Binding.relocate (f : Span → Span) (b : Binding) : Binding :=
  ⟨b.name.relocate f, b.params.map (·.map (·.relocate f)), b.rhs.relocate f, f b.span⟩

def Line.relocate (f : Span → Span) : Line → Line
  | blank => blank
  | unit name s => unit (name.relocate f) (f s)
  | binding b => binding (b.relocate f)
  | print e s => print (e.relocate f) (f s)
  | expr e => expr (e.relocate f)

theorem Binding.relocate_relocate (f g : Span → Span) (b : Binding) :
    (b.relocate g).relocate f = b.relocate (f ∘ g) := by
  have hparams : (b.params.map (·.map (·.relocate g))).map (·.map (·.relocate f)) =
      b.params.map (·.map (·.relocate (f ∘ g))) := by
    cases b.params with
    | none => rfl
    | some ps =>
      simp only [Option.map_some, List.map_map]
      rfl
  simp only [relocate, Expr.relocate_relocate, hparams]
  rfl

theorem Line.relocate_relocate (f g : Span → Span) (l : Line) :
    (l.relocate g).relocate f = l.relocate (f ∘ g) := by
  cases l with
  | blank | unit _ _ => rfl
  | binding b => simp only [relocate, Binding.relocate_relocate]
  | print e _ | expr e => simp only [relocate, Expr.relocate_relocate, Function.comp]

def Statement.relocate (f : Span → Span) : Statement → Statement
  | declareUnit name s => declareUnit (name.relocate f) (f s)
  | declareVariable name rhs s => declareVariable (name.relocate f) (rhs.relocate f) (f s)
  | declareFunction name params rhs s =>
    declareFunction (name.relocate f) (params.map (·.relocate f)) (rhs.relocate f) (f s)
  | print e s => print (e.relocate f) (f s)
  | eval e => eval (e.relocate f)

/-! ### States and what a run gives -/

def EvalError.relocate (f : Span → Span) (e : EvalError) : EvalError :=
  { e with span := f e.span }

def ProgramError.relocate (f : Span → Span) : ProgramError → ProgramError
  | parse errors => parse (errors.map (·.relocate f))
  | eval line e => eval line (e.relocate f)

def Outcome.relocate (f : Span → Span) : Outcome → Outcome
  | empty => empty
  | value v => value v
  | printed e v => printed (e.relocate f) v

def Function.relocate (f : Span → Span) (g : Function) : Function :=
  { g with body := g.body.relocate f }

@[simp] theorem Function.relocate_params (f : Span → Span) (g : Function) :
    (g.relocate f).params = g.params := rfl

/-- In a state only the bodies of functions have spans. -/
def State.relocate (f : Span → Span) (s : State) : State :=
  { s with functions := s.functions.map (Function.relocate f) }

end UnitCalc
