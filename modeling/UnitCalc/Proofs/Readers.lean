import UnitCalc.Line.Parser

/-! The readers of expressions as plain functions. The readers of the parser return the tokens they
left together with a proof that these are fewer; here the proofs are dropped, each reader gets one
equation for every form of its input, and the recursion of all four is packed into one induction
principle. Later modules use the equations and the principle, and never unfold a reader. -/

namespace UnitCalc

/-- The sign that a token stands for in front of an operand. -/
def Sign.ofKind? : Token.Kind → Option Sign
  | .plus => some .plus
  | .minus => some .minus
  | _ => none

namespace Expr

/-- `parse` without the length proof. -/
def read (stop : Token) (min : Nat) (ts : List Token) : Except ParseError (Expr × List Token) :=
  (parse stop min ts).map fun r => (r.1, r.2.1)

def readOperations (stop : Token) (min : Nat) (lhs : Expr) (ts : List Token) :
    Except ParseError (Expr × List Token) :=
  (parseOperations stop min lhs ts).map fun r => (r.1, r.2.1)

def readOperand (stop : Token) (ts : List Token) : Except ParseError (Expr × List Token) :=
  (parseOperand stop ts).map fun r => (r.1, r.2.1)

def readArguments (stop : Token) (ts : List Token) :
    Except ParseError (List Expr × Token × List Token) :=
  (parseArguments stop ts).map fun r => (r.1, r.2.1, r.2.2.1)

/-- The closing token of an expression in parentheses or brackets. -/
def readClosing (kind : Token.Kind) (stop : Token) (ts : List Token) :
    Except ParseError (Token × List Token) :=
  (expect kind stop ts).map fun r => (r.1, r.2.1)

/-- An opening parenthesis stands directly behind the name `t`. -/
def OpensCall (t : Token) (ts : List Token) : Prop :=
  ∃ u us, ts = u :: us ∧ u.kind = .openParen ∧ u.span.start = t.span.stop

/-- Parentheses and brackets stand around an expression: the opening and the closing token, and what
the expression becomes. -/
inductive Encloses : Token.Kind → Token.Kind → (Expr → Span → Expr) → Prop where
  | paren : Encloses .openParen .closeParen .paren
  | bracket : Encloses .openBracket .closeBracket .unitOf

theorem encloses_paren {k : Token.Kind} (h : k = .openParen) : Encloses k .closeParen .paren := by
  rw [h]
  exact .paren

theorem encloses_bracket {k : Token.Kind} (h : k = .openBracket) :
    Encloses k .closeBracket .unitOf := by
  rw [h]
  exact .bracket

/-! ### Equations -/

theorem read_eq (stop : Token) (min : Nat) (ts : List Token) :
    read stop min ts = (readOperand stop ts).bind fun r => readOperations stop min r.1 r.2 := by
  rw [read, parse, readOperand]
  rcases parseOperand stop ts with e | ⟨lhs, rest, h⟩
  · rfl
  · simp only [bind, Except.bind, Except.map, readOperations]
    rcases parseOperations stop min lhs rest with e | ⟨e, rest', h'⟩ <;> rfl

@[simp] theorem readOperations_nil (stop : Token) (min : Nat) (lhs : Expr) :
    readOperations stop min lhs [] = .ok (lhs, []) := by
  rw [readOperations, parseOperations]
  rfl

theorem readOperations_operator {t : Token} {op : Operator}
    (hop : Operator.ofKind? t.kind = some op) (stop : Token) (min : Nat) (lhs : Expr)
    (ts : List Token) :
    readOperations stop min lhs (t :: ts) =
      if op.precedence ≤ min then .ok (lhs, t :: ts)
      else (read stop op.rightPrecedence ts).bind fun r =>
        readOperations stop min (combine op lhs r.1) r.2 := by
  rw [readOperations, parseOperations]
  split
  · rename_i op' hop'
    cases hop.symm.trans hop'
    split
    · rfl
    · rw [read]
      rcases parse stop op.rightPrecedence ts with e | ⟨rhs, rest, h⟩
      · rfl
      · simp only [bind, Except.bind, Except.map, readOperations]
        rcases parseOperations stop min (combine op lhs rhs) rest with e | ⟨e, rest', h'⟩ <;> rfl
  · rename_i hnone
    cases hop.symm.trans hnone

theorem readOperations_operand {t : Token} (hop : Operator.ofKind? t.kind = none) (stop : Token)
    (min : Nat) (lhs : Expr) (ts : List Token) :
    readOperations stop min lhs (t :: ts) =
      if t.kind.startsOperand ∧ min < Operator.juxtaposition then
        (read stop Operator.juxtaposition (t :: ts)).bind fun r =>
          readOperations stop min (combine .mul lhs r.1) r.2
      else .ok (lhs, t :: ts) := by
  rw [readOperations, parseOperations]
  split
  · rename_i op' hop'
    cases hop.symm.trans hop'
  · simp only [Bool.and_eq_true, decide_eq_true_eq]
    split
    · rw [read]
      rcases parse stop Operator.juxtaposition (t :: ts) with e | ⟨rhs, rest, h⟩
      · rfl
      · simp only [bind, Except.bind, Except.map, readOperations]
        rcases parseOperations stop min (combine .mul lhs rhs) rest with e | ⟨e, rest', h'⟩ <;> rfl
    · rfl

@[simp] theorem readOperand_nil (stop : Token) :
    readOperand stop [] = .error (.noExpression stop) := by
  rw [readOperand, parseOperand]
  rfl

theorem readOperand_sign {t : Token} {sign : Sign} (h : Sign.ofKind? t.kind = some sign)
    (stop : Token) (ts : List Token) :
    readOperand stop (t :: ts) = (read stop Operator.signPrecedence ts).map fun r =>
      (.signed sign r.1 (t.span.merge r.1.span), r.2) := by
  rw [readOperand, parseOperand.eq_def, read]
  -- Both signs run the same code, so one argument serves for either.
  cases ht : t.kind <;> rw [ht] at h <;> cases h <;> simp only [ht]
  all_goals
    rcases parse stop Operator.signPrecedence ts with e | ⟨e, rest, h⟩ <;> rfl

theorem readOperand_literal {t : Token} (h : t.kind = .integer ∨ t.kind = .float) (stop : Token)
    (ts : List Token) : readOperand stop (t :: ts) = (literal t).map (·, ts) := by
  rw [readOperand, parseOperand.eq_def]
  rcases h with h | h <;> simp only [h] <;> rcases literal t with e | e <;> rfl

theorem readOperand_name {t : Token} (h : t.kind = .identifier) {ts : List Token}
    (hts : ¬ OpensCall t ts) (stop : Token) :
    readOperand stop (t :: ts) = .ok (.name t.ident, ts) := by
  rw [readOperand, parseOperand.eq_def]
  simp only [h]
  cases ts with
  | nil => rfl
  | cons u us =>
    have hu : ¬ (u.kind = .openParen ∧ u.span.start = t.span.stop) :=
      fun hu => hts ⟨u, us, rfl, hu⟩
    simp only [if_neg hu]
    rfl

theorem readOperand_call {t u : Token} (h : t.kind = .identifier) (hu : u.kind = .openParen)
    (hadj : u.span.start = t.span.stop) (stop : Token) (us : List Token) :
    readOperand stop (t :: u :: us) = (readArguments stop us).map fun r =>
      (.call t.ident r.1 (t.span.merge r.2.1.span), r.2.2) := by
  rw [readOperand, parseOperand.eq_def, readArguments]
  simp only [h, if_pos (And.intro hu hadj)]
  rcases parseArguments stop us with e | ⟨args, close, rest, h⟩ <;> rfl

theorem readOperand_enclosed {t : Token} {close : Token.Kind} {make : Expr → Span → Expr}
    (h : Encloses t.kind close make) (stop : Token) (ts : List Token) :
    readOperand stop (t :: ts) = (read stop 0 ts).bind fun r =>
      (readClosing close stop r.2).map fun c => (make r.1 (t.span.merge c.1.span), c.2) := by
  rw [readOperand, parseOperand.eq_def, read]
  generalize hkind : t.kind = k at h
  cases h with
  | paren | bracket =>
    simp only [hkind]
    rcases parse stop 0 ts with e | ⟨e, rest, hr⟩
    · rfl
    · simp only [bind, Except.bind, Except.map, readClosing]
      rcases expect _ stop rest with e | ⟨c, rest', hc⟩ <;> rfl

/-- No operand begins with a token that is neither a sign nor the start of an operand. -/
theorem readOperand_other {t : Token} (hs : Sign.ofKind? t.kind = none)
    (h : t.kind.startsOperand = false) (stop : Token) (ts : List Token) :
    readOperand stop (t :: ts) = .error (.noExpression t) := by
  rw [readOperand, parseOperand.eq_def]
  cases ht : t.kind <;>
    simp only [ht, Sign.ofKind?, Token.Kind.startsOperand, reduceCtorEq] at hs h ⊢ <;> rfl

@[simp] theorem readArguments_nil (stop : Token) :
    readArguments stop [] = .error (.noExpression stop) := by
  rw [readArguments, parseArguments]
  rfl

theorem readArguments_close {t : Token} (h : t.kind = .closeParen) (stop : Token)
    (ts : List Token) : readArguments stop (t :: ts) = .ok ([], t, ts) := by
  rw [readArguments, parseArguments, if_pos h]
  rfl

/-- What follows an argument: the closing parenthesis, or a comma and more arguments. -/
def readMore (stop : Token) (e : Expr) :
    List Token → Except ParseError (List Expr × Token × List Token)
  | [] => .error (.unexpected stop (.token .closeParen))
  | u :: us =>
    if u.kind = .comma then (readArguments stop us).map fun r => (e :: r.1, r.2)
    else if u.kind = .closeParen then .ok ([e], u, us)
    else .error (.unexpected u (.token .closeParen))

theorem readArguments_cons {t : Token} (h : t.kind ≠ .closeParen) (stop : Token)
    (ts : List Token) :
    readArguments stop (t :: ts) =
      (read stop 0 (t :: ts)).bind fun r => readMore stop r.1 r.2 := by
  rw [readArguments, parseArguments, if_neg h, read]
  rcases parse stop 0 (t :: ts) with e | ⟨e, rest, hr⟩
  · rfl
  · cases rest with
    | nil => rfl
    | cons u us =>
      by_cases hc : u.kind = .comma
      · simp only [bind, Except.bind, Except.map, readMore, readArguments, if_pos hc]
        rcases parseArguments stop us with e | ⟨es, close, rest', h'⟩ <;> rfl
      · simp only [bind, Except.bind, Except.map, readMore, if_neg hc]
        by_cases hp : u.kind = .closeParen
        · simp only [if_pos hp]
        · simp only [if_neg hp]

@[simp] theorem readClosing_nil (kind : Token.Kind) (stop : Token) :
    readClosing kind stop [] = .error (.unexpected stop (.token kind)) := rfl

theorem readClosing_cons (kind : Token.Kind) (stop t : Token) (ts : List Token) :
    readClosing kind stop (t :: ts) =
      if t.kind = kind then .ok (t, ts) else .error (.unexpected t (.token kind)) := by
  rw [readClosing, expect]
  split <;> rfl

/-! ### Induction -/

theorem length_read {stop : Token} {min : Nat} {ts rest : List Token} {e : Expr}
    (h : read stop min ts = .ok (e, rest)) : rest.length < ts.length := by
  rw [read] at h
  rcases hp : parse stop min ts with err | ⟨e', rest', hlt⟩ <;> rw [hp] at h <;> cases h
  exact hlt

theorem length_readOperand {stop : Token} {ts rest : List Token} {e : Expr}
    (h : readOperand stop ts = .ok (e, rest)) : rest.length < ts.length := by
  rw [readOperand] at h
  rcases hp : parseOperand stop ts with err | ⟨e', rest', hlt⟩ <;> rw [hp] at h <;> cases h
  exact hlt

/-- Induction along the readers. What is shown of the inputs of a reader may be used where another
reader goes on with the tokens that it left. -/
theorem readers_induct (stop : Token) (onRead : Nat → List Token → Prop)
    (onOperations : Nat → Expr → List Token → Prop) (onOperand onArguments : List Token → Prop)
    (read_step : ∀ (min : Nat) (ts : List Token), onOperand ts →
      (∀ lhs rest, readOperand stop ts = .ok (lhs, rest) → onOperations min lhs rest) →
      onRead min ts)
    (operations_nil : ∀ (min : Nat) (lhs : Expr), onOperations min lhs [])
    (operations_operator : ∀ (min : Nat) (lhs : Expr) (t : Token) (ts : List Token)
      (op : Operator), Operator.ofKind? t.kind = some op →
      (¬ op.precedence ≤ min → onRead op.rightPrecedence ts) →
      (∀ rhs rest, ¬ op.precedence ≤ min → read stop op.rightPrecedence ts = .ok (rhs, rest) →
        onOperations min (combine op lhs rhs) rest) →
      onOperations min lhs (t :: ts))
    (operations_operand : ∀ (min : Nat) (lhs : Expr) (t : Token) (ts : List Token),
      Operator.ofKind? t.kind = none →
      (t.kind.startsOperand ∧ min < Operator.juxtaposition →
        onRead Operator.juxtaposition (t :: ts)) →
      (∀ rhs rest, t.kind.startsOperand ∧ min < Operator.juxtaposition →
        read stop Operator.juxtaposition (t :: ts) = .ok (rhs, rest) →
        onOperations min (combine .mul lhs rhs) rest) →
      onOperations min lhs (t :: ts))
    (operand_nil : onOperand [])
    (operand_sign : ∀ (t : Token) (ts : List Token) (sign : Sign),
      Sign.ofKind? t.kind = some sign → onRead Operator.signPrecedence ts → onOperand (t :: ts))
    (operand_literal : ∀ (t : Token) (ts : List Token), t.kind = .integer ∨ t.kind = .float →
      onOperand (t :: ts))
    (operand_name : ∀ (t : Token) (ts : List Token), t.kind = .identifier → ¬ OpensCall t ts →
      onOperand (t :: ts))
    (operand_call : ∀ (t u : Token) (us : List Token), t.kind = .identifier →
      u.kind = .openParen → u.span.start = t.span.stop → onArguments us →
      onOperand (t :: u :: us))
    (operand_enclosed : ∀ (t : Token) (ts : List Token) (close : Token.Kind)
      (make : Expr → Span → Expr), Encloses t.kind close make → onRead 0 ts → onOperand (t :: ts))
    (operand_other : ∀ (t : Token) (ts : List Token), Sign.ofKind? t.kind = none →
      t.kind.startsOperand = false → onOperand (t :: ts))
    (arguments_nil : onArguments [])
    (arguments_close : ∀ (t : Token) (ts : List Token), t.kind = .closeParen →
      onArguments (t :: ts))
    (arguments_cons : ∀ (t : Token) (ts : List Token), t.kind ≠ .closeParen →
      onRead 0 (t :: ts) → (∀ e u us, read stop 0 (t :: ts) = .ok (e, u :: us) → onArguments us) →
      onArguments (t :: ts)) :
    (∀ min ts, onRead min ts) ∧ (∀ min lhs ts, onOperations min lhs ts) ∧
      (∀ ts, onOperand ts) ∧ ∀ ts, onArguments ts := by
  refine parse.mutual_induct onRead onOperations onOperand onArguments ?_ operations_nil ?_ ?_ ?_ ?_
    operand_nil ?_ ?_ (fun t ts h => operand_literal t ts (.inl h))
    (fun t ts h => operand_literal t ts (.inr h)) ?_ ?_ ?_
    (fun t ts h => operand_enclosed t ts _ _ (encloses_paren h))
    (fun t ts h => operand_enclosed t ts _ _ (encloses_bracket h)) ?_
    arguments_nil arguments_close ?_
  · intro min ts hopd hops
    exact read_step min ts hopd fun lhs rest h => hops lhs rest (length_readOperand h)
  · intro min lhs t ts op hop hle
    exact operations_operator min lhs t ts op hop (absurd hle) fun _ _ hn => absurd hle hn
  · intro min lhs t ts op hop _ hread hops
    exact operations_operator min lhs t ts op hop (fun _ => hread) fun rhs rest _ h =>
      hops rhs rest (length_read h)
  · intro min lhs t ts hop _ hread hops
    exact operations_operand min lhs t ts hop (fun _ => hread) fun rhs rest _ h =>
      hops rhs rest (length_read h)
  · intro min lhs t ts hop hn
    rw [Bool.and_eq_true, decide_eq_true_eq] at hn
    exact operations_operand min lhs t ts hop (fun h => absurd h hn) fun _ _ h _ => absurd h hn
  · intro t ts h
    exact operand_sign t ts .plus (by rw [h]; rfl)
  · intro t ts h
    exact operand_sign t ts .minus (by rw [h]; rfl)
  · intro t h
    exact operand_name t [] h (by rintro ⟨u, us, h, -⟩; cases h)
  · intro t h u us hu
    exact operand_call t u us h hu.1 hu.2
  · intro t h u us hu
    refine operand_name t (u :: us) h ?_
    rintro ⟨u', us', heq, hu'⟩
    cases heq
    exact hu hu'
  · intro t ts h₁ h₂ h₃ h₄ h₅ h₆ h₇
    have hsign : Sign.ofKind? t.kind = none := by
      unfold Sign.ofKind?
      split
      · exact (h₁ ‹_›).elim
      · exact (h₂ ‹_›).elim
      · rfl
    have hstart : t.kind.startsOperand = false := by
      unfold Token.Kind.startsOperand
      split
      · exact (h₃ ‹_›).elim
      · exact (h₄ ‹_›).elim
      · exact (h₅ ‹_›).elim
      · exact (h₆ ‹_›).elim
      · exact (h₇ ‹_›).elim
      · rfl
    exact operand_other t ts hsign hstart
  · intro t ts h hread hargs
    exact arguments_cons t ts h hread fun e u us hr => hargs [] u us (length_read hr)

end Expr

end UnitCalc
