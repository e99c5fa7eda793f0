import UnitCalc.Proofs.CursorMoves

/-! A cursor reads expressions as the readers of a line do. Standing in a line it comes to the
result, or to the error, that they come to for the tokens of the line that are ahead; after a result
the tokens that they left are ahead. It goes along the line only and asks for no token outside, and
the rounds suffice if there are three for each of the tokens and three more. -/

namespace UnitCalc

namespace Expr

theorem Encloses.sign_eq {k close : Token.Kind} {make : Expr → Span → Expr}
    (h : Encloses k close make) : Sign.ofKind? k = none := by
  cases h <;> rfl

theorem Encloses.asName?_eq {k close : Token.Kind} {make : Expr → Span → Expr}
    (h : Encloses k close make) (e : Expr) (s : Span) : (make e s).asName? = none := by
  cases h <;> rfl

theorem asName?_literal {t : Token} {e : Expr} (h : literal t = .ok e) : e.asName? = none := by
  rw [literal] at h
  split at h
  · cases h
  · split at h <;> cases h
    rfl

end Expr

namespace Cursor

variable {tokens : List Token}

/-! ### Runs along a line -/

/-- A run that begins at `c` ends as a reader of the rest of the line does: with the same result and
the tokens that it left ahead, or with the same error. Only tokens of the line have been passed. -/
inductive Follows (tokens : List Token) (c : Cursor) (stop : Token) (ls : List TokenLine)
    {α : Type} : EStateM.Result Halt Cursor α → Except ParseError (α × List Token) → Prop where
  | ok {a : α} {rest : List Token} {c' : Cursor} (along : Along tokens c c')
      (faces : Faces tokens c' ⟨rest, stop⟩ ls) :
      Follows tokens c stop ls (.ok a c') (.ok (a, rest))
  | error {e : ParseError} {rest : List Token} {c' : Cursor} (along : Along tokens c c')
      (faces : Faces tokens c' ⟨rest, stop⟩ ls) :
      Follows tokens c stop ls (.error (.refused e) c') (.error e)

section Runs

variable {α β : Type} {c c' : Cursor} {stop t : Token} {ts : List Token} {ls : List TokenLine}

theorem Follows.after {r : EStateM.Result Halt Cursor α} {y : Except ParseError (α × List Token)}
    (h : Follows tokens c' stop ls r y) (halong : Along tokens c c') :
    Follows tokens c stop ls r y := by
  cases h with
  | ok along faces => exact .ok (halong.trans along) faces
  | error along faces => exact .error (halong.trans along) faces

/-- No reader leaves more tokens of the line than it was given. -/
theorem Follows.length_le {r : EStateM.Result Halt Cursor α}
    {y : Except ParseError (α × List Token)} (h : Follows tokens c stop ls r y)
    (hc : Faces tokens c ⟨ts, stop⟩ ls) {a : α} {rest : List Token} (hy : y = .ok (a, rest)) :
    rest.length ≤ ts.length := by
  cases h with
  | error => cases hy
  | ok along faces =>
    cases hy
    exact along.length_le hc faces

/-- Where runs follow readers, one after the other they follow one after the other. -/
theorem Follows.bind {x : Reader α} {f : α → Reader β} {y : Except ParseError (α × List Token)}
    {g : α × List Token → Except ParseError (β × List Token)}
    (h : Follows tokens c stop ls (x.run c) y)
    (hf : ∀ a rest c', y = .ok (a, rest) → Faces tokens c' ⟨rest, stop⟩ ls →
      Follows tokens c' stop ls ((f a).run c') (g (a, rest))) :
    Follows tokens c stop ls ((x >>= f).run c) (y.bind g) := by
  rw [EStateM.run_bind]
  generalize x.run c = r at h
  cases h with
  | ok along faces => exact (hf _ _ _ rfl faces).after along
  | error along faces => exact .error along faces

theorem Follows.map {x : Reader α} {y : Except ParseError (α × List Token)}
    (h : Follows tokens c stop ls (x.run c) y) (k : α → β) :
    Follows tokens c stop ls ((x >>= fun a => pure (k a)).run c)
      (y.map fun r => (k r.1, r.2)) := by
  rw [EStateM.run_bind]
  generalize x.run c = r at h
  cases h with
  | ok along faces => exact .ok along faces
  | error along faces => exact .error along faces

theorem Follows.bind_ok {x : Reader α} {f : α → Reader β} {a : α} {rest : List Token}
    {y : Except ParseError (β × List Token)}
    (h : Follows tokens c stop ls (x.run c) (.ok (a, rest)))
    (hf : ∀ c', Faces tokens c' ⟨rest, stop⟩ ls → Follows tokens c' stop ls ((f a).run c') y) :
    Follows tokens c stop ls ((x >>= f).run c) y := by
  rw [EStateM.run_bind]
  generalize x.run c = r at h
  cases h with
  | ok along faces => exact (hf _ faces).after along

theorem Follows.bind_error {x : Reader α} {e : ParseError}
    (h : Follows tokens c stop ls (x.run c) (.error e)) (f : α → Reader β) :
    Follows tokens c stop ls ((x >>= f).run c) (.error e) := by
  rw [EStateM.run_bind]
  generalize x.run c = r at h
  cases h with
  | error along faces => exact .error along faces

/-- What runs behind a reader, and keeps its result. -/
theorem Follows.keep {x : Reader α} {f : α → Reader α} {y : Except ParseError (α × List Token)}
    (h : Follows tokens c stop ls (x.run c) y)
    (hf : ∀ a rest c', y = .ok (a, rest) → Faces tokens c' ⟨rest, stop⟩ ls →
      (f a).run c' = .ok a c') :
    Follows tokens c stop ls ((x >>= f).run c) y := by
  rw [EStateM.run_bind]
  generalize x.run c = r at h
  cases h with
  | ok along faces =>
    simp only
    rw [hf _ _ _ rfl faces]
    exact .ok along faces
  | error along faces => exact .error along faces

theorem follows_pure (h : Faces tokens c ⟨ts, stop⟩ ls) (a : α) :
    Follows tokens c stop ls ((pure a : Reader α).run c) (.ok (a, ts)) :=
  .ok (.refl c) h

theorem follows_throw (h : Faces tokens c ⟨ts, stop⟩ ls) (e : ParseError) :
    Follows tokens c stop ls ((throw (.refused e) : Reader α).run c) (.error e) :=
  .error (.refl c) h

/-- Taking a token of the line. -/
theorem follows_advance (hscan : Terminated tokens) (h : Faces tokens c ⟨t :: ts, stop⟩ ls) :
    Follows tokens c stop ls ((advance tokens).run c) (.ok (t, ts)) := by
  obtain ⟨c', hadvance, halong, hfaces⟩ := run_advance_token hscan h
  rw [hadvance]
  exact .ok halong hfaces

/-- The token that stops the line is of no kind that stands in one. -/
theorem stop_ne (h : Faces tokens c ⟨ts, stop⟩ ls) {kind : Token.Kind}
    (hkind : kind.endsLine = false) : stop.kind ≠ kind := by
  rintro rfl
  exact Bool.false_ne_true (hkind.symm.trans h.stop_endsLine)

/-- Looking at the token that stops the line, at its end. -/
theorem run_current_stop (h : Faces tokens c ⟨[], stop⟩ ls) (f : Token → Reader β) :
    (current tokens >>= f).run c = (f stop).run c :=
  run_current_bind h f

/-- Looking at the next token of the line. -/
theorem run_current_token (h : Faces tokens c ⟨t :: ts, stop⟩ ls) (f : Token → Reader β) :
    (current tokens >>= f).run c = (f t).run c :=
  run_current_bind h f

theorem follows_expect (hscan : Terminated tokens) (h : Faces tokens c ⟨ts, stop⟩ ls)
    (kind : Token.Kind) (hkind : kind.endsLine = false) :
    Follows tokens c stop ls ((expect tokens kind).run c) (Expr.readClosing kind stop ts) := by
  cases ts with
  | nil =>
    rw [expect, run_current_stop h, if_neg (stop_ne h hkind), Expr.readClosing_nil]
    exact follows_throw h _
  | cons t ts =>
    rw [expect, run_current_token h, Expr.readClosing_cons]
    by_cases ht : t.kind = kind
    · rw [if_pos ht, if_pos ht]
      exact follows_advance hscan h
    · rw [if_neg ht, if_neg ht]
      exact follows_throw h _

theorem run_eat_other {l : TokenLine} (h : Faces tokens c l ls) {kind : Token.Kind}
    (hkind : (l.current l.tokens).kind ≠ kind) : (eat tokens kind).run c = .ok false c := by
  rw [eat, run_current_bind h, if_neg hkind]
  rfl

theorem follows_eat (hscan : Terminated tokens) (h : Faces tokens c ⟨t :: ts, stop⟩ ls)
    {kind : Token.Kind} (hkind : t.kind = kind) :
    Follows tokens c stop ls ((eat tokens kind).run c) (.ok (true, ts)) := by
  rw [eat, run_current_token h, if_pos hkind]
  exact (follows_advance hscan h).bind_ok fun c' hfaces => follows_pure hfaces true

end Runs

/-! ### Lists in parentheses -/

section Lists

variable {α β : Type} {c : Cursor} {stop : Token} {ts : List Token} {ls : List TokenLine}

/-- The items of a list and the closing parenthesis. -/
def closed (tokens : List Token) (k : List α → Token → β) (items : Reader (List α)) :
    Reader β := do
  let as ← items
  let close ← expect tokens .closeParen
  pure (k as close)

theorem closed_map {γ : Type} (k : List α → Token → β) (items : Reader (List α)) (g : β → γ) :
    (closed tokens k items >>= fun b => pure (g b)) =
      closed tokens (fun as close => g (k as close)) items := by
  simp only [closed, bind_assoc, pure_bind]

/-- What stands behind an item: the closing parenthesis, or a comma and the other items. -/
def behindItem (stop : Token) (last : Token → β)
    (more : List Token → Except ParseError (β × List Token)) :
    List Token → Except ParseError (β × List Token)
  | [] => .error (.unexpected stop (.token .closeParen))
  | u :: us =>
    if u.kind = .comma then more us
    else if u.kind = .closeParen then .ok (last u, us)
    else .error (.unexpected u (.token .closeParen))

theorem behindItem_last {last : Token → β}
    {more : List Token → Except ParseError (β × List Token)}
    (h : ∀ u ∈ ts.head?, u.kind ≠ .comma) :
    behindItem stop last more ts =
      (Expr.readClosing .closeParen stop ts).map fun r => (last r.1, r.2) := by
  cases ts with
  | nil => rfl
  | cons u us =>
    rw [behindItem, if_neg (h u rfl), Expr.readClosing_cons]
    split <;> rfl

theorem follows_behindItem (hscan : Terminated tokens) (h : Faces tokens c ⟨ts, stop⟩ ls) (a : α)
    {k : List α → Token → β} {items : Reader (List α)}
    {more : List Token → Except ParseError (β × List Token)}
    (hmore : ∀ u us c', ts = u :: us → Faces tokens c' ⟨us, stop⟩ ls →
      Follows tokens c' stop ls ((closed tokens (fun as => k (a :: as)) items).run c') (more us)) :
    Follows tokens c stop ls
      ((closed tokens k (eat tokens .comma >>= fun isMore =>
        if isMore then items >>= fun as => pure (a :: as) else pure [a])).run c)
      (behindItem stop (k [a]) more ts) := by
  have hlast : (∀ u ∈ ts.head?, u.kind ≠ .comma) → Follows tokens c stop ls
      ((expect tokens .closeParen >>= fun close => pure (k [a] close)).run c)
      (behindItem stop (k [a]) more ts) := by
    intro hts
    rw [behindItem_last hts]
    exact (follows_expect hscan h .closeParen rfl).map (k [a])
  rw [closed, bind_assoc]
  cases ts with
  | nil =>
    rw [run_bind_of_ok (run_eat_other h (stop_ne h rfl)), if_neg Bool.false_ne_true, pure_bind]
    exact hlast nofun
  | cons u us =>
    by_cases hcomma : u.kind = .comma
    · refine (follows_eat hscan h hcomma).bind_ok fun c' hfaces => ?_
      rw [if_pos rfl, bind_assoc, behindItem, if_pos hcomma]
      simp only [pure_bind]
      exact hmore u us c' rfl hfaces
    · rw [run_bind_of_ok (run_eat_other h hcomma), if_neg Bool.false_ne_true, pure_bind]
      refine hlast fun v hv => ?_
      cases hv
      exact hcomma

end Lists

/-! ### Operands -/

section Operands

variable {c : Cursor} {stop t u : Token} {ts us : List Token} {ls : List TokenLine}
  {inner : Reader Expr} {args : Reader (List Expr)}

/-- A token that begins no operand is refused. -/
theorem follows_primary_other (h : Faces tokens c ⟨ts, stop⟩ ls)
    (ht : TokenLine.current ⟨ts, stop⟩ ts = t) (hkind : t.kind.startsOperand = false) :
    Follows tokens c stop ls ((primary tokens inner).run c) (.error (.noExpression t)) := by
  rw [primary, run_current_bind h, ht]
  cases hk : t.kind <;> simp only [hk, Token.Kind.startsOperand, reduceCtorEq] at hkind ⊢ <;>
    exact follows_throw h _

theorem follows_primary_literal (hscan : Terminated tokens) (h : Faces tokens c ⟨t :: ts, stop⟩ ls)
    (ht : t.kind = .integer ∨ t.kind = .float) :
    Follows tokens c stop ls ((primary tokens inner).run c) ((Expr.literal t).map (·, ts)) := by
  have hliteral : Follows tokens c stop ls
      ((advance tokens >>= fun _ c => conclude c (Expr.literal t)).run c)
      ((Expr.literal t).map (·, ts)) := by
    refine (follows_advance hscan h).bind_ok fun c' hfaces => ?_
    cases Expr.literal t with
    | ok e => exact .ok (.refl c') hfaces
    | error e => exact .error (.refl c') hfaces
  rw [primary, run_current_token h]
  rcases ht with ht | ht <;> rw [ht] <;> exact hliteral

theorem follows_primary_name (hscan : Terminated tokens) (h : Faces tokens c ⟨t :: ts, stop⟩ ls)
    (ht : t.kind = .identifier) :
    Follows tokens c stop ls ((primary tokens inner).run c) (.ok (.name t.ident, ts)) := by
  rw [primary, run_current_token h, ht]
  exact (follows_advance hscan h).bind_ok fun c' hfaces => follows_pure hfaces _

theorem follows_primary_enclosed (hscan : Terminated tokens) (h : Faces tokens c ⟨t :: ts, stop⟩ ls)
    {close : Token.Kind} {make : Expr → Span → Expr} (ht : Expr.Encloses t.kind close make)
    {y : Except ParseError (Expr × List Token)}
    (hinner : ∀ c', Faces tokens c' ⟨ts, stop⟩ ls → Follows tokens c' stop ls (inner.run c') y) :
    Follows tokens c stop ls ((primary tokens inner).run c)
      (y.bind fun r => (Expr.readClosing close stop r.2).map fun c =>
        (make r.1 (t.span.merge c.1.span), c.2)) := by
  rw [primary, run_current_token h]
  generalize hkind : t.kind = kind at ht
  cases ht with
  | paren | bracket =>
    refine (follows_advance hscan h).bind_ok fun c' hfaces => ?_
    refine (hinner c' hfaces).bind fun e rest c'' _ hrest => ?_
    exact (follows_expect hscan hrest _ rfl).map fun close => _

/-- Only a name is called. -/
theorem run_applied_other {l : TokenLine} {e : Expr} (h : Faces tokens c l ls)
    (he : e.asName? = none) : (applied tokens args e).run c = .ok e c := by
  rw [applied, run_current_bind h]
  cases e with
  | name id => cases he
  | number | call | signed | binary | unitOf | paren => rfl

theorem run_applied_name (h : Faces tokens c ⟨ts, stop⟩ ls) (hts : ¬ Expr.OpensCall t ts) :
    (applied tokens args (.name t.ident)).run c = .ok (.name t.ident) c := by
  have hnone : ¬ ((TokenLine.current ⟨ts, stop⟩ ts).kind = .openParen ∧
      (TokenLine.current ⟨ts, stop⟩ ts).span.start = t.ident.span.stop) := by
    rintro ⟨hkind, hadj⟩
    cases ts with
    | nil => exact stop_ne h rfl hkind
    | cons u us => exact hts ⟨u, us, rfl, hkind, hadj⟩
  rw [applied, run_current_bind h]
  simp only
  rw [if_neg hnone]
  rfl

theorem follows_applied_call (hscan : Terminated tokens) (h : Faces tokens c ⟨u :: us, stop⟩ ls)
    (hu : u.kind = .openParen) (hadj : u.span.start = t.span.stop)
    {y : Except ParseError ((List Expr × Token) × List Token)}
    (hargs : ∀ c', Faces tokens c' ⟨us, stop⟩ ls →
      Follows tokens c' stop ls ((closed tokens Prod.mk args).run c') y) :
    Follows tokens c stop ls ((applied tokens args (.name t.ident)).run c)
      (y.map fun r => (.call t.ident r.1.1 (t.span.merge r.1.2.span), r.2)) := by
  have hopens : u.kind = .openParen ∧ u.span.start = t.ident.span.stop := ⟨hu, hadj⟩
  have hexpect : (expect tokens .openParen).run c = (advance tokens).run c := by
    rw [expect, run_current_token h, if_pos hu]
  have hcall : (applied tokens args (.name t.ident)).run c =
      (advance tokens >>= fun _ => closed tokens Prod.mk args >>= fun r =>
        pure (Expr.call t.ident r.1 (t.span.merge r.2.span))).run c := by
    rw [applied, run_current_token h]
    simp only
    rw [if_pos hopens, EStateM.run_bind, EStateM.run_bind, hexpect]
    simp only [closed, bind_assoc, pure_bind]
    rfl
  rw [hcall]
  exact (follows_advance hscan h).bind_ok fun c' hfaces =>
    (hargs c' hfaces).map fun r => Expr.call t.ident r.1 (t.span.merge r.2.span)

end Operands

/-! ### Expressions -/

/-- A run with enough rounds follows a reader wherever the tokens `ts` are the rest of the line. -/
def Reads {α : Type} (tokens : List Token) (stop : Token) (ls : List TokenLine) (rounds : Nat)
    (ts : List Token) (x : Nat → Reader α) (y : Except ParseError (α × List Token)) : Prop :=
  ∀ n c, rounds ≤ n → Faces tokens c ⟨ts, stop⟩ ls → Follows tokens c stop ls ((x n).run c) y

theorem Reads.of_succ {α : Type} {stop : Token} {ls : List TokenLine} {rounds : Nat}
    {ts : List Token} {x : Nat → Reader α} {y : Except ParseError (α × List Token)}
    (h : ∀ n c, rounds ≤ n → Faces tokens c ⟨ts, stop⟩ ls →
      Follows tokens c stop ls ((x (n + 1)).run c) y) :
    Reads tokens stop ls (rounds + 1) ts x y := by
  intro n c hn hfaces
  obtain ⟨m, rfl⟩ := Nat.exists_eq_add_of_le' (Nat.le_of_add_left_le hn)
  exact h m c (by omega) hfaces

theorem of_endsLine {k : Token.Kind} (h : k.endsLine = true) :
    Operator.ofKind? k = none ∧ Sign.ofKind? k = none ∧ k.startsOperand = false := by
  revert h
  cases k <;> decide

theorem follows_operand_nil {c : Cursor} {stop : Token} {ls : List TokenLine}
    (h : Faces tokens c ⟨[], stop⟩ ls) (n : Nat) :
    Follows tokens c stop ls ((operand tokens (n + 1)).run c) (.error (.noExpression stop)) := by
  obtain ⟨-, hsign, hstart⟩ := of_endsLine h.stop_endsLine
  rw [operand, run_current_stop h, hsign]
  exact (follows_primary_other h rfl hstart).bind_error _

theorem follows_expression_nil {c : Cursor} {stop : Token} {ls : List TokenLine}
    (h : Faces tokens c ⟨[], stop⟩ ls) {n : Nat} (hn : 2 ≤ n) (min : Nat) :
    Follows tokens c stop ls ((expression tokens n min).run c) (.error (.noExpression stop)) := by
  obtain ⟨m, rfl⟩ := Nat.exists_eq_add_of_le' hn
  rw [expression]
  exact (follows_operand_nil h m).bind_error _

theorem readMore_eq (stop : Token) (e : Expr) (ts : List Token) :
    ((Expr.readMore stop e ts).map fun r => ((r.1, r.2.1), r.2.2)) =
      behindItem stop (fun close => ([e], close))
        (fun us => ((Expr.readArguments stop us).map fun r => ((r.1, r.2.1), r.2.2)).map fun r =>
          ((e :: r.1.1, r.1.2), r.2)) ts := by
  cases ts with
  | nil => rfl
  | cons u us =>
    rw [Expr.readMore, behindItem]
    split
    · cases Expr.readArguments stop us <;> rfl
    · split <;> rfl

theorem readers_follow (hscan : Terminated tokens) (stop : Token) (ls : List TokenLine) :
    (∀ min ts, Reads tokens stop ls (3 * ts.length + 2) ts (expression tokens · min)
        (Expr.read stop min ts)) ∧
      (∀ min lhs ts, Reads tokens stop ls (3 * ts.length + 3) ts (operations tokens · min lhs)
        (Expr.readOperations stop min lhs ts)) ∧
      (∀ ts, Reads tokens stop ls (3 * ts.length + 1) ts (operand tokens)
        (Expr.readOperand stop ts)) ∧
      ∀ ts, Reads tokens stop ls (3 * ts.length + 3) ts
        (fun n => closed tokens Prod.mk (arguments tokens n))
        ((Expr.readArguments stop ts).map fun r => ((r.1, r.2.1), r.2.2)) := by
  refine Expr.readers_induct stop _ _ _ _ ?read ?operations_nil ?operator
    ?operand ?nil ?sign ?literal ?name ?call ?enclosed ?other ?arguments_nil ?close ?arguments
  case read =>
    intro min ts hoperand hgo
    refine .of_succ fun n c hn h => ?_
    rw [expression, Expr.read_eq]
    refine (hoperand n c hn h).bind fun lhs rest c' hread hfaces => ?_
    have hlength := Expr.length_readOperand hread
    exact hgo lhs rest hread n c' (by omega) hfaces
  case operations_nil =>
    intro min lhs
    refine .of_succ fun n c _ h => ?_
    obtain ⟨hop, -, hstart⟩ := of_endsLine h.stop_endsLine
    rw [operations, run_current_stop h, Expr.readOperations_nil]
    simp only [hop, hstart]
    exact follows_pure h lhs
  case operator =>
    intro min lhs t ts op hop hread hgo
    refine .of_succ fun n c hn h => ?_
    rw [List.length_cons] at hn
    rw [operations, run_current_token h, Expr.readOperations_operator hop]
    simp only [hop]
    split
    · exact follows_pure h lhs
    · rename_i hle
      refine (follows_advance hscan h).bind_ok fun c' hfaces => ?_
      refine (hread hle n c' (by omega) hfaces).bind fun rhs rest c'' hrhs hrest => ?_
      have hlength := Expr.length_read hrhs
      exact hgo rhs rest hle hrhs n c'' (by omega) hrest
  case operand =>
    intro min lhs t ts hop hread hgo
    refine .of_succ fun n c hn h => ?_
    rw [List.length_cons] at hn
    rw [operations, run_current_token h, Expr.readOperations_operand hop]
    simp only [hop]
    split
    · rename_i hj
      refine (hread hj n c hn h).bind fun rhs rest c' hrhs hrest => ?_
      have hlength := Expr.length_read hrhs
      rw [List.length_cons] at hlength
      exact hgo rhs rest hj hrhs n c' (by omega) hrest
    · exact follows_pure h lhs
  case nil =>
    refine .of_succ fun n c _ h => ?_
    rw [Expr.readOperand_nil]
    exact follows_operand_nil h n
  case sign =>
    intro t ts sign hsign hread
    refine .of_succ fun n c hn h => ?_
    rw [List.length_cons] at hn
    rw [operand, run_current_token h, Expr.readOperand_sign hsign, hsign]
    refine (follows_advance hscan h).bind_ok fun c' hfaces => ?_
    exact (hread n c' (by omega) hfaces).map fun e => Expr.signed sign e (t.span.merge e.span)
  case literal =>
    intro t ts ht
    refine .of_succ fun n c hn h => ?_
    have hsign : Sign.ofKind? t.kind = none := by rcases ht with ht | ht <;> rw [ht] <;> rfl
    rw [operand, run_current_token h, Expr.readOperand_literal ht, hsign]
    refine (follows_primary_literal hscan h ht).keep fun e rest c' he hfaces => ?_
    obtain ⟨e', hliteral, heq⟩ := map_eq_ok.1 he
    cases heq
    exact run_applied_other hfaces (Expr.asName?_literal hliteral)
  case name =>
    intro t ts ht hname
    refine .of_succ fun n c hn h => ?_
    rw [operand, run_current_token h, Expr.readOperand_name ht hname, ht]
    refine (follows_primary_name hscan h ht).keep fun e rest c' he hfaces => ?_
    cases he
    exact run_applied_name hfaces hname
  case call =>
    intro t u us ht hu hadj hargs
    refine .of_succ fun n c hn h => ?_
    rw [List.length_cons, List.length_cons] at hn
    rw [operand, run_current_token h, Expr.readOperand_call ht hu hadj, ht]
    have hcall : ∀ c', Faces tokens c' ⟨u :: us, stop⟩ ls → Follows tokens c' stop ls
        ((applied tokens (arguments tokens n) (.name t.ident)).run c')
        ((Expr.readArguments stop us).map fun r =>
          (.call t.ident r.1 (t.span.merge r.2.1.span), r.2.2)) := by
      intro c' hfaces
      have hfollows := follows_applied_call hscan hfaces hu hadj fun c'' hus =>
        hargs n c'' (by omega) hus
      cases hr : Expr.readArguments stop us <;> rw [hr] at hfollows <;> exact hfollows
    exact (follows_primary_name hscan h ht).bind_ok hcall
  case enclosed =>
    intro t ts close make ht hread
    refine .of_succ fun n c hn h => ?_
    rw [List.length_cons] at hn
    rw [operand, run_current_token h, Expr.readOperand_enclosed ht, ht.sign_eq]
    refine (follows_primary_enclosed hscan h ht fun c' hfaces =>
      hread n c' (by omega) hfaces).keep fun e rest c' he hfaces => ?_
    obtain ⟨r, -, hr⟩ := bind_eq_ok.1 he
    obtain ⟨close, -, hmake⟩ := map_eq_ok.1 hr
    cases hmake
    exact run_applied_other hfaces (ht.asName?_eq _ _)
  case other =>
    intro t ts hsign hstart
    refine .of_succ fun n c hn h => ?_
    rw [operand, run_current_token h, Expr.readOperand_other hsign hstart, hsign]
    exact (follows_primary_other h rfl hstart).bind_error _
  case arguments_nil =>
    refine .of_succ fun n c hn h => ?_
    rw [closed, arguments, bind_assoc, run_current_stop h, if_neg (stop_ne h rfl),
      bind_assoc, Expr.readArguments_nil]
    exact (follows_expression_nil h hn 0).bind_error _
  case close =>
    intro t ts ht
    refine .of_succ fun n c hn h => ?_
    rw [closed, arguments, bind_assoc, run_current_token h, if_pos ht, pure_bind,
      Expr.readArguments_close ht]
    have hclose := follows_expect hscan h .closeParen rfl
    rw [Expr.readClosing_cons, if_pos ht] at hclose
    exact hclose.map fun close => ([], close)
  case arguments =>
    intro t ts ht hread hargs
    refine .of_succ fun n c hn h => ?_
    rw [closed, arguments, bind_assoc, run_current_token h, if_neg ht, bind_assoc,
      Expr.readArguments_cons ht, map_bind]
    refine (hread n c hn h).bind fun e rest c' he hfaces => ?_
    rw [readMore_eq]
    refine follows_behindItem hscan hfaces e fun u us c'' hrest hus => ?_
    subst hrest
    have hlength := Expr.length_read he
    simp only [List.length_cons] at hlength hn
    have hothers := (hargs e u us he n c'' (by omega) hus).map fun r => (e :: r.1, r.2)
    rw [closed_map] at hothers
    exact hothers

end Cursor

end UnitCalc
