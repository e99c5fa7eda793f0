import UnitCalc.Proofs.Readers

/-! The grammar of expressions, level by level, and the reader that accepts exactly its phrases.

    comparison    ::= sum | comparison (= == != < <= > >=) sum
    sum           ::= product | sum (+ -) product
    product       ::= juxtaposition | product (* / %) juxtaposition
    juxtaposition ::= signed | juxtaposition power
    signed        ::= (+ -) signed | power
    power         ::= primary | primary ^ signed
    primary       ::= number | NAME | NAME ( arguments | ( comparison ) | [ comparison ]
    arguments     ::= ) | comparison ) | comparison , arguments

The parenthesis of a call stands directly behind the name, and a name with a parenthesis directly
behind it is never a bare name. The reader works with bounds on precedences and has no levels; what
ties the two together is how tightly the token after a phrase binds. -/

namespace UnitCalc.Grammar

open UnitCalc.Expr

inductive Level where
  | comparison | sum | product | juxtaposition | signed | power | primary
deriving DecidableEq

namespace Level

/-- The level whose phrases are phrases of this one as they stand. -/
def tighter? : Level → Option Level
  | comparison => some sum
  | sum => some product
  | product => some juxtaposition
  | juxtaposition => some signed
  | signed => some power
  | power => some primary
  | primary => none

/-- The operators that group to the left at this level. -/
def operator? : Level → Token.Kind → Option Operator
  | comparison, .equal => some .eq
  | comparison, .doubleEqual => some .eq
  | comparison, .notEqual => some .ne
  | comparison, .less => some .lt
  | comparison, .lessEqual => some .le
  | comparison, .greater => some .gt
  | comparison, .greaterEqual => some .ge
  | sum, .plus => some .add
  | sum, .minus => some .sub
  | product, .star => some .mul
  | product, .slash => some .div
  | product, .percent => some .mod
  | _, _ => none

end Level

/-- The number that a literal writes; underscores only separate digits. -/
def literalValue? (lexeme : String) : Option Decimal :=
  Decimal.ofString? (String.ofList (lexeme.toList.filter (· ≠ '_')))

mutual
/-- A phrase of a level stands at the head of a list of tokens: the tree it has and the tokens that
follow it. -/
inductive Derives : Level → List Token → Expr → List Token → Prop where
  | tighter {l l' : Level} {ts rest : List Token} {e : Expr} (hl : l.tighter? = some l')
      (h : Derives l' ts e rest) : Derives l ts e rest
  | binary {l l' : Level} {ts mid rest : List Token} {t : Token} {op : Operator} {lhs rhs : Expr}
      (hl : l.tighter? = some l') (hlhs : Derives l ts lhs (t :: mid))
      (hop : l.operator? t.kind = some op) (hrhs : Derives l' mid rhs rest) :
      Derives l ts (combine op lhs rhs) rest
  | juxtapose {ts mid rest : List Token} {lhs rhs : Expr}
      (hlhs : Derives .juxtaposition ts lhs mid) (hrhs : Derives .power mid rhs rest) :
      Derives .juxtaposition ts (combine .mul lhs rhs) rest
  | sign {t : Token} {ts rest : List Token} {sign : Sign} {e : Expr}
      (ht : Sign.ofKind? t.kind = some sign) (h : Derives .signed ts e rest) :
      Derives .signed (t :: ts) (.signed sign e (t.span.merge e.span)) rest
  | raise {t : Token} {ts mid rest : List Token} {base exponent : Expr}
      (hbase : Derives .primary ts base (t :: mid)) (ht : t.kind = .caret)
      (hexponent : Derives .signed mid exponent rest) :
      Derives .power ts (combine .pow base exponent) rest
  | number {t : Token} {rest : List Token} {d : Decimal} (ht : t.kind = .integer ∨ t.kind = .float)
      (hd : literalValue? t.lexeme = some d) (hlimit : d.withinLimit) :
      Derives .primary (t :: rest) (.number d t.span) rest
  | name {t : Token} {rest : List Token} (ht : t.kind = .identifier) (hrest : ¬ OpensCall t rest) :
      Derives .primary (t :: rest) (.name t.ident) rest
  | call {t u close : Token} {us rest : List Token} {args : List Expr} (ht : t.kind = .identifier)
      (hu : u.kind = .openParen) (hadj : u.span.start = t.span.stop)
      (hargs : Arguments us args close rest) :
      Derives .primary (t :: u :: us) (.call t.ident args (t.span.merge close.span)) rest
  | paren {t close : Token} {ts rest : List Token} {e : Expr} (ht : t.kind = .openParen)
      (h : Derives .comparison ts e (close :: rest)) (hclose : close.kind = .closeParen) :
      Derives .primary (t :: ts) (.paren e (t.span.merge close.span)) rest
  | bracket {t close : Token} {ts rest : List Token} {e : Expr} (ht : t.kind = .openBracket)
      (h : Derives .comparison ts e (close :: rest)) (hclose : close.kind = .closeBracket) :
      Derives .primary (t :: ts) (.unitOf e (t.span.merge close.span)) rest

/-- Arguments up to the closing parenthesis, with maybe a comma after the last. -/
inductive Arguments : List Token → List Expr → Token → List Token → Prop where
  | done {close : Token} {rest : List Token} (hclose : close.kind = .closeParen) :
      Arguments (close :: rest) [] close rest
  | last {ts rest : List Token} {close : Token} {e : Expr}
      (h : Derives .comparison ts e (close :: rest)) (hclose : close.kind = .closeParen) :
      Arguments ts [e] close rest
  | more {ts us rest : List Token} {comma close : Token} {e : Expr} {es : List Expr}
      (h : Derives .comparison ts e (comma :: us)) (hcomma : comma.kind = .comma)
      (hmore : Arguments us es close rest) : Arguments ts (e :: es) close rest
end

/-! ### Precedences of levels and tokens -/

namespace Level

/-- A reader reads phrases of this level if its bound is lower. -/
def precedence : Level → Nat
  | comparison => 1
  | sum => 2
  | product => 3
  | juxtaposition => 4
  | signed | power => 6
  | primary => 7

/-- The tightest token after a phrase of this level that does not go on with it. -/
def follow : Level → Nat
  | comparison => 1
  | sum => 2
  | product => 3
  | juxtaposition => 4
  | signed | power => 5
  | primary => 6

/-- The loosest level that a reader with this bound reads. -/
def above : Nat → Level
  | 0 => comparison
  | 1 => sum
  | 2 => product
  | 3 => juxtaposition
  | _ => signed

def rank : Level → Nat
  | comparison => 0
  | sum => 1
  | product => 2
  | juxtaposition => 3
  | signed => 4
  | power => 5
  | primary => 6

theorem follow_le_of_tighter {l l' : Level} (h : l.tighter? = some l') : l.follow ≤ l'.follow := by
  cases l <;> cases h <;> decide

theorem precedence_le_of_tighter {l l' : Level} (h : l.tighter? = some l') :
    l.precedence ≤ l'.precedence := by
  cases l <;> cases h <;> decide

/-- An operator of a level binds as tightly as the level, on its right side too. -/
theorem operator?_spec {l l' : Level} {k : Token.Kind} {op : Operator} (hl : l.tighter? = some l')
    (h : l.operator? k = some op) :
    Operator.ofKind? k = some op ∧ op.precedence = l.precedence ∧ op.precedence = l.follow ∧
      op.rightPrecedence = op.precedence ∧ op.precedence < l'.precedence := by
  cases l <;> cases k <;> cases h <;> cases hl <;> decide

/-- Every operator but `^` groups to the left at the level of its precedence. -/
theorem operator?_above {k : Token.Kind} {op : Operator} (h : Operator.ofKind? k = some op) :
    (k = .caret ∧ op = .pow) ∨
      ((above (op.precedence - 1)).operator? k = some op ∧
        (above (op.precedence - 1)).tighter? = some (above op.precedence) ∧ op.precedence ≤ 3) := by
  cases k <;> cases h <;> decide

theorem rank_le (l : Level) : l.rank ≤ 6 := by cases l <;> decide

theorem rank_injective {l l' : Level} (h : l.rank = l'.rank) : l = l' := by
  revert h
  cases l <;> cases l' <;> decide

theorem exists_tighter? {l : Level} (h : l.rank < 6) :
    ∃ k, l.tighter? = some k ∧ k.rank = l.rank + 1 := by
  cases l
  case primary => exact absurd h (by decide)
  all_goals exact ⟨_, rfl, rfl⟩

theorem rank_above_le {l : Level} {min : Nat} (h : min < l.precedence) :
    (above min).rank ≤ l.rank := by
  match min with
  | 0 => exact Nat.zero_le _
  | 1 | 2 | 3 => revert h; cases l <;> decide
  | _ + 4 => revert h; cases l <;> simp [precedence, rank, above]

theorem rank_above_le_of_follow {l : Level} {p : Nat} (h : p ≤ l.follow) (hp : p ≤ 4) :
    (above (p - 1)).rank ≤ l.rank := by
  match p with
  | 0 | 1 => exact Nat.zero_le _
  | 2 | 3 | 4 => revert h; cases l <;> decide

end Level

/-- How tightly a token binds what stands before it: an operator by its precedence, the start of an
operand as a juxtaposition, any other token not at all. -/
def tightness (k : Token.Kind) : Nat :=
  match Operator.ofKind? k with
  | some op => op.precedence
  | none => if k.startsOperand then Operator.juxtaposition else 0

/-- How tightly the tokens that follow a phrase bind it. -/
def pull : List Token → Nat
  | [] => 0
  | t :: _ => tightness t.kind

@[simp] theorem pull_cons (t : Token) (ts : List Token) : pull (t :: ts) = tightness t.kind := rfl

theorem tightness_operator {k : Token.Kind} {op : Operator} (h : Operator.ofKind? k = some op) :
    tightness k = op.precedence := by
  rw [tightness, h]

theorem tightness_le (k : Token.Kind) : tightness k ≤ 6 := by
  cases k <;> decide

theorem pull_le (ts : List Token) : pull ts ≤ 6 := by
  cases ts with
  | nil => exact Nat.zero_le 6
  | cons t ts => exact tightness_le t.kind

theorem ofKind?_of_startsOperand {k : Token.Kind} (h : k.startsOperand) :
    Operator.ofKind? k = none := by
  revert h
  cases k <;> decide

theorem tightness_of_startsOperand {k : Token.Kind} (h : k.startsOperand) : tightness k = 4 := by
  rw [tightness, ofKind?_of_startsOperand h]
  simp only [h, if_true]
  rfl

/-! ### Phrases -/

theorem Derives.enclosed {t close : Token} {ts rest : List Token} {e : Expr} {kind : Token.Kind}
    {make : Expr → Span → Expr} (ht : Encloses t.kind kind make)
    (h : Derives .comparison ts e (close :: rest)) (hclose : close.kind = kind) :
    Derives .primary (t :: ts) (make e (t.span.merge close.span)) rest := by
  generalize hkind : t.kind = k at ht
  cases ht with
  | paren => exact .paren hkind h hclose
  | bracket => exact .bracket hkind h hclose

/-- A phrase begins with an operand; from `signed` on it may begin with a sign. -/
theorem Derives.head {l : Level} {ts rest : List Token} {e : Expr} (h : Derives l ts e rest) :
    ∃ t us, ts = t :: us ∧
      (t.kind.startsOperand ∨ l.rank ≤ 4 ∧ (Sign.ofKind? t.kind).isSome) := by
  match h with
  | .tighter hl h =>
    obtain ⟨t, us, rfl, hs | ⟨hr, hs⟩⟩ := h.head
    · exact ⟨t, us, rfl, .inl hs⟩
    · refine ⟨t, us, rfl, .inr ⟨?_, hs⟩⟩
      revert hr
      cases l <;> cases hl <;> decide
  | .binary _ h _ _ => exact h.head
  | .juxtapose h _ => exact h.head
  | .sign ht _ => exact ⟨_, _, rfl, .inr ⟨Nat.le_refl 4, by rw [ht]; rfl⟩⟩
  | .raise h _ _ =>
    obtain ⟨t, us, rfl, hs | ⟨hr, -⟩⟩ := h.head
    · exact ⟨t, us, rfl, .inl hs⟩
    · exact absurd hr (by decide)
  | .number ht _ _ => exact ⟨_, _, rfl, .inl (by rcases ht with ht | ht <;> rw [ht] <;> rfl)⟩
  | .name ht _ | .call ht _ _ _ => exact ⟨_, _, rfl, .inl (by rw [ht]; rfl)⟩
  | .paren ht _ _ | .bracket ht _ _ => exact ⟨_, _, rfl, .inl (by rw [ht]; rfl)⟩

theorem Derives.head_of_power {ts rest : List Token} {e : Expr} (h : Derives .power ts e rest) :
    ∃ t us, ts = t :: us ∧ t.kind.startsOperand := by
  obtain ⟨t, us, rfl, hs | ⟨hr, -⟩⟩ := h.head
  · exact ⟨t, us, rfl, hs⟩
  · exact absurd hr (by decide)

theorem Derives.head_ne_close {l : Level} {ts rest : List Token} {e : Expr}
    (h : Derives l ts e rest) : ∃ t us, ts = t :: us ∧ t.kind ≠ .closeParen := by
  obtain ⟨t, us, rfl, hs⟩ := h.head
  refine ⟨t, us, rfl, fun ht => ?_⟩
  rw [ht] at hs
  rcases hs with hs | ⟨-, hs⟩ <;> cases hs

/-- A phrase of a level is a phrase of every looser one. -/
theorem Derives.loosen {l l' : Level} {ts rest : List Token} {e : Expr} (h : Derives l' ts e rest)
    (hl : l.rank ≤ l'.rank) : Derives l ts e rest := by
  obtain ⟨n, hn⟩ := Nat.exists_eq_add_of_le hl
  induction n generalizing l with
  | zero => exact Level.rank_injective hn.symm ▸ h
  | succ n ih =>
    obtain ⟨k, hk, hrank⟩ := Level.exists_tighter? (l := l) (by have := l'.rank_le; omega)
    exact .tighter hk (ih (by omega) (by omega))

theorem sign?_of_startsOperand {k : Token.Kind} (h : k.startsOperand) : Sign.ofKind? k = none := by
  revert h
  cases k <;> decide

/-- A signed phrase without a sign is a power. -/
theorem Derives.power_of_startsOperand {t : Token} {ts rest : List Token} {e : Expr}
    (h : Derives .signed (t :: ts) e rest) (ht : t.kind.startsOperand) :
    Derives .power (t :: ts) e rest := by
  cases h with
  | tighter hl h =>
    cases hl
    exact h
  | binary _ _ hop _ => cases hop
  | sign hsign _ =>
    rw [sign?_of_startsOperand ht] at hsign
    cases hsign

end UnitCalc.Grammar
