import UnitCalc.Proofs.Recognition
import UnitCalc.Proofs.Relocation

/-! Reading relocated tokens gives the relocated results, errors included. The readers look at spans
only to merge them and to see whether an opening parenthesis stands directly behind a name, so a
relocation has to keep these two. -/

namespace UnitCalc

open UnitCalc.Expr Grammar

/-- A relocation that the readers do not notice on these tokens. -/
structure Moves (f : Span → Span) (ts : List Token) : Prop where
  merge : ∀ a b, f (a.merge b) = (f a).merge (f b)
  adjacent : ∀ t ∈ ts, ∀ u ∈ ts, t.kind = .identifier → u.kind = .openParen →
    ((f u.span).start = (f t.span).stop ↔ u.span.start = t.span.stop)

theorem Moves.mono {f : Span → Span} {ts us : List Token} (h : Moves f ts)
    (hus : ∀ t ∈ us, t ∈ ts) : Moves f us :=
  ⟨h.merge, fun t ht u hu => h.adjacent t (hus t ht) u (hus u hu)⟩

theorem Moves.tail {f : Span → Span} {t : Token} {ts : List Token} (h : Moves f (t :: ts)) :
    Moves f ts :=
  h.mono fun _ => List.mem_cons_of_mem t

theorem Moves.rest {f : Span → Span} {ts rest : List Token} (h : Moves f ts)
    (hrest : Spends ts rest) : Moves f rest :=
  h.mono fun _ => hrest.mem

/-- A shift moves all places alike. -/
theorem moves_shift (k : Nat) (ts : List Token) : Moves (Span.shift k) ts := by
  refine ⟨Span.shift_merge k, fun t _ u _ _ _ => ?_⟩
  simp only [Span.shift]
  omega

/-! ### Tokens -/

namespace Token

theorem ofHead_shift (k offset : Nat) (cs : List Char) :
    ofHead (offset + k) cs = (ofHead offset cs).relocate (Span.shift k) := by
  simp only [ofHead, relocate, Span.shift, Nat.add_right_comm offset k]

/-- A text further down has the same tokens further down. -/
theorem lexemes_shift (k skip offset : Nat) (cs : List Char) :
    lexemes skip (offset + k) cs = (lexemes skip offset cs).map (relocate (Span.shift k)) := by
  induction cs generalizing skip offset with
  | nil => rw [lexemes_nil, lexemes_nil, List.map_nil]
  | cons c cs ih =>
    have hnext : ∀ skip, lexemes skip (offset + k + c.utf8Size) cs =
        (lexemes skip (offset + c.utf8Size) cs).map (relocate (Span.shift k)) := by
      intro skip
      rw [Nat.add_right_comm, ih]
    cases skip with
    | succ skip => exact hnext skip
    | zero =>
      rw [lexemes_cons, lexemes_cons, hnext, hnext, ofHead_shift]
      split <;> rfl

theorem content_shift (offset : Nat) (cs : List Char) :
    content offset cs = (content 0 cs).map (relocate (Span.shift offset)) := by
  have hlexemes := lexemes_shift offset 0 0 cs
  rw [Nat.zero_add] at hlexemes
  rw [content, hlexemes, List.filter_map, content]
  rfl

end Token

/-! ### Expressions -/

section Expressions

variable {f : Span → Span} {stop : Token}

def movedRead (f : Span → Span) :
    Except ParseError (Expr × List Token) → Except ParseError (Expr × List Token) :=
  mapBoth (ParseError.relocate f) fun r => (r.1.relocate f, r.2.map (Token.relocate f))

def movedArguments (f : Span → Span) :
    Except ParseError (List Expr × Token × List Token) →
      Except ParseError (List Expr × Token × List Token) :=
  mapBoth (ParseError.relocate f) fun r =>
    (relocateAll f r.1, r.2.1.relocate f, r.2.2.map (Token.relocate f))

def ReadMoves (f : Span → Span) (stop : Token) (min : Nat) (ts : List Token) : Prop :=
  Moves f ts → Expr.read (stop.relocate f) min (ts.map (Token.relocate f)) =
    movedRead f (Expr.read stop min ts)

def OperationsMoves (f : Span → Span) (stop : Token) (min : Nat) (lhs : Expr) (ts : List Token) :
    Prop :=
  Moves f ts → readOperations (stop.relocate f) min (lhs.relocate f) (ts.map (Token.relocate f)) =
    movedRead f (readOperations stop min lhs ts)

def OperandMoves (f : Span → Span) (stop : Token) (ts : List Token) : Prop :=
  Moves f ts → readOperand (stop.relocate f) (ts.map (Token.relocate f)) =
    movedRead f (readOperand stop ts)

def ArgumentsMove (f : Span → Span) (stop : Token) (ts : List Token) : Prop :=
  Moves f ts → readArguments (stop.relocate f) (ts.map (Token.relocate f)) =
    movedArguments f (readArguments stop ts)

theorem unexpected_relocate (t : Token) (expected : ParseError.Expected) :
    ParseError.unexpected (t.relocate f) expected =
      (ParseError.unexpected t expected).relocate f := by
  rw [ParseError.unexpected, ParseError.unexpected, Token.relocate_kind]
  split <;> rfl

theorem noExpression_relocate (t : Token) :
    ParseError.noExpression (t.relocate f) = (ParseError.noExpression t).relocate f := by
  rw [ParseError.noExpression, ParseError.noExpression, Token.relocate_kind]
  split <;> rfl

theorem literal_relocate (t : Token) :
    literal (t.relocate f) = mapBoth (ParseError.relocate f) (relocate f) (literal t) := by
  rw [literal, literal, Token.relocate_lexeme]
  split
  · rfl
  · split <;> rfl

theorem opensCall_relocate {t : Token} {ts : List Token} (ht : t.kind = .identifier)
    (h : Moves f (t :: ts)) :
    OpensCall (t.relocate f) (ts.map (Token.relocate f)) ↔ OpensCall t ts := by
  cases ts with
  | nil =>
    constructor
    · rintro ⟨u, us, heq, -⟩
      cases heq
    · rintro ⟨u, us, heq, -⟩
      cases heq
  | cons u us =>
    have hadj := h.adjacent t List.mem_cons_self u (by simp) ht
    constructor
    · rintro ⟨u', us', heq, hu, hstart⟩
      cases heq
      exact ⟨u, us, rfl, hu, (hadj hu).1 hstart⟩
    · rintro ⟨u', us', heq, hu, hstart⟩
      cases heq
      exact ⟨_, _, rfl, hu, (hadj hu).2 hstart⟩

theorem readClosing_relocate (kind : Token.Kind) (stop : Token) (ts : List Token) :
    readClosing kind (stop.relocate f) (ts.map (Token.relocate f)) =
      mapBoth (ParseError.relocate f) (fun r => (r.1.relocate f, r.2.map (Token.relocate f)))
        (readClosing kind stop ts) := by
  cases ts with
  | nil =>
    rw [List.map_nil, readClosing_nil, readClosing_nil, unexpected_relocate]
    rfl
  | cons t ts =>
    rw [List.map_cons, readClosing_cons, readClosing_cons, Token.relocate_kind, unexpected_relocate]
    split <;> rfl

theorem operations_move_operator {t : Token} {min : Nat} {lhs : Expr} {ts : List Token}
    {op : Operator} (hop : Operator.ofKind? t.kind = some op)
    (hread : ¬ op.precedence ≤ min → ReadMoves f stop op.rightPrecedence ts)
    (hgo : ∀ rhs rest, ¬ op.precedence ≤ min →
      Expr.read stop op.rightPrecedence ts = .ok (rhs, rest) →
      OperationsMoves f stop min (combine op lhs rhs) rest) :
    OperationsMoves f stop min lhs (t :: ts) := by
  intro hmoves
  have hop' : Operator.ofKind? (t.relocate f).kind = some op := hop
  rw [List.map_cons, readOperations_operator hop', readOperations_operator hop]
  split
  · rfl
  · rename_i hle
    rw [hread hle hmoves.tail]
    apply mapBoth_bind
    rintro ⟨rhs, rest⟩ hr
    rw [← relocate_combine hmoves.merge]
    exact hgo rhs rest hle hr (hmoves.tail.rest (read_spends (rightPrecedence_le op) hr))

theorem operations_move_operand {t : Token} {min : Nat} {lhs : Expr} {ts : List Token}
    (hop : Operator.ofKind? t.kind = none)
    (hread : t.kind.startsOperand ∧ min < Operator.juxtaposition →
      ReadMoves f stop Operator.juxtaposition (t :: ts))
    (hgo : ∀ rhs rest, t.kind.startsOperand ∧ min < Operator.juxtaposition →
      Expr.read stop Operator.juxtaposition (t :: ts) = .ok (rhs, rest) →
      OperationsMoves f stop min (combine .mul lhs rhs) rest) :
    OperationsMoves f stop min lhs (t :: ts) := by
  intro hmoves
  have hop' : Operator.ofKind? (t.relocate f).kind = none := hop
  rw [List.map_cons, readOperations_operand hop', readOperations_operand hop, Token.relocate_kind]
  split
  · rename_i hj
    rw [← List.map_cons, hread hj hmoves]
    apply mapBoth_bind
    rintro ⟨rhs, rest⟩ hr
    rw [← relocate_combine hmoves.merge]
    exact hgo rhs rest hj hr (hmoves.rest (read_spends (by decide) hr))
  · rfl

theorem operand_moves_call {t u : Token} {us : List Token} (ht : t.kind = .identifier)
    (hu : u.kind = .openParen) (hadj : u.span.start = t.span.stop)
    (hargs : ArgumentsMove f stop us) : OperandMoves f stop (t :: u :: us) := by
  intro hmoves
  have hadj' : (u.relocate f).span.start = (t.relocate f).span.stop :=
    (hmoves.adjacent t List.mem_cons_self u (by simp) ht hu).2 hadj
  rw [List.map_cons, List.map_cons, readOperand_call (t := t.relocate f) (u := u.relocate f) ht hu
    hadj', readOperand_call ht hu hadj, hargs hmoves.tail.tail]
  apply mapBoth_map
  rintro ⟨args, close, rest⟩
  simp only [relocate, Token.relocate_ident, Token.relocate_span, hmoves.merge]

theorem Expr.Encloses.relocate {opening close : Token.Kind} {make : Expr → Span → Expr}
    (h : Encloses opening close make) (e : Expr) (s : Span) :
    (make e s).relocate f = make (e.relocate f) (f s) := by
  cases h <;> rfl

theorem operand_moves_enclosed {t : Token} {ts : List Token} {kind : Token.Kind}
    {make : Expr → Span → Expr} (ht : Encloses t.kind kind make) (hread : ReadMoves f stop 0 ts) :
    OperandMoves f stop (t :: ts) := by
  intro hmoves
  rw [List.map_cons, readOperand_enclosed (t := t.relocate f) ht, readOperand_enclosed ht,
    hread hmoves.tail]
  apply mapBoth_bind
  rintro ⟨e, rest⟩ _
  rw [readClosing_relocate]
  apply mapBoth_map
  rintro ⟨close, rest'⟩
  simp only [ht.relocate, Token.relocate_span, hmoves.merge]

theorem arguments_move_cons {t : Token} {ts : List Token} (ht : t.kind ≠ .closeParen)
    (hread : ReadMoves f stop 0 (t :: ts))
    (hargs : ∀ e u us, Expr.read stop 0 (t :: ts) = .ok (e, u :: us) → ArgumentsMove f stop us) :
    ArgumentsMove f stop (t :: ts) := by
  intro hmoves
  rw [List.map_cons, readArguments_cons (t := t.relocate f) ht, readArguments_cons ht,
    ← List.map_cons, hread hmoves]
  apply mapBoth_bind
  rintro ⟨e, rest⟩ hr
  cases rest with
  | nil =>
    rw [List.map_nil, readMore, readMore, unexpected_relocate]
    rfl
  | cons u us =>
    have hus := (hmoves.rest (read_spends (by decide) hr)).tail
    simp only [List.map_cons, readMore, Token.relocate_kind, hargs e u us hr hus,
      unexpected_relocate]
    split
    · apply mapBoth_map
      intro r
      rfl
    · split <;> rfl

/-- The readers do not notice a relocation. -/
theorem readers_move (f : Span → Span) (stop : Token) :
    (∀ min ts, ReadMoves f stop min ts) ∧ (∀ min lhs ts, OperationsMoves f stop min lhs ts) ∧
      (∀ ts, OperandMoves f stop ts) ∧ ∀ ts, ArgumentsMove f stop ts := by
  refine readers_induct stop (ReadMoves f stop) (OperationsMoves f stop) (OperandMoves f stop)
    (ArgumentsMove f stop) ?read ?operations_nil ?operator ?operand ?nil ?sign ?literal ?name ?call
    ?enclosed ?other ?arguments_nil ?close ?arguments
  case read =>
    intro min ts hoperand hgo hmoves
    rw [read_eq, read_eq, hoperand hmoves]
    apply mapBoth_bind
    rintro ⟨lhs, rest⟩ ho
    exact hgo lhs rest ho (hmoves.rest (readOperand_spends ho))
  case operations_nil =>
    intro min lhs _
    rw [List.map_nil, readOperations_nil, readOperations_nil]
    rfl
  case operator =>
    intro min lhs t ts op hop hread hgo
    exact operations_move_operator hop hread hgo
  case operand =>
    intro min lhs t ts hop hread hgo
    exact operations_move_operand hop hread hgo
  case nil =>
    intro _
    rw [List.map_nil, readOperand_nil, readOperand_nil, noExpression_relocate]
    rfl
  case sign =>
    intro t ts sign hsign hread hmoves
    rw [List.map_cons, readOperand_sign (t := t.relocate f) hsign, readOperand_sign hsign,
      hread hmoves.tail]
    apply mapBoth_map
    rintro ⟨e, rest⟩
    simp only [relocate, Token.relocate_span, relocate_span, hmoves.merge]
  case literal =>
    intro t ts ht _
    rw [List.map_cons, readOperand_literal (t := t.relocate f) ht, readOperand_literal ht,
      literal_relocate]
    apply mapBoth_map
    intro e
    rfl
  case name =>
    intro t ts ht hname hmoves
    rw [List.map_cons, readOperand_name ht hname, readOperand_name (t := t.relocate f) ht]
    · rfl
    · rwa [opensCall_relocate ht hmoves]
  case call =>
    intro t u us ht hu hadj hargs
    exact operand_moves_call ht hu hadj hargs
  case enclosed =>
    intro t ts kind make ht hread
    exact operand_moves_enclosed ht hread
  case other =>
    intro t ts hsign hstart _
    rw [List.map_cons, readOperand_other (t := t.relocate f) hsign hstart,
      readOperand_other hsign hstart, noExpression_relocate]
    rfl
  case arguments_nil =>
    intro _
    rw [List.map_nil, readArguments_nil, readArguments_nil, noExpression_relocate]
    rfl
  case close =>
    intro t ts ht _
    rw [List.map_cons, readArguments_close (t := t.relocate f) ht, readArguments_close ht]
    rfl
  case arguments =>
    intro t ts ht hread hargs
    exact arguments_move_cons ht hread hargs

theorem read_relocate {ts : List Token} (h : Moves f ts) (stop : Token) (min : Nat) :
    Expr.read (stop.relocate f) min (ts.map (Token.relocate f)) =
      movedRead f (Expr.read stop min ts) :=
  (readers_move f stop).1 min ts h

/-- The phrases on relocated tokens are the relocated phrases. -/
theorem derives_relocate {ts : List Token} (h : Moves f ts) {e : Expr} :
    Derives .comparison (ts.map (Token.relocate f)) e [] ↔
      ∃ e', Derives .comparison ts e' [] ∧ e'.relocate f = e := by
  have hmoved := read_relocate h (Token.endToken 0) 0
  constructor
  · intro hderives
    rw [read_all_iff.2 hderives] at hmoved
    cases hread : Expr.read (Token.endToken 0) 0 ts with
    | error err =>
      rw [hread] at hmoved
      cases hmoved
    | ok r =>
      obtain ⟨e', rest⟩ := r
      rw [hread] at hmoved
      obtain ⟨he, hrest⟩ := Prod.mk.inj (Except.ok.inj hmoved)
      have hnil : rest = [] := List.map_eq_nil_iff.1 hrest.symm
      rw [hnil] at hread
      exact ⟨e', read_all_iff.1 hread, he.symm⟩
  · rintro ⟨e', hderives, rfl⟩
    rw [read_all_iff.2 hderives] at hmoved
    exact read_all_iff.1 hmoved

end Expressions

/-! ### Lines -/

def TokenLine.relocate (f : Span → Span) (l : TokenLine) : TokenLine :=
  ⟨l.tokens.map (Token.relocate f), l.stop.relocate f⟩

namespace Line

variable {f : Span → Span}

theorem bindingParams?_relocate (ts : List Token) :
    bindingParams? (ts.map (Token.relocate f)) = (bindingParams? ts).map fun r =>
      (r.1.map (Ident.relocate f), r.2.map (Token.relocate f)) := by
  fun_induction bindingParams? ts with
  | case1 p c ts hp => simp [bindingParams?, hp]
  | case2 p c ts hp hc ih => simp [bindingParams?, hp, hc, ih, Function.comp_def]
  | case3 p c hp hc hclose e rest he => simp [bindingParams?, hp, hclose, he]
  | case4 p c hp hc hclose e rest he => simp [bindingParams?, hp, hclose, he]
  | case5 p c hp hc hclose => simp [bindingParams?, hp, hclose]
  | case6 p c ts hp hc hclose => simp [bindingParams?, hp, hc, hclose]
  | case7 ts hts =>
    cases ts with
    | nil => rfl
    | cons p ts =>
      cases ts with
      | nil => rfl
      | cons c ts => exact (hts p c ts rfl).elim

/-- The head of a binding has its parenthesis directly behind the name, like a call. -/
theorem bindingHead?_relocate {ts : List Token} (h : Moves f ts) :
    bindingHead? (ts.map (Token.relocate f)) = (bindingHead? ts).map fun r =>
      (r.1.relocate f, r.2.1.map (·.map (Ident.relocate f)), r.2.2.map (Token.relocate f)) := by
  match ts with
  | [] | [_] => rfl
  | n :: t :: ts =>
    by_cases hn : n.kind = .identifier
    · by_cases hopen : t.kind = .openParen
      · have hadj := h.adjacent n List.mem_cons_self t (by simp) hn hopen
        by_cases hstart : t.span.start = n.span.stop
        · match ts with
          | [] | [_] => simp [bindingHead?, hn, hopen, hstart, hadj]
          | c :: e :: rest =>
            have hparams := bindingParams?_relocate (f := f) (c :: e :: rest)
            simp only [List.map_cons] at hparams
            by_cases hc : c.kind = .closeParen
            · by_cases he : e.kind = .equal
              · simp [bindingHead?, hn, hopen, hstart, hadj, hc, he]
              · simp [bindingHead?, hn, hopen, hstart, hadj, hc, he]
            · simp [bindingHead?, hn, hopen, hstart, hadj, hc, hparams, Function.comp_def]
        · simp [bindingHead?, hn, hopen, hstart, hadj]
      · by_cases heq : t.kind = .equal
        · simp [bindingHead?, hn, heq]
        · simp [bindingHead?, hn, heq, hopen]
    · simp [bindingHead?, hn]

theorem firstRepeated?_relocate (seen : List String) (ps : List Ident) :
    firstRepeated? seen (ps.map (Ident.relocate f)) =
      (firstRepeated? seen ps).map (Ident.relocate f) := by
  induction ps generalizing seen with
  | nil => rfl
  | cons p ps ih =>
    simp only [List.map_cons, firstRepeated?, Ident.relocate_name, ih]
    split <;> rfl

theorem finish_relocate (l : Line) (ts : List Token) :
    finish (l.relocate f) (ts.map (Token.relocate f)) =
      mapBoth (ParseError.relocate f) (Line.relocate f) (finish l ts) := by
  cases ts with
  | nil => rfl
  | cons t ts =>
    rw [List.map_cons, finish, finish, unexpected_relocate]
    rfl

theorem parseUnit_relocate (hf : ∀ a b, f (a.merge b) = (f a).merge (f b)) (l : TokenLine)
    (start : Token) (ts : List Token) :
    parseUnit (l.relocate f) (start.relocate f) (ts.map (Token.relocate f)) =
      mapBoth (ParseError.relocate f) (Line.relocate f) (parseUnit l start ts) := by
  have hcurrent : (l.relocate f).current (ts.map (Token.relocate f)) =
      (l.current ts).relocate f := by
    cases ts <;> rfl
  simp only [parseUnit, hcurrent, Token.relocate_kind]
  split
  · rw [← finish_relocate, List.map_drop, Line.relocate, hf]
    rfl
  · rfl

theorem readLast_relocate {ts : List Token} (h : Moves f ts) (stop : Token) {k k' : Expr → Line}
    (hk : ∀ e, k' (e.relocate f) = (k e).relocate f) :
    readLast (stop.relocate f) k' (ts.map (Token.relocate f)) =
      mapBoth (ParseError.relocate f) (Line.relocate f) (readLast stop k ts) := by
  rw [readLast, readLast, read_relocate h]
  apply mapBoth_bind
  rintro ⟨e, rest⟩ _
  rw [hk]
  exact finish_relocate (k e) rest

theorem parseBinding_relocate {ts : List Token} (h : Moves f ts) (l : TokenLine) (name : Ident)
    (params : Option (List Ident)) :
    parseBinding (l.relocate f) (name.relocate f) (params.map (·.map (Ident.relocate f)))
        (ts.map (Token.relocate f)) =
      mapBoth (ParseError.relocate f) (Line.relocate f) (parseBinding l name params ts) := by
  have hparams : (params.map (·.map (Ident.relocate f))).getD [] =
      (params.getD []).map (Ident.relocate f) := by
    cases params <;> rfl
  rw [parseBinding_eq, parseBinding_eq, hparams, firstRepeated?_relocate]
  cases firstRepeated? [] (params.getD []) with
  | some p => rfl
  | none =>
    refine readLast_relocate h l.stop fun e => ?_
    simp only [Line.relocate, Binding.relocate, h.merge, Ident.relocate_span, Expr.relocate_span]

/-- Reading a relocated line gives the relocated result. -/
theorem parseTokens_relocate {l : TokenLine} (h : Moves f l.tokens) :
    parseTokens (l.relocate f) =
      mapBoth (ParseError.relocate f) (Line.relocate f) (parseTokens l) := by
  obtain ⟨tokens, stop⟩ := l
  cases tokens with
  | nil => rfl
  | cons t ts =>
    simp only [TokenLine.relocate, List.map_cons, parseTokens, Token.relocate_kind]
    split
    · exact parseUnit_relocate h.merge ⟨t :: ts, stop⟩ t ts
    · split
      · rw [parsePrint_eq, parsePrint_eq]
        refine readLast_relocate h.tail stop fun e => ?_
        simp only [Line.relocate, h.merge, Token.relocate_span, Expr.relocate_span]
      · have hhead := bindingHead?_relocate h
        rw [List.map_cons] at hhead
        rw [hhead]
        cases hb : bindingHead? (t :: ts) with
        | none =>
          rw [Option.map_none, parseExpr_eq, parseExpr_eq]
          exact readLast_relocate h stop fun e => rfl
        | some r =>
          obtain ⟨name, params, rest⟩ := r
          have hrest := h.mono fun u hu => (bindingHead?_suffix hb).subset hu
          exact parseBinding_relocate hrest ⟨t :: ts, stop⟩ name params

end Line

end UnitCalc
