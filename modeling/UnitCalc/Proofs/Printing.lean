import UnitCalc.Proofs.Spelling

/-! The text of an expression is scanned into the tokens that it was put together from. A literal is
written as a numeral, which stands for the same number as another pair; a name is a name again,
because no stray character stood behind it where it was read; the parenthesis of a call stands
directly behind the name; and what was a juxtaposition has an operator between its operands like any
other product. -/

namespace UnitCalc

open Grammar
open Token (content Ends IsName)

/-! ### Printed expressions -/

mutual
/-- The tokens that the text of an expression consists of. -/
inductive Printed : Expr → List Token → Prop where
  | number {d : Decimal} {span : Span} {t : Token} (ht : t.kind = .integer ∨ t.kind = .float)
      (hd : literalValue? t.lexeme = some d.reread) : Printed (.number d span) [t]
  | name {id : Ident} {t : Token} (ht : t.kind = .identifier) (hname : t.lexeme = id.name) :
      Printed (.name id) [t]
  | call {callee : Ident} {args : List Expr} {span : Span} {t opening closing : Token}
      {ts : List Token} (ht : t.kind = .identifier) (hname : t.lexeme = callee.name)
      (hopening : opening.kind = .openParen) (hadj : opening.span.start = t.span.stop)
      (hargs : PrintedArguments args ts) (hclosing : closing.kind = .closeParen) :
      Printed (.call callee args span) (t :: opening :: (ts ++ [closing]))
  | signed {sign : Sign} {e : Expr} {span : Span} {t : Token} {ts : List Token}
      (ht : Sign.ofKind? t.kind = some sign) (h : Printed e ts) :
      Printed (.signed sign e span) (t :: ts)
  | binary {op : Operator} {lhs rhs : Expr} {span : Span} {t : Token} {ls rs : List Token}
      (hlhs : Printed lhs ls) (ht : Operator.ofKind? t.kind = some op) (hrhs : Printed rhs rs) :
      Printed (.binary op lhs rhs span) (ls ++ t :: rs)
  | paren {e : Expr} {span : Span} {opening closing : Token} {ts : List Token}
      (hopening : opening.kind = .openParen) (h : Printed e ts)
      (hclosing : closing.kind = .closeParen) :
      Printed (.paren e span) (opening :: (ts ++ [closing]))
  | unitOf {e : Expr} {span : Span} {opening closing : Token} {ts : List Token}
      (hopening : opening.kind = .openBracket) (h : Printed e ts)
      (hclosing : closing.kind = .closeBracket) :
      Printed (.unitOf e span) (opening :: (ts ++ [closing]))

/-- The tokens of arguments with commas between them and none behind the last. -/
inductive PrintedArguments : List Expr → List Token → Prop where
  | nil : PrintedArguments [] []
  | one {e : Expr} {ts : List Token} (h : Printed e ts) : PrintedArguments [e] ts
  | cons {e : Expr} {es : List Expr} {comma : Token} {ts us : List Token} (h : Printed e ts)
      (hcomma : comma.kind = .comma) (hne : es ≠ []) (hmore : PrintedArguments es us) :
      PrintedArguments (e :: es) (ts ++ comma :: us)
end

/-- A text is scanned into tokens of some form, wherever it starts and whatever may follow a word
stands behind it. -/
def Scanned (text : String) (form : List Token → Prop) : Prop :=
  ∀ offset r, Ends r → ∃ ts next, form ts ∧ content offset (text.toList ++ r) = ts ++ content next r

/-! ### Operators and marks -/

/-- What stands between the operands of an operator. -/
def Operator.between : Operator → String
  | pow => "^"
  | op => " " ++ op.symbol ++ " "

theorem Expr.text_binary (op : Operator) (lhs rhs : Expr) (span : Span) :
    (Expr.binary op lhs rhs span).text = lhs.text ++ op.between ++ rhs.text := by
  cases op <;> simp only [text, Operator.between, String.append_assoc]

/-- A character is a token by itself, whatever follows. -/
def Marks (c : Char) (kind : Token.Kind) : Prop :=
  ∀ offset r, ∃ t next, content offset (c :: r) = t :: content next r ∧ t.kind = kind ∧
    t.span.start = offset

theorem marks {c : Char} {kind : Token.Kind} (hc : Token.isMark c = true)
    (h : ∀ r, Token.symbol? (c :: r) = some (kind, 1)) (hkind : kind ≠ .comment) : Marks c kind :=
  fun offset r => ⟨_, _, Token.content_symbol (w := []) hc (h r) hkind offset, rfl, rfl⟩

/-- Before a blank the symbol of an operator is the longest lexeme. -/
theorem Operator.symbol_scanned (op : Operator) : ∃ c w kind, op.symbol.toList = c :: w ∧
    Token.isMark c = true ∧
    (∀ r, Token.symbol? (c :: w ++ ' ' :: r) = some (kind, w.length + 1)) ∧
    Operator.ofKind? kind = some op := by
  cases op <;> exact ⟨_, _, _, rfl, by decide, fun r => rfl, rfl⟩

/-- A symbol with blanks around it that is the longest lexeme before a blank. -/
theorem content_spaced {c : Char} {w : List Char} {kind : Token.Kind} (hc : Token.isMark c = true)
    (h : ∀ r, Token.symbol? (c :: w ++ ' ' :: r) = some (kind, w.length + 1))
    (hkind : kind ≠ .comment) (offset : Nat) (r : List Char) :
    ∃ t next, content offset (' ' :: (c :: w ++ ' ' :: r)) = t :: content next r ∧
      t.kind = kind := by
  rw [Token.content_blank, Token.content_symbol hc (h r) hkind, Token.content_blank]
  exact ⟨_, _, rfl, rfl⟩

theorem content_operator (op : Operator) (offset : Nat) (r : List Char) :
    ∃ t next, content offset (op.between.toList ++ r) = t :: content next r ∧
      Operator.ofKind? t.kind = some op := by
  by_cases hpow : op = .pow
  · subst hpow
    have hmarks : Marks '^' .caret := marks (by decide) (fun _ => rfl) nofun
    obtain ⟨t, next, h, hkind, -⟩ := hmarks offset r
    exact ⟨t, next, h, by rw [hkind]; rfl⟩
  · have hbetween : op.between.toList ++ r = ' ' :: (op.symbol.toList ++ ' ' :: r) := by
      cases op
      case pow => exact absurd rfl hpow
      all_goals rfl
    obtain ⟨c, w, kind, hsymbol, hc, hscanned, hkind⟩ := op.symbol_scanned
    have hcomment : kind ≠ .comment := by
      rintro rfl
      cases hkind
    obtain ⟨t, next, h, ht⟩ := content_spaced hc hscanned hcomment offset r
    rw [hbetween, hsymbol]
    exact ⟨t, next, h, ht ▸ hkind⟩

theorem ends_operator (op : Operator) (r : List Char) : Ends (op.between.toList ++ r) := by
  cases op <;> exact Token.ends_cons (by decide) _

theorem content_sign (sign : Sign) (offset : Nat) (r : List Char) :
    ∃ t next, content offset (sign.symbol.toList ++ r) = t :: content next r ∧
      Sign.ofKind? t.kind = some sign := by
  cases sign with
  | plus =>
    have hmarks : Marks '+' .plus := marks (by decide) (fun _ => rfl) nofun
    obtain ⟨t, next, h, hkind, -⟩ := hmarks offset r
    exact ⟨t, next, h, by rw [hkind]; rfl⟩
  | minus =>
    have hmarks : Marks '-' .minus := marks (by decide) (fun _ => rfl) nofun
    obtain ⟨t, next, h, hkind, -⟩ := hmarks offset r
    exact ⟨t, next, h, by rw [hkind]; rfl⟩

/-! ### Leaves -/

/-- A token of a text without stray characters: an identifier is a name, and a number begins with a
digit. -/
structure Token.Proper (t : Token) : Prop where
  name : t.kind = .identifier → IsName t.lexeme.toList
  digit : t.kind = .integer ∨ t.kind = .float →
    ∃ c cs, t.lexeme.toList = c :: cs ∧ c.isDigit = true

theorem Token.proper_of_mem {offset : Nat} {cs : List Char}
    (hstray : ∀ u ∈ content offset cs, u.kind ≠ .stray) {t : Token} (h : t ∈ content offset cs) :
    t.Proper where
  name := isName_of_mem hstray h
  digit hkind := by
    obtain ⟨start, c, ds, rfl, -⟩ := mem_lexemes (List.mem_filter.1 h).1
    have hpos := (munch_fits c ds).pos
    refine ⟨c, ds.take ((munch (c :: ds)).2 - 1), ?_, digit_of_munch hkind⟩
    rw [ofHead, String.toList_ofList, ← Nat.sub_add_cancel hpos, List.take_succ_cons,
      Nat.add_sub_cancel]

theorem scanned_number {t : Token} (ht : t.Proper) (hkind : t.kind = .integer ∨ t.kind = .float)
    {d : Decimal} (hd : literalValue? t.lexeme = some d) (hlimit : d.withinLimit = true)
    (span : Span) : Scanned d.plain (Printed (.number d span)) := by
  intro offset r hr
  obtain ⟨c, cs, hlexeme, hc⟩ := ht.digit hkind
  have hnonneg : 0 ≤ d.coefficient := by
    rw [literalValue?, hlexeme, List.filter_cons_of_pos (by simpa using Decimal.digit_ne hc rfl)]
      at hd
    exact Decimal.coefficient_nonneg hc hd
  obtain ⟨kind, hnumeral⟩ := Decimal.plain_numeral hnonneg
  have hvalue := hnumeral.literalValue? (Decimal.withinLimit_reread hlimit)
  have hprinted : ∀ place, Printed (.number d span) [⟨kind, String.ofList d.plain.toList, place⟩] :=
    fun place => .number hnumeral.kind_eq hvalue
  exact ⟨_, _, hprinted _, Token.content_numeral hnumeral hr offset⟩

theorem scanned_name {name : String} (hname : IsName name.toList) (span : Span) :
    Scanned name (Printed (.name ⟨name, span⟩)) := by
  intro offset r hr
  exact ⟨_, _, .name rfl rfl, Token.content_name hname hr offset⟩

/-! ### Trees -/

theorem scanned_binary {op : Operator} {lhs rhs : Expr} (hlhs : Scanned lhs.text (Printed lhs))
    (hrhs : Scanned rhs.text (Printed rhs)) (span : Span) :
    Scanned (Expr.binary op lhs rhs span).text (Printed (.binary op lhs rhs span)) := by
  intro offset r hr
  obtain ⟨ls, mid, hls, hl⟩ := hlhs offset _ (ends_operator op (rhs.text.toList ++ r))
  obtain ⟨t, mid', ht, hkind⟩ := content_operator op mid (rhs.text.toList ++ r)
  obtain ⟨rs, next, hrs, hr⟩ := hrhs mid' r hr
  refine ⟨_, next, .binary hls hkind hrs, ?_⟩
  rw [Expr.text_binary, String.toList_append, String.toList_append, List.append_assoc,
    List.append_assoc, hl, ht, hr, List.append_assoc, List.cons_append]

theorem scanned_signed {sign : Sign} {e : Expr} (he : Scanned e.text (Printed e)) (span : Span) :
    Scanned (Expr.signed sign e span).text (Printed (.signed sign e span)) := by
  intro offset r hr
  obtain ⟨t, mid, ht, hkind⟩ := content_sign sign offset (e.text.toList ++ r)
  obtain ⟨ts, next, hts, hr⟩ := he mid r hr
  refine ⟨_, next, .signed hkind hts, ?_⟩
  rw [Expr.text, String.toList_append, List.append_assoc, ht, hr, List.cons_append]

/-- Between parentheses or brackets a text is scanned as it is. -/
theorem Scanned.enclosed {text : String} {form : List Token → Prop} (h : Scanned text form)
    {o c : Char} {kind kind' : Token.Kind} (ho : Marks o kind) (hc : Marks c kind')
    (hends : c ∈ Token.wordEnds) (offset : Nat) (r : List Char) :
    ∃ ts opening closing next, form ts ∧ opening.kind = kind ∧ opening.span.start = offset ∧
      closing.kind = kind' ∧ content offset (o :: (text.toList ++ c :: r)) =
        opening :: (ts ++ [closing]) ++ content next r := by
  obtain ⟨opening, mid, hopening, hkind, hstart⟩ := ho offset (text.toList ++ c :: r)
  obtain ⟨ts, mid', hts, htext⟩ := h mid (c :: r) (Token.ends_cons hends r)
  obtain ⟨closing, next, hclosing, hkind', -⟩ := hc mid' r
  refine ⟨ts, opening, closing, next, hts, hkind, hstart, hkind', ?_⟩
  rw [hopening, htext, hclosing, List.cons_append, List.append_assoc, List.singleton_append]

theorem scanned_arguments {args : List Expr} (h : ∀ e ∈ args, Scanned e.text (Printed e)) :
    Scanned (Expr.argsText args) (PrintedArguments args) := by
  intro offset r hr
  induction args generalizing offset with
  | nil => exact ⟨[], offset, .nil, rfl⟩
  | cons e es ih =>
    obtain ⟨he, hes⟩ := List.forall_mem_cons.1 h
    cases es with
    | nil =>
      obtain ⟨ts, next, hts, hcontent⟩ := he offset r hr
      exact ⟨ts, next, .one hts, hcontent⟩
    | cons e' es =>
      have htext : (Expr.argsText (e :: e' :: es)).toList ++ r =
          e.text.toList ++ ',' :: ' ' :: ((Expr.argsText (e' :: es)).toList ++ r) := by
        simp only [Expr.argsText, String.toList_append, List.append_assoc]
        rfl
      have hmarks : Marks ',' .comma := marks (by decide) (fun _ => rfl) nofun
      obtain ⟨ts, mid, hts, hcontent⟩ := he offset _ (Token.ends_cons (c := ',') (by decide) _)
      obtain ⟨comma, mid', hcomma, hkind, -⟩ :=
        hmarks mid (' ' :: ((Expr.argsText (e' :: es)).toList ++ r))
      obtain ⟨us, next, hus, hrest⟩ := ih hes (mid' + ' '.utf8Size)
      refine ⟨_, next, .cons hts hkind (List.cons_ne_nil e' es) hus, ?_⟩
      rw [htext, hcontent, hcomma, Token.content_blank, hrest, List.append_assoc, List.cons_append]

theorem marks_openParen : Marks '(' .openParen := marks (by decide) (fun _ => rfl) nofun

theorem marks_closeParen : Marks ')' .closeParen := marks (by decide) (fun _ => rfl) nofun

theorem scanned_call {name : String} (hname : IsName name.toList) {args : List Expr}
    (hargs : ∀ e ∈ args, Scanned e.text (Printed e)) (place span : Span) :
    Scanned (Expr.call ⟨name, place⟩ args span).text (Printed (.call ⟨name, place⟩ args span)) := by
  intro offset r hr
  have htext : (Expr.call ⟨name, place⟩ args span).text.toList ++ r =
      name.toList ++ '(' :: ((Expr.argsText args).toList ++ ')' :: r) := by
    simp only [Expr.text, String.toList_append, List.append_assoc]
    rfl
  have hcallee := Token.content_name hname (Token.ends_cons (c := '(') (by decide)
    ((Expr.argsText args).toList ++ ')' :: r)) offset
  obtain ⟨ts, opening, closing, next, hts, hopening, hstart, hclosing, hcontent⟩ :=
    (scanned_arguments hargs).enclosed marks_openParen marks_closeParen (by decide)
      (offset + byteLength name.toList) r
  refine ⟨_, next, .call (t := ⟨_, _, offset, _⟩) rfl rfl hopening hstart hts hclosing, ?_⟩
  rw [htext, hcallee, hcontent]
  rfl

theorem scanned_paren {e : Expr} (he : Scanned e.text (Printed e)) (span : Span) :
    Scanned (Expr.paren e span).text (Printed (.paren e span)) := by
  intro offset r hr
  obtain ⟨ts, opening, closing, next, hts, hopening, -, hclosing, hcontent⟩ :=
    he.enclosed marks_openParen marks_closeParen (by decide) offset r
  refine ⟨_, next, .paren hopening hts hclosing, ?_⟩
  rw [← hcontent, Expr.text, String.toList_append, String.toList_append, List.append_assoc,
    List.append_assoc]
  rfl

theorem scanned_unitOf {e : Expr} (he : Scanned e.text (Printed e)) (span : Span) :
    Scanned (Expr.unitOf e span).text (Printed (.unitOf e span)) := by
  intro offset r hr
  have hopens : Marks '[' .openBracket := marks (by decide) (fun _ => rfl) nofun
  have hcloses : Marks ']' .closeBracket := marks (by decide) (fun _ => rfl) nofun
  obtain ⟨ts, opening, closing, next, hts, hopening, -, hclosing, hcontent⟩ :=
    he.enclosed hopens hcloses (by decide) offset r
  refine ⟨_, next, .unitOf hopening hts hclosing, ?_⟩
  rw [← hcontent, Expr.text, String.toList_append, String.toList_append, List.append_assoc,
    List.append_assoc]
  rfl

theorem closed_scanned : Closed Token.Proper fun e => Scanned e.text (Printed e) where
  number ht hkind hd hlimit := scanned_number ht hkind hd hlimit _
  name ht hkind := scanned_name (ht.name hkind) _
  call ht hkind _ hargs := scanned_call (ht.name hkind) hargs _ _
  signed _ he := scanned_signed he _
  binary hlhs hrhs := scanned_binary hlhs hrhs _
  paren _ _ he := scanned_paren he _
  unitOf _ _ he := scanned_unitOf he _

/-- The text of an expression that has been read is scanned into its printed tokens. -/
theorem Grammar.Derives.scanned {l : Level} {ts rest : List Token} {e : Expr}
    (h : Derives l ts e rest) (hts : ∀ t ∈ ts, t.Proper) : Scanned e.text (Printed e) :=
  h.closed closed_scanned hts

end UnitCalc
