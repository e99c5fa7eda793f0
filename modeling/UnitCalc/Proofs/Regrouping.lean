import UnitCalc.Proofs.Ideal
import UnitCalc.Proofs.LineByLine
import UnitCalc.Proofs.Printing

/-! Reading the text of an expression again. The text has no parentheses but those of its source,
and it does not tell a juxtaposition from any other product. A juxtaposition binds tighter than `*`,
`/` and `%`, so in `a / b c` the quotient is by `b c`, but its text `a / b * c` groups to the left.
This is the only way in which the tree that is read from the text can differ from the one that was
written. -/

namespace UnitCalc

namespace Expr

/-! ### Trees that are read from the text -/

def isMul : Expr → Bool
  | binary .mul _ _ _ => true
  | _ => false

/-- The operation `lhs op rhs` as it is read without parentheses: if `rhs` is a product, the
operation ends before its factors but the first. -/
def attach (op : Operator) (lhs : Expr) (span : Span) : Expr → Expr
  | binary .mul l r _ => binary .mul (attach op lhs span l) r span
  | rhs => binary op lhs rhs span

end Expr

/-- The operators that bind as tightly as a product. -/
def Operator.isProduct : Operator → Bool
  | mul | div | mod => true
  | _ => false

namespace Expr

mutual
/-- The tree that the text of an expression is read as. -/
def echoed : Expr → Expr
  | number d s => number d.reread s
  | name id => name id
  | call callee args s => call callee (echoedAll args) s
  | signed sign e s => signed sign e.echoed s
  | binary op l r s =>
    if op.isProduct then attach op l.echoed s r.echoed else binary op l.echoed r.echoed s
  | unitOf e s => unitOf e.echoed s
  | paren e s => paren e.echoed s

def echoedAll : List Expr → List Expr
  | [] => []
  | e :: es => e.echoed :: echoedAll es
end

mutual
/-- Somewhere the right operand of `*`, `/` or `%` is a product without parentheses around it. -/
def regroups : Expr → Bool
  | number _ _ | name _ => false
  | call _ args _ => regroupsAny args
  | signed _ e _ | unitOf e _ | paren e _ => e.regroups
  | binary op l r _ => op.isProduct && r.isMul || l.regroups || r.regroups

def regroupsAny : List Expr → Bool
  | [] => false
  | e :: es => e.regroups || regroupsAny es
end

theorem attach_eq {rhs : Expr} (h : rhs.isMul = false) (op : Operator) (lhs : Expr) (span : Span) :
    attach op lhs span rhs = binary op lhs rhs span := by
  rw [attach.eq_def]
  split
  · cases h
  · rfl

@[simp] theorem isMul_relocate (f : Span → Span) (e : Expr) :
    (e.relocate f).isMul = e.isMul := by
  cases e with
  | binary op l r s => cases op <;> rfl
  | number | name | call | signed | unitOf | paren => rfl

theorem relocate_attach (f : Span → Span) (op : Operator) (lhs : Expr) (span : Span) (rhs : Expr) :
    (attach op lhs span rhs).relocate f = attach op (lhs.relocate f) (f span) (rhs.relocate f) := by
  fun_induction attach op lhs span rhs with
  | case1 l r s ih => rw [relocate, ih, relocate, attach]
  | case2 rhs hmul =>
    have hrhs : rhs.isMul = false := by
      cases rhs with
      | binary op l r s =>
        cases op
        case mul => exact absurd rfl (hmul l r s)
        all_goals rfl
      | number | name | call | signed | unitOf | paren => rfl
    rw [relocate, attach_eq (by rw [isMul_relocate, hrhs])]

/-! ### Shapes -/

/-- What is left of an expression without its spans, and with its literals by value. -/
def shape (e : Expr) : Ideal.Expr := (e.relocate Span.forget).ideal

def shapes (es : List Expr) : List Ideal.Expr := idealAll (relocateAll Span.forget es)

section Equations

variable (e l r : Expr) (es args : List Expr) (d : Decimal) (id : Ident) (op : Operator)
  (sign : Sign) (s : Span)

@[simp] theorem shape_number : (number d s).shape = .number d.toRat ⟨0, 0⟩ := rfl
@[simp] theorem shape_name : (name id).shape = .name (id.relocate Span.forget) := rfl
@[simp] theorem shape_call :
    (call id args s).shape = .call (id.relocate Span.forget) (shapes args) ⟨0, 0⟩ := rfl
@[simp] theorem shape_signed : (signed sign e s).shape = .signed sign e.shape ⟨0, 0⟩ := rfl
@[simp] theorem shape_binary : (binary op l r s).shape = .binary op l.shape r.shape ⟨0, 0⟩ := rfl
@[simp] theorem shape_unitOf : (unitOf e s).shape = .unitOf e.shape ⟨0, 0⟩ := rfl
@[simp] theorem shape_paren : (paren e s).shape = .paren e.shape ⟨0, 0⟩ := rfl
@[simp] theorem shapes_nil : shapes [] = [] := rfl
@[simp] theorem shapes_cons : shapes (e :: es) = e.shape :: shapes es := rfl

end Equations

/-- Regrouping neither adds nor removes anything. -/
theorem sizeOf_attach (op : Operator) (lhs : Expr) (span : Span) (rhs : Expr) :
    sizeOf (attach op lhs span rhs).shape = sizeOf (binary op lhs rhs span).shape := by
  fun_induction attach op lhs span rhs with
  | case1 l r s ih =>
    simp only [shape_binary, Ideal.Expr.binary.sizeOf_spec] at ih ⊢
    omega
  | case2 rhs hmul => rfl

mutual
theorem sizeOf_echoed (e : Expr) : sizeOf e.echoed.shape = sizeOf e.shape := by
  match e with
  | number d s => simp [echoed]
  | name id => rfl
  | call callee args s => simp [echoed, sizeOf_echoedAll args]
  | signed sign e s => simp [echoed, sizeOf_echoed e]
  | binary op l r s =>
    have hbinary : sizeOf (binary op l.echoed r.echoed s).shape =
        sizeOf (binary op l r s).shape := by
      simp [sizeOf_echoed l, sizeOf_echoed r]
    rw [echoed]
    split
    · rw [sizeOf_attach, hbinary]
    · exact hbinary
  | unitOf e s => simp [echoed, sizeOf_echoed e]
  | paren e s => simp [echoed, sizeOf_echoed e]

theorem sizeOf_echoedAll (es : List Expr) :
    sizeOf (shapes (echoedAll es)) = sizeOf (shapes es) := by
  match es with
  | [] => rfl
  | e :: es => simp [echoedAll, sizeOf_echoed e, sizeOf_echoedAll es]
end

/-- A shape tells a product from anything else. -/
theorem isMul_iff {e : Expr} : e.isMul = true ↔ ∃ a b, e.shape = .binary .mul a b ⟨0, 0⟩ := by
  cases e with
  | binary op l r s => cases op <;> simp [isMul]
  | number | name | call | signed | unitOf | paren => simp [isMul]

theorem isMul_of_shape {e e' : Expr} (h : e.shape = e'.shape) : e.isMul = e'.isMul := by
  rw [Bool.eq_iff_iff, isMul_iff, isMul_iff, h]

theorem eq_of_isMul {e : Expr} (h : e.isMul = true) : ∃ a b s, e = binary .mul a b s := by
  cases e with
  | binary op l r s =>
    cases op
    case mul => exact ⟨l, r, s, rfl⟩
    all_goals cases h
  | number | name | call | signed | unitOf | paren => cases h

/-- Taking factors out of the right operand leaves less of it. -/
theorem shape_attach_ne {rhs rhs' : Expr} (hmul : rhs.isMul = true)
    (hsize : sizeOf rhs.shape = sizeOf rhs'.shape) (op : Operator) (lhs lhs' : Expr)
    (span span' : Span) :
    (attach op lhs span rhs).shape ≠ (binary op lhs' rhs' span').shape := by
  obtain ⟨a, b, s, rfl⟩ := eq_of_isMul hmul
  intro h
  rw [attach, shape_binary, shape_binary, Ideal.Expr.binary.injEq] at h
  rw [← h.2.2.1, shape_binary, Ideal.Expr.binary.sizeOf_spec] at hsize
  omega

mutual
/-- A tree is read from its text as it is exactly if nothing in it regroups. -/
theorem shape_echoed_iff (e : Expr) : e.echoed.shape = e.shape ↔ e.regroups = false := by
  match e with
  | number d s => simp [echoed, regroups]
  | name id => simp [echoed, regroups]
  | call callee args s => simp [echoed, regroups, shapes_echoedAll_iff args]
  | signed sign e s => simp [echoed, regroups, shape_echoed_iff e]
  | binary op l r s =>
    have hl := shape_echoed_iff l
    have hr := shape_echoed_iff r
    rw [echoed, regroups]
    cases op.isProduct with
    | false => simp [hl, hr]
    | true =>
      rw [if_pos rfl, Bool.true_and]
      cases hmul : r.echoed.isMul with
      | false =>
        rw [attach_eq hmul]
        have hplain : r.regroups = false → r.isMul = false := fun h =>
          (isMul_of_shape (hr.2 h)).symm.trans hmul
        simp only [shape_binary, Ideal.Expr.binary.injEq, hl, hr, Bool.or_eq_false_iff]
        tauto
      | true =>
        refine iff_of_false (shape_attach_ne hmul (sizeOf_echoed r) _ _ _ _ _) fun h => ?_
        obtain ⟨⟨hplain, -⟩, hrest⟩ := by simpa only [Bool.or_eq_false_iff] using h
        rw [isMul_of_shape (hr.2 hrest), hplain] at hmul
        cases hmul
  | unitOf e s => simp [echoed, regroups, shape_echoed_iff e]
  | paren e s => simp [echoed, regroups, shape_echoed_iff e]

theorem shapes_echoedAll_iff (es : List Expr) :
    shapes (echoedAll es) = shapes es ↔ regroupsAny es = false := by
  match es with
  | [] => simp [echoedAll, regroupsAny]
  | e :: es => simp [echoedAll, regroupsAny, shape_echoed_iff e, shapes_echoedAll_iff es]
end

end Expr

namespace Grammar

open UnitCalc.Expr

/-! ### Reading printed tokens -/

/-- The level at which a printed phrase is read: juxtapositions are printed as products. -/
def Level.printed : Level → Level
  | juxtaposition => product
  | l => l

theorem Level.rank_printed_le {l l' : Level} (h : l.tighter? = some l') :
    l.printed.rank ≤ l'.printed.rank := by
  cases l <;> cases h <;> decide

/-- An operator belongs to a level whichever of its tokens stands for it. -/
theorem Level.operator?_of_ofKind? {l : Level} {k k' : Token.Kind} {op : Operator}
    (h : l.operator? k = some op) (hk' : Operator.ofKind? k' = some op) :
    l.operator? k' = some op := by
  cases l <;> cases k <;> cases h <;> cases k' <;> cases hk' <;> rfl

theorem Level.isProduct_of_operator? {k : Token.Kind} {op : Operator}
    (h : Level.operator? .product k = some op) : op.isProduct = true := by
  cases k <;> cases h <;> rfl

/-- Above products the levels and their operators are printed as they are. -/
theorem Level.printed_above_product {l l' : Level} (hl : l.tighter? = some l') {k : Token.Kind}
    {op : Operator} (hop : l.operator? k = some op) (hne : l ≠ .product) :
    l.printed = l ∧ l'.printed = l' ∧ op.isProduct = false := by
  cases l
  case product => exact absurd rfl hne
  all_goals cases k <;> cases hop <;> cases hl <;> decide

/-- No call begins where these tokens do. -/
def NoCall (ts : List Token) : Prop := ∀ t ∈ ts.head?, t.kind ≠ .openParen

theorem NoCall.not_opensCall {ts : List Token} (h : NoCall ts) (t : Token) : ¬ OpensCall t ts := by
  rintro ⟨u, us, rfl, hu, -⟩
  exact h u rfl hu

theorem noCall_cons {t : Token} {k : Token.Kind} (ht : t.kind = k) (hk : k ≠ .openParen)
    (ts : List Token) : NoCall (t :: ts) := by
  rintro _ ⟨⟩
  rwa [ht]

theorem noCall_operator {t : Token} {op : Operator} (ht : Operator.ofKind? t.kind = some op)
    (ts : List Token) : NoCall (t :: ts) := by
  refine noCall_cons rfl (fun hparen => ?_) ts
  rw [hparen] at ht
  cases ht

theorem forget_combine (op : Operator) (lhs rhs : Expr) :
    (combine op lhs rhs).relocate Span.forget =
      binary op (lhs.relocate Span.forget) (rhs.relocate Span.forget) ⟨0, 0⟩ := rfl

/-- What is signed or binds tighter is no product. -/
theorem Derives.isMul_echoed {l : Level} {ts rest : List Token} {e : Expr}
    (h : Derives l ts e rest) (hl : 4 ≤ l.rank) : e.echoed.isMul = false := by
  match h with
  | .tighter hl' h =>
    refine h.isMul_echoed ?_
    revert hl
    cases l <;> cases hl' <;> decide
  | .binary _ _ hop _ =>
    exfalso
    revert hl
    cases l
    case signed | power | primary => cases hop
    all_goals decide
  | .juxtapose _ _ => exact absurd hl (by decide)
  | .sign _ _ | .raise _ _ _ | .number _ _ _ | .name _ _ | .call _ _ _ _ | .paren _ _ _
  | .bracket _ _ _ => rfl

/-- The tree of a juxtaposition is that of a product of its parts. -/
theorem echoed_juxtapose {lhs rhs : Expr} (h : rhs.echoed.isMul = false) :
    (combine .mul lhs rhs).echoed.relocate Span.forget =
      Expr.binary .mul (lhs.echoed.relocate Span.forget) (rhs.echoed.relocate Span.forget)
        ⟨0, 0⟩ := by
  rw [combine, echoed, if_pos (by decide), attach_eq h]
  rfl

mutual
/-- A phrase is read again from its printed tokens, with the tree `echoed`. -/
theorem Derives.printed {l : Level} {ts₀ rest₀ : List Token} {e : Expr}
    (h : Derives l ts₀ e rest₀) {ts : List Token} (hts : Printed e ts) {rest : List Token}
    (hrest : NoCall rest) :
    ∃ e', Derives l.printed (ts ++ rest) e' rest ∧
      e'.relocate Span.forget = e.echoed.relocate Span.forget := by
  match h with
  | .tighter hl h =>
    obtain ⟨e', he', heq⟩ := h.printed hts hrest
    exact ⟨e', he'.loosen (Level.rank_printed_le hl), heq⟩
  | .binary hl hlhs hop hrhs =>
    cases hts with
    | @binary _ _ _ _ t ls rs hls ht hrs =>
      have hop' := Level.operator?_of_ofKind? hop ht
      obtain ⟨lhs', hlhs', hl'⟩ := hlhs.printed hls (noCall_operator ht (rs ++ rest))
      rw [List.append_assoc, List.cons_append]
      -- The right operand of a product is a juxtaposition, and it does not come back as one phrase:
      -- its factors are operands of the chain that `lhs` begins.
      by_cases hproduct : l = .product
      · have hfactors : l.tighter? = some .juxtaposition := by
          rw [hproduct]
          rfl
        rw [hproduct] at hop' hlhs' ⊢
        obtain ⟨e', he', heq⟩ :=
          hrhs.chained (Option.some.inj (hl.symm.trans hfactors)) hrs hrest hop' hlhs'
        refine ⟨e', he', ?_⟩
        rw [heq, hl', combine, echoed, if_pos (Level.isProduct_of_operator? hop'), relocate_attach]
        rfl
      · obtain ⟨rhs', hrhs', hr'⟩ := hrhs.printed hrs hrest
        obtain ⟨hl₁, hl₂, hop₀⟩ := Level.printed_above_product hl hop hproduct
        rw [hl₁] at hlhs' ⊢
        rw [hl₂] at hrhs'
        refine ⟨_, .binary hl hlhs' hop' hrhs', ?_⟩
        rw [forget_combine, hl', hr', combine, echoed, if_neg (by simp [hop₀])]
        rfl
  | .juxtapose hlhs hrhs =>
    cases hts with
    | @binary _ _ _ _ t ls rs hls ht hrs =>
      obtain ⟨lhs', hlhs', hl'⟩ := hlhs.printed hls (noCall_operator ht (rs ++ rest))
      obtain ⟨rhs', hrhs', hr'⟩ := hrhs.printed hrs hrest
      have hop : Level.operator? .product t.kind = some .mul :=
        Level.operator?_of_ofKind? (k := .star) rfl ht
      rw [List.append_assoc, List.cons_append]
      refine ⟨_, .binary rfl hlhs' hop (hrhs'.loosen (by decide)), ?_⟩
      rw [forget_combine, hl', hr', echoed_juxtapose (hrhs.isMul_echoed (by decide))]
  | .sign ht h =>
    cases hts with
    | signed ht' hts =>
      obtain ⟨e', he', heq⟩ := h.printed hts hrest
      exact ⟨_, .sign ht' he', by rw [relocate, heq]; rfl⟩
  | .raise hbase ht hexponent =>
    cases hts with
    | @binary _ _ _ _ t ls rs hls ht hrs =>
      obtain ⟨base', hbase', hb'⟩ := hbase.printed hls (noCall_operator ht (rs ++ rest))
      obtain ⟨exponent', hexponent', he'⟩ := hexponent.printed hrs hrest
      have hcaret : t.kind = .caret := by
        revert ht
        cases t.kind <;> decide
      rw [List.append_assoc, List.cons_append]
      refine ⟨_, .raise hbase' hcaret hexponent', ?_⟩
      rw [forget_combine, hb', he', combine, echoed, if_neg (by decide)]
      rfl
  | .number ht hd hlimit =>
    cases hts with
    | number ht' hd' => exact ⟨_, .number ht' hd' (Decimal.withinLimit_reread hlimit), rfl⟩
  | .name ht hrest₀ =>
    cases hts with
    | @name _ t ht' hname =>
      refine ⟨_, .name ht' (hrest.not_opensCall t), ?_⟩
      simp only [echoed, relocate, Ident.relocate, Token.ident, hname]
      rfl
  | .call ht hu hadj hargs =>
    cases hts with
    | call ht' hname hopening hadj' hargs' hclosing =>
      obtain ⟨es', hes', heq⟩ := hargs.printed hargs' hclosing rest
      rw [List.cons_append, List.cons_append, List.append_assoc, List.singleton_append]
      refine ⟨_, .call ht' hopening hadj' hes', ?_⟩
      simp only [echoed, relocate, Ident.relocate, Token.ident, hname, heq]
      rfl
  | .paren ht h hclose =>
    cases hts with
    | paren hopening hts hclosing =>
      obtain ⟨e', he', heq⟩ := h.printed hts (noCall_cons hclosing nofun rest)
      rw [List.cons_append, List.append_assoc, List.singleton_append]
      exact ⟨_, .paren hopening he' hclosing, by rw [relocate, heq]; rfl⟩
  | .bracket ht h hclose =>
    cases hts with
    | unitOf hopening hts hclosing =>
      obtain ⟨e', he', heq⟩ := h.printed hts (noCall_cons hclosing nofun rest)
      rw [List.cons_append, List.append_assoc, List.singleton_append]
      exact ⟨_, .bracket hopening he' hclosing, by rw [relocate, heq]; rfl⟩

/-- The factors of a juxtaposition go on with a product that stands before them. -/
theorem Derives.chained {l : Level} {ts₀ rest₀ : List Token} {e : Expr}
    (h : Derives l ts₀ e rest₀) (hl : l = .juxtaposition) {ts : List Token} (hts : Printed e ts)
    {rest : List Token} (hrest : NoCall rest) {t : Token} {op : Operator}
    (hop : Level.operator? .product t.kind = some op) {pre : List Token} {lhs : Expr}
    (hlhs : Derives .product pre lhs (t :: (ts ++ rest))) :
    ∃ e', Derives .product pre e' rest ∧ e'.relocate Span.forget =
      attach op (lhs.relocate Span.forget) ⟨0, 0⟩ (e.echoed.relocate Span.forget) := by
  match h with
  | .tighter hl' h =>
    have hsigned : l.tighter? = some .signed := by
      rw [hl]
      rfl
    obtain ⟨e', he', heq⟩ := h.printed hts hrest
    cases hl'.symm.trans hsigned
    have hmul : e.echoed.isMul = false := h.isMul_echoed (by decide)
    refine ⟨_, .binary rfl hlhs hop (he'.loosen (by decide)), ?_⟩
    rw [forget_combine, heq, attach_eq (by rw [isMul_relocate, hmul])]
  | .juxtapose hlhs' hrhs =>
    cases hts with
    | @binary _ _ _ _ u ls rs hls hu hrs =>
      rw [List.append_assoc, List.cons_append] at hlhs
      obtain ⟨x, hx, hx'⟩ := hlhs'.chained rfl hls (noCall_operator hu (rs ++ rest)) hop hlhs
      obtain ⟨rhs', hrhs', hr'⟩ := hrhs.printed hrs hrest
      have hmul : Level.operator? .product u.kind = some .mul :=
        Level.operator?_of_ofKind? (k := .star) rfl hu
      refine ⟨_, .binary rfl hx hmul (hrhs'.loosen (by decide)), ?_⟩
      rw [forget_combine, hx', hr', echoed_juxtapose (hrhs.isMul_echoed (by decide)), attach]
  | .binary _ _ hop' _ =>
    rw [hl] at hop'
    cases hop'
  | .sign _ _ | .raise _ _ _ | .number _ _ _ | .name _ _ | .call _ _ _ _ | .paren _ _ _
  | .bracket _ _ _ => cases hl

theorem Arguments.printed {ts₀ rest₀ : List Token} {es : List Expr} {close₀ : Token}
    (h : Arguments ts₀ es close₀ rest₀) {ts : List Token} (hts : PrintedArguments es ts)
    {close : Token} (hclose : close.kind = .closeParen) (rest : List Token) :
    ∃ es', Arguments (ts ++ close :: rest) es' close rest ∧
      relocateAll Span.forget es' = relocateAll Span.forget (echoedAll es) := by
  match h with
  | .done _ =>
    cases hts with
    | nil => exact ⟨[], .done hclose, rfl⟩
  | .last h _ =>
    cases hts with
    | one hts =>
      obtain ⟨e', he', heq⟩ := h.printed hts (noCall_cons hclose nofun rest)
      exact ⟨[e'], .last he' hclose, by rw [relocateAll, heq]; rfl⟩
    | cons _ _ hne => exact absurd rfl hne
  | .more h _ hmore =>
    cases hts with
    | one hts =>
      obtain ⟨e', he', heq⟩ := h.printed hts (noCall_cons hclose nofun rest)
      exact ⟨[e'], .last he' hclose, by rw [relocateAll, heq]; rfl⟩
    | cons hts hcomma _ hus =>
      obtain ⟨e', he', heq⟩ := h.printed hts (noCall_cons hcomma nofun _)
      obtain ⟨es', hes', heqs⟩ := hmore.printed hus hclose rest
      rw [List.append_assoc, List.cons_append]
      exact ⟨e' :: es', .more he' hcomma hes', by rw [relocateAll, heq, heqs]; rfl⟩
end

end Grammar

/-! ### Texts -/

namespace Expr

open Grammar

/-- The text of an expression whose tokens stand at the end of a text is an expression. -/
theorem ofString_text {offset : Nat} {cs : List Char} {pre ts : List Token}
    (hcontent : Token.content offset cs = pre ++ ts) (hpre : ∀ t ∈ pre, t.kind ≠ .stray) {e : Expr}
    (h : Derives .comparison ts e []) :
    ∃ e', Expr.ofString e.text = .ok e' ∧
      e'.relocate Span.forget = e.echoed.relocate Span.forget := by
  have hstray : ∀ t ∈ Token.content offset cs, t.kind ≠ .stray := by
    intro t ht hkind
    rw [hcontent] at ht
    rcases List.mem_append.1 ht with ht | ht
    · exact hpre t ht hkind
    · have hphrase := h.inPhrases t ht
      rw [hkind] at hphrase
      cases hphrase
  have hproper : ∀ t ∈ ts, t.Proper := fun t ht =>
    Token.proper_of_mem hstray (hcontent ▸ List.mem_append_right pre ht)
  obtain ⟨us, next, hus, htext⟩ := h.scanned hproper 0 [] Token.ends_nil
  have hend : NoCall [] := nofun
  obtain ⟨e', he', heq⟩ := h.printed hus hend
  rw [List.append_nil, Token.content_nil, List.append_nil] at htext
  rw [List.append_nil, ← htext] at he'
  exact ⟨e', ofString_eq_ok_iff.2 he', heq⟩

/-- The text of every expression that has been read is an expression, and it has the same tree,
spans apart and literals by value, exactly if no product stands without parentheses to the right of
`*`, `/` or `%`. -/
theorem text_round_trip {source : String} {e : Expr} (h : Expr.ofString source = .ok e) :
    ∃ e', Expr.ofString e.text = .ok e' ∧ (e'.shape = e.shape ↔ e.regroups = false) := by
  obtain ⟨e', he', heq⟩ := ofString_text (List.nil_append _).symm nofun (ofString_eq_ok_iff.1 h)
  refine ⟨e', he', ?_⟩
  rw [← shape_echoed_iff, shape, heq]
  rfl

/-- The expression `6 / 2 3`, with the places of its literals. -/
def quotientByProduct (six two three : Span) : Expr :=
  .combine .div (.number ⟨6, 0⟩ six)
    (.combine .mul (.number ⟨2, 0⟩ two) (.number ⟨3, 0⟩ three))

theorem derives_quotientByProduct (six slash two three : Span) :
    Derives .comparison [⟨.integer, "6", six⟩, ⟨.slash, "/", slash⟩, ⟨.integer, "2", two⟩,
      ⟨.integer, "3", three⟩] (quotientByProduct six two three) [] := by
  have hnumber : ∀ lexeme d span rest, literalValue? lexeme = some d → d.withinLimit = true →
      Derives .primary (⟨.integer, lexeme, span⟩ :: rest) (.number d span) rest :=
    fun _ _ _ _ hd hlimit => .number (.inl rfl) hd hlimit
  have hsix := hnumber "6" ⟨6, 0⟩ six [⟨.slash, "/", slash⟩, ⟨.integer, "2", two⟩,
    ⟨.integer, "3", three⟩] (by decide) (by decide)
  have htwo := hnumber "2" ⟨2, 0⟩ two [⟨.integer, "3", three⟩] (by decide) (by decide)
  have hthree := hnumber "3" ⟨3, 0⟩ three [] (by decide) (by decide)
  have hfactors := Derives.juxtapose (htwo.loosen (by decide)) (hthree.loosen (by decide))
  have hquotient : Derives .product _ _ _ :=
    .binary rfl (hsix.loosen (by decide)) rfl hfactors
  exact hquotient.loosen (by decide)

/-- A product to the right of a quotient is regrouped. -/
theorem text_round_trip_quotient :
    Expr.ofString "6 / 2 3" = .ok (quotientByProduct ⟨0, 1⟩ ⟨4, 5⟩ ⟨6, 7⟩) ∧
      ∃ e', Expr.ofString (quotientByProduct ⟨0, 1⟩ ⟨4, 5⟩ ⟨6, 7⟩).text = .ok e' ∧
        e'.shape ≠ (quotientByProduct ⟨0, 1⟩ ⟨4, 5⟩ ⟨6, 7⟩).shape := by
  have hread : Expr.ofString "6 / 2 3" = .ok (quotientByProduct ⟨0, 1⟩ ⟨4, 5⟩ ⟨6, 7⟩) :=
    ofString_eq_ok_iff.2 (derives_quotientByProduct ⟨0, 1⟩ ⟨2, 3⟩ ⟨4, 5⟩ ⟨6, 7⟩)
  obtain ⟨e', he', hiff⟩ := text_round_trip hread
  exact ⟨hread, e', he', fun h => nomatch hiff.1 h⟩

end Expr

end UnitCalc
