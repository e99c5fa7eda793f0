import UnitCalc.Proofs.GrammarReading
import UnitCalc.Proofs.Lines

/-! The sources that are expressions: exactly those whose tokens are a comparison of the grammar,
and each of them in one way only. A derivation spends no token that ends a line, so a source with a
newline among its tokens is never one. -/

namespace UnitCalc.Grammar

open UnitCalc.Expr

/-! ### Tokens spent on a phrase -/

/-- The kinds of tokens that phrases are made of. -/
def inPhrases : Token.Kind → Bool
  | .unit | .print | .comment | .newline | .endOfInput | .stray => false
  | _ => true

theorem endsLine_of_inPhrases {k : Token.Kind} (h : inPhrases k = true) : k.endsLine = false := by
  revert h
  cases k <;> decide

/-- Going from `ts` to `rest` spends tokens of phrases. -/
def Spends (ts rest : List Token) : Prop :=
  ∃ spent, ts = spent ++ rest ∧ ∀ t ∈ spent, inPhrases t.kind = true

theorem Spends.one {t : Token} {k : Token.Kind} (ht : t.kind = k) (hk : inPhrases k = true)
    (ts : List Token) : Spends (t :: ts) ts := by
  refine ⟨[t], rfl, fun u hu => ?_⟩
  rw [List.mem_singleton.1 hu, ht, hk]

theorem Spends.trans {ts mid rest : List Token} (h : Spends ts mid) (h' : Spends mid rest) :
    Spends ts rest := by
  obtain ⟨spent, rfl, hspent⟩ := h
  obtain ⟨spent', rfl, hspent'⟩ := h'
  refine ⟨spent ++ spent', (List.append_assoc ..).symm, fun t ht => ?_⟩
  rcases List.mem_append.1 ht with ht | ht
  · exact hspent t ht
  · exact hspent' t ht

theorem Spends.mem {ts rest : List Token} (h : Spends ts rest) {t : Token} (ht : t ∈ rest) :
    t ∈ ts := by
  obtain ⟨spent, rfl, -⟩ := h
  exact List.mem_append_right spent ht

theorem inPhrases_of_operator? {l : Level} {k : Token.Kind} {op : Operator}
    (h : l.operator? k = some op) : inPhrases k = true := by
  cases l <;> cases k <;> cases h <;> rfl

theorem inPhrases_of_sign? {k : Token.Kind} {sign : Sign} (h : Sign.ofKind? k = some sign) :
    inPhrases k = true := by
  cases k <;> cases h <;> rfl

mutual
theorem Derives.spends {l : Level} {ts rest : List Token} {e : Expr} (h : Derives l ts e rest) :
    Spends ts rest := by
  match h with
  | .tighter _ h => exact h.spends
  | .binary _ hlhs hop hrhs =>
    exact hlhs.spends.trans ((Spends.one rfl (inPhrases_of_operator? hop) _).trans hrhs.spends)
  | .juxtapose hlhs hrhs => exact hlhs.spends.trans hrhs.spends
  | .sign ht h => exact (Spends.one rfl (inPhrases_of_sign? ht) _).trans h.spends
  | .raise hbase ht hexponent =>
    exact hbase.spends.trans ((Spends.one ht rfl _).trans hexponent.spends)
  | .number ht _ _ =>
    rcases ht with ht | ht
    · exact .one ht rfl _
    · exact .one ht rfl _
  | .name ht _ => exact .one ht rfl _
  | .call ht hu _ hargs =>
    exact (Spends.one ht rfl _).trans ((Spends.one hu rfl _).trans hargs.spends)
  | .paren ht h hclose =>
    exact (Spends.one ht rfl _).trans (h.spends.trans (.one hclose rfl _))
  | .bracket ht h hclose =>
    exact (Spends.one ht rfl _).trans (h.spends.trans (.one hclose rfl _))

theorem Arguments.spends {ts rest : List Token} {es : List Expr} {close : Token}
    (h : Arguments ts es close rest) : Spends ts rest := by
  match h with
  | .done hclose => exact .one hclose rfl _
  | .last h hclose => exact h.spends.trans (.one hclose rfl _)
  | .more h hcomma hmore =>
    exact h.spends.trans ((Spends.one hcomma rfl _).trans hmore.spends)
end

/-! ### Properties of trees -/

/-- A property of trees that their leaves have if the tokens are right, and that every form of
phrase passes on. -/
structure Closed (T : Token → Prop) (R : Expr → Prop) : Prop where
  number : ∀ {t : Token} {d : Decimal}, T t → t.kind = .integer ∨ t.kind = .float →
    literalValue? t.lexeme = some d → d.withinLimit = true → R (.number d t.span)
  name : ∀ {t : Token}, T t → t.kind = .identifier → R (.name t.ident)
  call : ∀ {t close : Token} {args : List Expr}, T t → t.kind = .identifier → T close →
    (∀ a ∈ args, R a) → R (.call t.ident args (t.span.merge close.span))
  signed : ∀ {t : Token} {sign : Sign} {e : Expr}, T t → R e →
    R (.signed sign e (t.span.merge e.span))
  binary : ∀ {op : Operator} {lhs rhs : Expr}, R lhs → R rhs → R (combine op lhs rhs)
  paren : ∀ {t close : Token} {e : Expr}, T t → T close → R e →
    R (.paren e (t.span.merge close.span))
  unitOf : ∀ {t close : Token} {e : Expr}, T t → T close → R e →
    R (.unitOf e (t.span.merge close.span))

section Trees

variable {T : Token → Prop} {R : Expr → Prop}

theorem Spends.all {ts rest : List Token} (h : Spends ts rest) (hts : ∀ t ∈ ts, T t) :
    ∀ t ∈ rest, T t :=
  fun t ht => hts t (h.mem ht)

theorem head_tail {t : Token} {ts : List Token} (h : ∀ u ∈ t :: ts, T u) :
    T t ∧ ∀ u ∈ ts, T u :=
  List.forall_mem_cons.1 h

mutual
theorem Derives.closed (hR : Closed T R) {l : Level} {ts rest : List Token} {e : Expr}
    (h : Derives l ts e rest) (hts : ∀ t ∈ ts, T t) : R e := by
  match h with
  | .tighter _ h => exact h.closed hR hts
  | .binary _ hlhs _ hrhs =>
    have hmid := (head_tail (hlhs.spends.all hts)).2
    exact hR.binary (hlhs.closed hR hts) (hrhs.closed hR hmid)
  | .juxtapose hlhs hrhs =>
    exact hR.binary (hlhs.closed hR hts) (hrhs.closed hR (hlhs.spends.all hts))
  | .sign _ h =>
    obtain ⟨ht, hts⟩ := head_tail hts
    exact hR.signed ht (h.closed hR hts)
  | .raise hbase _ hexponent =>
    have hmid := (head_tail (hbase.spends.all hts)).2
    exact hR.binary (hbase.closed hR hts) (hexponent.closed hR hmid)
  | .number hkind hd hlimit => exact hR.number (head_tail hts).1 hkind hd hlimit
  | .name hkind _ => exact hR.name (head_tail hts).1 hkind
  | .call hkind _ _ hargs =>
    obtain ⟨ht, hts⟩ := head_tail hts
    obtain ⟨hclose, hall⟩ := hargs.closed hR (head_tail hts).2
    exact hR.call ht hkind hclose hall
  | .paren _ h _ =>
    obtain ⟨ht, hts⟩ := head_tail hts
    exact hR.paren ht (head_tail (h.spends.all hts)).1 (h.closed hR hts)
  | .bracket _ h _ =>
    obtain ⟨ht, hts⟩ := head_tail hts
    exact hR.unitOf ht (head_tail (h.spends.all hts)).1 (h.closed hR hts)

theorem Arguments.closed (hR : Closed T R) {ts rest : List Token} {es : List Expr} {close : Token}
    (h : Arguments ts es close rest) (hts : ∀ t ∈ ts, T t) : T close ∧ ∀ e ∈ es, R e := by
  match h with
  | .done _ => exact ⟨(head_tail hts).1, nofun⟩
  | .last h _ =>
    have hclose := (head_tail (h.spends.all hts)).1
    exact ⟨hclose, List.forall_mem_cons.2 ⟨h.closed hR hts, nofun⟩⟩
  | .more h _ hmore =>
    obtain ⟨hclose, hall⟩ := hmore.closed hR (head_tail (h.spends.all hts)).2
    exact ⟨hclose, List.forall_mem_cons.2 ⟨h.closed hR hts, hall⟩⟩
end

end Trees

theorem Derives.inPhrases {l : Level} {ts : List Token} {e : Expr} (h : Derives l ts e []) :
    ∀ t ∈ ts, inPhrases t.kind = true := by
  obtain ⟨spent, rfl, hspent⟩ := h.spends
  rwa [List.append_nil]

/-- A phrase that takes up all tokens holds none that ends a line. -/
theorem Derives.unbroken {l : Level} {ts : List Token} {e : Expr} (h : Derives l ts e []) :
    ∀ t ∈ ts, t.kind.endsLine = false :=
  fun t ht => endsLine_of_inPhrases (h.inPhrases t ht)

/-- What the readers leave is a part of what they were given. -/
theorem read_spends {stop : Token} {min : Nat} {ts rest : List Token} {e : Expr} (hmin : min ≤ 5)
    (h : Expr.read stop min ts = .ok (e, rest)) : Spends ts rest :=
  ((readers_sound stop).1 min ts hmin e rest h).1.spends

theorem readOperand_spends {stop : Token} {ts rest : List Token} {e : Expr}
    (h : readOperand stop ts = .ok (e, rest)) : Spends ts rest := by
  obtain ⟨l, hphrase, -⟩ := (readers_sound stop).2.2.1 ts e rest h
  exact hphrase.spends

theorem rightPrecedence_le (op : Operator) : op.rightPrecedence ≤ 5 := by
  cases op <;> decide

/-! ### Whole sources -/

/-- A phrase that takes up all tokens is what the reader reads. -/
theorem read_all_iff {stop : Token} {ts : List Token} {e : Expr} :
    Expr.read stop 0 ts = .ok (e, []) ↔ Derives .comparison ts e [] := by
  rw [read_iff]
  exact and_iff_left rfl

/-- The tokens that count in an expression: neither comments nor the end of the input. -/
def phraseOf (source : String) : List Token :=
  (tokenize source).filter fun t => t.kind ≠ .comment ∧ t.kind ≠ .endOfInput

theorem phraseOf_eq (source : String) : phraseOf source = Token.content 0 source.toList := by
  have hlexemes : ∀ t ∈ Token.lexemes 0 0 source.toList,
      decide (t.kind ≠ .comment ∧ t.kind ≠ .endOfInput) = decide (t.kind ≠ .comment) := by
    intro t ht
    simp [(Token.lexemes_spec ht).2.1]
  rw [phraseOf, tokenize, Token.scan_eq, List.filter_append, List.filter_congr hlexemes,
    List.filter_cons_of_neg (by simp [Token.endToken]), List.filter_nil, List.append_nil]
  rfl

/-- A source is an expression if its first line is a phrase and the input ends with it. -/
theorem ofString_iff {source : String} {l : TokenLine} {ls : List TokenLine}
    (hsource : TokenLine.ofSource source = l :: ls) (hl : ∀ t ∈ l.tokens, t.kind ≠ .endOfInput)
    {e : Expr} :
    Expr.ofString source = .ok e ↔
      Derives .comparison l.tokens e [] ∧ l.stop.kind = .endOfInput := by
  rw [Expr.ofString, mapError_eq_ok, hsource, Expr.ofLines_cons, bind_eq_ok]
  constructor
  · rintro ⟨⟨e', rest⟩, hread, hend⟩
    obtain ⟨hphrase, -⟩ := read_iff.1 hread
    split at hend
    · rename_i hkind
      cases hend
      cases rest with
      | nil => exact ⟨hphrase, hkind⟩
      | cons t rest => exact absurd hkind (hl t (hphrase.spends.mem List.mem_cons_self))
    · cases hend
  · rintro ⟨hphrase, hstop⟩
    exact ⟨(e, []), read_all_iff.2 hphrase, if_pos hstop⟩

/-- The tokens of a text with several lines are not a phrase. -/
theorem Derives.single_line {l : Level} {offset : Nat} {cs : List Char} {e : Expr}
    (h : Derives l (Token.content offset cs) e []) : '\n' ∉ cs := by
  intro hnewline
  obtain ⟨xs, ys, rfl, -⟩ := List.eq_append_cons_of_mem hnewline
  have hkind := h.unbroken (Token.newlineToken (offset + byteLength xs))
    (by rw [Token.content_line]; simp)
  cases hkind

/-- A source is an expression if its tokens are a phrase: those of a source with several lines are
never one. -/
theorem ofString_eq_ok_iff {source : String} {e : Expr} :
    Expr.ofString source = .ok e ↔ Derives .comparison (Token.content 0 source.toList) e [] := by
  by_cases h : '\n' ∈ source.toList
  · obtain ⟨xs, ys, hsource, hxs⟩ := List.eq_append_cons_of_mem h
    have hlines := (TokenLine.ofSource_eq source).trans (hsource ▸ TokenLine.ofText_line hxs 0 ys)
    rw [ofString_iff hlines fun t ht => (Token.content_spec ht).2.1]
    exact iff_of_false (fun hderives => nomatch hderives.2) fun hderives => hderives.single_line h
  · have hlines := (TokenLine.ofSource_eq source).trans (TokenLine.ofText_single h 0)
    rw [ofString_iff hlines fun t ht => (Token.content_spec ht).2.1]
    exact and_iff_left rfl

/-- The sources that are expressions are those whose tokens derive from the grammar, with the tree
that the derivation gives; and no list of tokens derives two trees. -/
theorem ofString_ok_iff_derives :
    (∀ source e, Expr.ofString source = .ok e ↔ Derives .comparison (phraseOf source) e []) ∧
      ∀ ts e e', Derives .comparison ts e [] → Derives .comparison ts e' [] → e = e' := by
  constructor
  · intro source e
    rw [phraseOf_eq]
    exact ofString_eq_ok_iff
  · intro ts e e' h h'
    have hread : Expr.read (Token.endToken 0) 0 ts = .ok (e, []) := read_all_iff.2 h
    rw [read_all_iff.2 h'] at hread
    cases hread
    rfl

end UnitCalc.Grammar

namespace UnitCalc.Line

open Grammar

/-- What is read up to the end of a line does not depend on the token that stops it. -/
theorem readLast_eq_ok {stop : Token} {ts : List Token} {k : Expr → Line} {line : Line} :
    readLast stop k ts = .ok line ↔ ∃ e, Derives .comparison ts e [] ∧ k e = line := by
  rw [readLast, bind_eq_ok]
  constructor
  · rintro ⟨⟨e, rest⟩, hread, hfinish⟩
    cases rest with
    | nil =>
      cases hfinish
      exact ⟨e, read_all_iff.1 hread, rfl⟩
    | cons t rest => cases hfinish
  · rintro ⟨e, hphrase, rfl⟩
    exact ⟨(e, []), read_all_iff.2 hphrase, rfl⟩

theorem finish_eq_ok {line line' : Line} {ts : List Token} (h : finish line ts = .ok line') :
    line' = line := by
  cases ts with
  | nil =>
    cases h
    rfl
  | cons t ts => cases h

/-- The ways in which a line is read. -/
inductive Reads (l : TokenLine) : Line → Prop where
  | blank (htokens : l.tokens = []) : Reads l .blank
  | unit {t : Token} {ts : List Token} (htokens : l.tokens = t :: ts)
      (hname : (l.current ts).kind = .identifier) :
      Reads l (.unit (l.current ts).ident (t.span.merge (l.current ts).span))
  | print {t : Token} {ts : List Token} {e : Expr} (htokens : l.tokens = t :: ts)
      (ht : t.kind = .print) (he : Derives .comparison ts e []) :
      Reads l (.print e (t.span.merge e.span))
  | binding {name : Ident} {params : Option (List Ident)} {rest : List Token} {e : Expr}
      (hhead : bindingHead? l.tokens = some (name, params, rest))
      (he : Derives .comparison rest e []) :
      Reads l (.binding ⟨name, params, e, name.span.merge e.span⟩)
  | expr {e : Expr} (he : Derives .comparison l.tokens e []) : Reads l (.expr e)

theorem reads_of_parseTokens {l : TokenLine} {line : Line} (h : parseTokens l = .ok line) :
    Reads l line := by
  rw [parseTokens.eq_def] at h
  split at h
  · rename_i htokens
    cases h
    exact .blank htokens
  · rename_i t ts htokens
    split at h
    · rw [parseUnit] at h
      split at h
      · rename_i hname
        rw [finish_eq_ok h]
        exact .unit htokens hname
      · cases h
    · split at h
      · rename_i hprint
        rw [parsePrint_eq] at h
        obtain ⟨e, he, rfl⟩ := readLast_eq_ok.1 h
        exact .print htokens hprint he
      · split at h
        · rename_i name params rest hhead
          rw [parseBinding_eq] at h
          split at h
          · cases h
          · obtain ⟨e, he, rfl⟩ := readLast_eq_ok.1 h
            exact .binding hhead he
        · rw [parseExpr_eq] at h
          obtain ⟨e, he, rfl⟩ := readLast_eq_ok.1 h
          exact .expr he

/-- The keyword and an expression are read as a line that prints it. -/
theorem parseTokens_print {t : Token} {ts : List Token} {e : Expr} {stop : Token}
    (ht : t.kind = .print) (he : Derives .comparison ts e []) :
    parseTokens ⟨t :: ts, stop⟩ = .ok (.print e (t.span.merge e.span)) := by
  simp only [parseTokens, ht, parsePrint_eq, reduceCtorEq, if_false, if_true]
  exact readLast_eq_ok.2 ⟨e, he, rfl⟩

/-- A line that begins like a binding is read as one. -/
theorem parseTokens_of_head {ts rest : List Token} {name : Ident} {params : Option (List Ident)}
    (hhead : bindingHead? ts = some (name, params, rest)) (stop : Token) :
    parseTokens ⟨ts, stop⟩ = parseBinding ⟨ts, stop⟩ name params rest := by
  match ts with
  | [] | [_] => cases hhead
  | n :: t :: ts =>
    have hname : n.kind = .identifier := by
      refine Decidable.byContradiction fun hname => ?_
      simp only [bindingHead?, hname, ne_eq, not_false_eq_true, if_true] at hhead
      cases hhead
    simp only [parseTokens, hname, hhead, reduceCtorEq, if_false]

/-- A name, an equal sign and an expression are read as a binding. -/
theorem parseTokens_binding {name equal : Token} {ts : List Token} {e : Expr} {stop : Token}
    (hname : name.kind = .identifier) (hequal : equal.kind = .equal)
    (he : Derives .comparison ts e []) :
    parseTokens ⟨name :: equal :: ts, stop⟩ =
      .ok (.binding ⟨name.ident, none, e, name.span.merge e.span⟩) := by
  have hhead : bindingHead? (name :: equal :: ts) = some (name.ident, none, ts) := by
    simp only [bindingHead?, hname, hequal, ne_eq, not_true_eq_false, if_true, if_false]
  rw [parseTokens_of_head hhead, parseBinding_eq]
  exact readLast_eq_ok.2 ⟨e, he, rfl⟩

end UnitCalc.Line
