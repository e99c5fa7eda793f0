import UnitCalc.Proofs.Recognition

/-! The grammar of lines, and the reader that accepts exactly its lines.

    line       ::= | unit NAME | print comparison | head comparison | comparison
    head       ::= NAME = | NAME ( ) = | NAME ( parameters =
    parameters ::= NAME ) | NAME , parameters

The parenthesis of a head stands directly behind the name. Tokens that begin with a head are a
binding and nothing else: they are no expression even where they are a comparison, and no line at
all if two parameters have one name. -/

namespace UnitCalc

namespace Grammar

/-- Parameters stand at the head of a list of tokens, with commas between them and the closing
parenthesis behind the last: their names and the tokens that follow. -/
inductive Parameters : List Token → List Ident → List Token → Prop where
  | last {p close : Token} {rest : List Token} (hp : p.kind = .identifier)
      (hclose : close.kind = .closeParen) : Parameters (p :: close :: rest) [p.ident] rest
  | more {p comma : Token} {ts rest : List Token} {ps : List Ident} (hp : p.kind = .identifier)
      (hcomma : comma.kind = .comma) (h : Parameters ts ps rest) :
      Parameters (p :: comma :: ts) (p.ident :: ps) rest

/-- A list of tokens begins like a binding: the name, its parameters if there are parentheses, and
the tokens behind the equals sign. -/
inductive Head : List Token → Ident → Option (List Ident) → List Token → Prop where
  | name {n equal : Token} {rest : List Token} (hn : n.kind = .identifier)
      (hequal : equal.kind = .equal) : Head (n :: equal :: rest) n.ident none rest
  | none {n opening close equal : Token} {rest : List Token} (hn : n.kind = .identifier)
      (hopening : opening.kind = .openParen) (hadj : opening.span.start = n.span.stop)
      (hclose : close.kind = .closeParen) (hequal : equal.kind = .equal) :
      Head (n :: opening :: close :: equal :: rest) n.ident (some []) rest
  | some {n opening equal : Token} {ts rest : List Token} {ps : List Ident}
      (hn : n.kind = .identifier) (hopening : opening.kind = .openParen)
      (hadj : opening.span.start = n.span.stop) (hps : Parameters ts ps (equal :: rest))
      (hequal : equal.kind = .equal) : Head (n :: opening :: ts) n.ident (some ps) rest

/-- The lines that lists of tokens are. -/
inductive DerivesLine : List Token → Line → Prop where
  | blank : DerivesLine [] .blank
  | unit {k n : Token} (hk : k.kind = .unit) (hn : n.kind = .identifier) :
      DerivesLine [k, n] (.unit n.ident (k.span.merge n.span))
  | print {k : Token} {ts : List Token} {e : Expr} (hk : k.kind = .print)
      (he : Derives .comparison ts e []) : DerivesLine (k :: ts) (.print e (k.span.merge e.span))
  | binding {ts rest : List Token} {name : Ident} {params : Option (List Ident)} {e : Expr}
      (hhead : Head ts name params rest) (hparams : ((params.getD []).map (·.name)).Nodup)
      (he : Derives .comparison rest e []) :
      DerivesLine ts (.binding ⟨name, params, e, name.span.merge e.span⟩)
  | expr {ts : List Token} {e : Expr} (hhead : ∀ name params rest, ¬ Head ts name params rest)
      (he : Derives .comparison ts e []) : DerivesLine ts (.expr e)

/-- Parameters begin with an identifier. -/
theorem Parameters.head {ts rest : List Token} {ps : List Ident} (h : Parameters ts ps rest) :
    ∃ p c us, ts = p :: c :: us ∧ p.kind = .identifier := by
  cases h with
  | last hp => exact ⟨_, _, _, rfl, hp⟩
  | more hp => exact ⟨_, _, _, rfl, hp⟩

/-- Phrases do not begin with a keyword of lines. -/
theorem Derives.head_ne_keyword {t : Token} {ts : List Token} {e : Expr}
    (h : Derives .comparison (t :: ts) e []) : t.kind ≠ .unit ∧ t.kind ≠ .print := by
  have hphrase := h.inPhrases t List.mem_cons_self
  constructor
  · intro hkind
    rw [hkind] at hphrase
    cases hphrase
  · intro hkind
    rw [hkind] at hphrase
    cases hphrase

/-! ### The tokens of lines -/

theorem Parameters.spends {ts rest : List Token} {ps : List Ident} (h : Parameters ts ps rest) :
    Spends ts rest := by
  induction h with
  | last hp hclose => exact (Spends.one hp rfl _).trans (.one hclose rfl _)
  | more hp hcomma _ ih => exact (Spends.one hp rfl _).trans ((Spends.one hcomma rfl _).trans ih)

theorem Head.spends {ts rest : List Token} {name : Ident} {params : Option (List Ident)}
    (h : Head ts name params rest) : Spends ts rest := by
  cases h with
  | name hn hequal => exact (Spends.one hn rfl _).trans (.one hequal rfl _)
  | none hn hopening _ hclose hequal =>
    exact (Spends.one hn rfl _).trans ((Spends.one hopening rfl _).trans
      ((Spends.one hclose rfl _).trans (.one hequal rfl _)))
  | some hn hopening _ hps hequal =>
    exact (Spends.one hn rfl _).trans ((Spends.one hopening rfl _).trans
      (hps.spends.trans (.one hequal rfl _)))

/-- A line consists of keywords and tokens of phrases. -/
theorem DerivesLine.kinds {ts : List Token} {line : Line} (h : DerivesLine ts line) :
    ∀ t ∈ ts, t.kind = .unit ∨ t.kind = .print ∨ inPhrases t.kind = true := by
  cases h with
  | blank => nofun
  | unit hk hn =>
    refine List.forall_mem_cons.2 ⟨.inl hk, List.forall_mem_singleton.2 (.inr (.inr ?_))⟩
    rw [hn]
    rfl
  | print hk he =>
    exact List.forall_mem_cons.2 ⟨.inr (.inl hk), fun t ht => .inr (.inr (he.inPhrases t ht))⟩
  | binding hhead _ he =>
    obtain ⟨spent, rfl, hspent⟩ := hhead.spends
    intro t ht
    rcases List.mem_append.1 ht with ht | ht
    · exact .inr (.inr (hspent t ht))
    · exact .inr (.inr (he.inPhrases t ht))
  | expr _ he => exact fun t ht => .inr (.inr (he.inPhrases t ht))

theorem DerivesLine.unbroken {ts : List Token} {line : Line} (h : DerivesLine ts line) :
    ∀ t ∈ ts, t.kind.endsLine = false := by
  intro t ht
  rcases h.kinds t ht with hk | hk | hk
  · rw [hk]
    rfl
  · rw [hk]
    rfl
  · exact endsLine_of_inPhrases hk

theorem DerivesLine.not_stray {ts : List Token} {line : Line} (h : DerivesLine ts line) :
    ∀ t ∈ ts, t.kind ≠ .stray := by
  intro t ht hstray
  rcases h.kinds t ht with hk | hk | hk <;> rw [hstray] at hk <;> cases hk

/-! ### Heads as expressions -/

/-- A name before anything but an opening parenthesis. -/
theorem derives_name {t u : Token} (ht : t.kind = .identifier) (hu : u.kind ≠ .openParen)
    (rest : List Token) : Derives .primary (t :: u :: rest) (.name t.ident) (u :: rest) := by
  refine .name ht ?_
  rintro ⟨v, vs, heq, hv, -⟩
  cases heq
  exact hu hv

/-- Parameters up to the parenthesis are the arguments of a call. -/
theorem Parameters.arguments {ts rest : List Token} {ps : List Ident} (h : Parameters ts ps rest) :
    ∃ close, Arguments ts (ps.map .name) close rest := by
  induction h with
  | @last p close rest hp hclose =>
    have hphrase := derives_name hp (by rw [hclose]; decide) rest
    exact ⟨close, .last (hphrase.loosen (by decide)) hclose⟩
  | @more p comma ts rest ps hp hcomma _ ih =>
    obtain ⟨close, hargs⟩ := ih
    have hphrase := derives_name hp (by rw [hcomma]; decide) ts
    exact ⟨close, .more (hphrase.loosen (by decide)) hcomma hargs⟩

/-! ### Lines of one form -/

theorem derivesLine_blank {ts : List Token} : DerivesLine ts .blank ↔ ts = [] := by
  constructor
  · rintro ⟨⟩
    rfl
  · rintro rfl
    exact .blank

theorem derivesLine_unit {ts : List Token} {name : Ident} {span : Span} :
    DerivesLine ts (.unit name span) ↔ ∃ k n, ts = [k, n] ∧ k.kind = .unit ∧
      n.kind = .identifier ∧ name = n.ident ∧ span = k.span.merge n.span := by
  constructor
  · rintro (_ | ⟨hk, hn⟩)
    exact ⟨_, _, rfl, hk, hn, rfl, rfl⟩
  · rintro ⟨k, n, rfl, hk, hn, rfl, rfl⟩
    exact .unit hk hn

theorem derivesLine_print {ts : List Token} {e : Expr} {span : Span} :
    DerivesLine ts (.print e span) ↔ ∃ k us, ts = k :: us ∧ k.kind = .print ∧
      Derives .comparison us e [] ∧ span = k.span.merge e.span := by
  constructor
  · rintro (_ | _ | ⟨hk, he⟩)
    exact ⟨_, _, rfl, hk, he, rfl⟩
  · rintro ⟨k, us, rfl, hk, he, rfl⟩
    exact .print hk he

theorem derivesLine_binding {ts : List Token} {b : Binding} :
    DerivesLine ts (.binding b) ↔ ∃ us, Head ts b.name b.params us ∧
      ((b.params.getD []).map (·.name)).Nodup ∧ Derives .comparison us b.rhs [] ∧
      b.span = b.name.span.merge b.rhs.span := by
  constructor
  · intro h
    cases h with
    | binding hhead hparams he => exact ⟨_, hhead, hparams, he, rfl⟩
  · obtain ⟨name, params, e, span⟩ := b
    rintro ⟨us, hhead, hparams, he, hspan⟩
    simp only at hspan
    rw [hspan]
    exact .binding hhead hparams he

theorem derivesLine_expr {ts : List Token} {e : Expr} :
    DerivesLine ts (.expr e) ↔ (∀ t ∈ ts.head?, t.kind ≠ .unit ∧ t.kind ≠ .print) ∧
      (∀ name params us, ¬ Head ts name params us) ∧ Derives .comparison ts e [] := by
  constructor
  · intro h
    cases h with
    | expr hhead he =>
      obtain ⟨t, us, rfl, -⟩ := he.head
      exact ⟨by rintro _ ⟨⟩; exact he.head_ne_keyword, hhead, he⟩
  · rintro ⟨-, hhead, he⟩
    exact .expr hhead he

end Grammar

open Grammar

namespace Line

/-! ### Heads -/

theorem bindingParams?_eq_some_iff {ts rest : List Token} {ps : List Ident} :
    bindingParams? ts = some (ps, rest) ↔
      ∃ equal, Parameters ts ps (equal :: rest) ∧ equal.kind = .equal := by
  constructor
  · intro h
    fun_induction bindingParams? ts generalizing ps rest with
    | case1 | case4 | case5 | case6 | case7 => cases h
    | case2 p c ts hp hc ih =>
      obtain ⟨⟨ps', rest'⟩, hmore, heq⟩ := Option.map_eq_some_iff.1 h
      cases heq
      obtain ⟨equal, hparams, hequal⟩ := ih hmore
      exact ⟨equal, .more (Decidable.not_not.1 hp) hc hparams, hequal⟩
    | case3 p c hp hc hclose e rest' he =>
      cases h
      exact ⟨e, .last (Decidable.not_not.1 hp) hclose, he⟩
  · rintro ⟨equal, h, hequal⟩
    generalize htail : equal :: rest = tail at h
    induction h with
    | last hp hclose =>
      subst htail
      simp [bindingParams?, hp, hclose, hequal]
    | more hp hcomma _ ih => simp [bindingParams?, hp, hcomma, ih htail]

/-- The heads of bindings are those of the grammar. -/
theorem bindingHead?_eq_some_iff {ts rest : List Token} {name : Ident}
    {params : Option (List Ident)} :
    bindingHead? ts = some (name, params, rest) ↔ Head ts name params rest := by
  constructor
  · fun_cases bindingHead? ts with
    | case1 | case4 | case6 | case7 | case8 =>
      intro h
      cases h
    | case2 n t ts hn ht =>
      intro h
      cases h
      exact .name (Decidable.not_not.1 hn) ht
    | case3 n t hn ht hopening c e rest' hc he =>
      intro h
      cases h
      exact .none (Decidable.not_not.1 hn) hopening.1 hopening.2 hc he
    | case5 n t hn ht hopening c e rest' hc =>
      intro h
      obtain ⟨⟨ps, rest''⟩, hps, heq⟩ := Option.map_eq_some_iff.1 h
      cases heq
      obtain ⟨equal, hparams, hequal⟩ := bindingParams?_eq_some_iff.1 hps
      exact .some (Decidable.not_not.1 hn) hopening.1 hopening.2 hparams hequal
  · intro h
    cases h with
    | name hn hequal => simp [bindingHead?, hn, hequal]
    | none hn hopening hadj hclose hequal =>
      simp [bindingHead?, hn, hopening, hadj, hclose, hequal]
    | some hn hopening hadj hps hequal =>
      obtain ⟨p, c, us, rfl, hp⟩ := hps.head
      have hparams := bindingParams?_eq_some_iff.2 ⟨_, hps, hequal⟩
      simp [bindingHead?, hn, hopening, hadj, hp, hparams]

theorem bindingHead?_eq_none_iff {ts : List Token} :
    bindingHead? ts = none ↔ ∀ name params rest, ¬ Head ts name params rest := by
  constructor
  · intro h name params rest hhead
    rw [bindingHead?_eq_some_iff.2 hhead] at h
    cases h
  · intro h
    cases hhead : bindingHead? ts with
    | none => rfl
    | some r => exact absurd (bindingHead?_eq_some_iff.1 hhead) (h _ _ _)

/-- Nothing is repeated if all names are different, and none was seen before. -/
theorem firstRepeated?_eq_none_iff {seen : List String} {ps : List Ident} :
    firstRepeated? seen ps = none ↔ (ps.map (·.name)).Nodup ∧ ∀ p ∈ ps, p.name ∉ seen := by
  induction ps generalizing seen with
  | nil => simp [firstRepeated?]
  | cons p ps ih =>
    rw [firstRepeated?]
    split
    · rename_i hseen
      simp [hseen]
    · rename_i hseen
      have hcons : (∀ q ∈ ps, q.name ∉ p.name :: seen) ↔
          p.name ∉ ps.map (·.name) ∧ ∀ q ∈ ps, q.name ∉ seen := by
        simp only [List.mem_cons, not_or, forall_and, List.mem_map, not_exists, not_and]
      rw [ih, hcons, List.map_cons, List.nodup_cons, List.forall_mem_cons, and_iff_right hseen,
        and_left_comm, and_assoc]

/-- What is reported is one of the parameters. -/
theorem firstRepeated?_mem {seen : List String} {ps : List Ident} {p : Ident}
    (h : firstRepeated? seen ps = some p) : p ∈ ps := by
  induction ps generalizing seen with
  | nil => cases h
  | cons q ps ih =>
    rw [firstRepeated?] at h
    split at h
    · cases h
      exact List.mem_cons_self
    · exact List.mem_cons_of_mem q (ih h)

/-- A parameter that is reported stands among those before, or occurs again. -/
theorem count_of_firstRepeated? {seen : List String} {ps : List Ident} {p : Ident}
    (h : firstRepeated? seen ps = some p) :
    2 ≤ (seen ++ ps.map (·.name)).count p.name := by
  induction ps generalizing seen with
  | nil => cases h
  | cons q ps ih =>
    rw [firstRepeated?] at h
    split at h
    · rename_i hseen
      cases h
      have hcount := List.count_pos_iff.2 hseen
      rw [List.count_append, List.map_cons, List.count_cons_self]
      omega
    · -- the parameter passed over is among those seen from here on
      have hcount := ih h
      rw [List.cons_append, ← List.perm_middle.count_eq] at hcount
      exact hcount

/-! ### Lines -/

/-- The keyword of units has a name behind it, and nothing else. -/
theorem derives_of_parseUnit {k : Token} {ts : List Token} {stop : Token}
    (hstop : stop.kind ≠ .identifier) (hk : k.kind = .unit) {line : Line}
    (h : parseUnit ⟨k :: ts, stop⟩ k ts = .ok line) : DerivesLine (k :: ts) line := by
  cases ts with
  | nil =>
    -- There is no name, and the token that stops the line is none either.
    have hnone : ¬ (TokenLine.current ⟨[k], stop⟩ []).kind = .identifier := hstop
    simp only [parseUnit, if_neg hnone, reduceCtorEq] at h
  | cons n us =>
    rw [parseUnit] at h
    split at h
    · rename_i hn
      cases us with
      | nil =>
        cases h
        exact .unit hk hn
      | cons u us => cases h
    · cases h

/-- What is read as a line derives from the grammar. -/
theorem derives_of_parseTokens {ts : List Token} {stop : Token} (hstop : stop.kind ≠ .identifier)
    {line : Line} (h : parseTokens ⟨ts, stop⟩ = .ok line) : DerivesLine ts line := by
  cases ts with
  | nil =>
    cases h
    exact .blank
  | cons t ts =>
    simp only [parseTokens] at h
    split at h
    · rename_i hunit
      exact derives_of_parseUnit hstop hunit h
    · split at h
      · rename_i hprint
        rw [parsePrint_eq] at h
        obtain ⟨e, he, rfl⟩ := readLast_eq_ok.1 h
        exact .print hprint he
      · split at h
        · rename_i name params rest hhead
          rw [parseBinding_eq] at h
          split at h
          · cases h
          · rename_i hdistinct
            obtain ⟨e, he, rfl⟩ := readLast_eq_ok.1 h
            exact .binding (bindingHead?_eq_some_iff.1 hhead)
              (firstRepeated?_eq_none_iff.1 hdistinct).1 he
        · rename_i hhead
          rw [parseExpr_eq] at h
          obtain ⟨e, he, rfl⟩ := readLast_eq_ok.1 h
          exact .expr (bindingHead?_eq_none_iff.1 hhead) he

/-- A phrase that does not begin like a binding is read as an expression. -/
theorem parseTokens_of_phrase {ts : List Token} {e : Expr} (he : Derives .comparison ts e [])
    (hhead : bindingHead? ts = none) (stop : Token) :
    parseTokens ⟨ts, stop⟩ = .ok (.expr e) := by
  obtain ⟨t, us, rfl, -⟩ := he.head
  obtain ⟨hunit, hprint⟩ := he.head_ne_keyword
  simp only [parseTokens, hunit, hprint, hhead, if_false, parseExpr_eq]
  exact readLast_eq_ok.2 ⟨e, he, rfl⟩

/-- What derives from the grammar is read, whatever token stops the line. -/
theorem parseTokens_of_derives {ts : List Token} {line : Line} (h : DerivesLine ts line)
    (stop : Token) : parseTokens ⟨ts, stop⟩ = .ok line := by
  cases h with
  | blank => rfl
  | @unit k n hk hn =>
    have hcurrent : TokenLine.current ⟨[k, n], stop⟩ [n] = n := rfl
    simp only [parseTokens, hk, parseUnit, hcurrent, hn, if_true]
    rfl
  | print hk he => exact parseTokens_print hk he
  | binding hhead hparams he =>
    rw [parseTokens_of_head (bindingHead?_eq_some_iff.2 hhead), parseBinding_eq,
      firstRepeated?_eq_none_iff.2 ⟨hparams, fun _ _ => List.not_mem_nil⟩]
    exact readLast_eq_ok.2 ⟨_, he, rfl⟩
  | expr hhead he => exact parseTokens_of_phrase he (bindingHead?_eq_none_iff.2 hhead) stop

/-- The lines that are read are those of the grammar. -/
theorem parseTokens_eq_ok_iff {ts : List Token} {stop : Token} (hstop : stop.kind ≠ .identifier)
    {line : Line} : parseTokens ⟨ts, stop⟩ = .ok line ↔ DerivesLine ts line :=
  ⟨derives_of_parseTokens hstop, fun h => parseTokens_of_derives h stop⟩

end Line

/-! ### Whole sources -/

/-- A source is a line if its tokens are those of the line, with nothing but newlines behind. -/
theorem Line.ofString_eq_ok_iff_derives {source : String} {line : Line} :
    ofString source = .ok line ↔ ∃ ts breaks, Token.content 0 source.toList = ts ++ breaks ∧
      (∀ t ∈ breaks, t.kind.endsLine = true) ∧ DerivesLine ts line := by
  let last := Token.endToken (0 + byteLength source.toList)
  have hlast : last.kind.endsLine = true := rfl
  have hlines : TokenLine.ofSource source =
      TokenLine.group (Token.content 0 source.toList ++ [last]) := TokenLine.ofSource_eq source
  rw [ofString, mapError_eq_ok, hlines]
  constructor
  · intro h
    obtain ⟨us, vs, stop, ls, hcontent, -, hstop, hgroup, hblank⟩ :=
      TokenLine.group_concat (Token.content 0 source.toList) hlast
    rw [hgroup] at h
    obtain ⟨line', hread, hrest⟩ := bind_eq_ok.1 h
    have hname : stop.kind ≠ .identifier := by
      intro hkind
      rw [hkind] at hstop
      cases hstop
    cases hnone : ls.findSome? (·.tokens.head?) with
    | some t =>
      rw [hnone] at hrest
      cases hrest
    | none =>
      rw [hnone] at hrest
      cases hrest
      refine ⟨us, vs, hcontent, hblank.1 fun l hl => ?_, derives_of_parseTokens hname hread⟩
      exact List.head?_eq_none_iff.1 (List.findSome?_eq_none_iff.1 hnone l hl)
  · rintro ⟨ts, breaks, hcontent, hbreaks, hline⟩
    obtain ⟨us, vs, stop, ls, hsplit, hus, -, hgroup, hblank⟩ :=
      TokenLine.group_concat breaks hlast
    have hnil : us = [] := by
      refine List.eq_nil_iff_forall_not_mem.2 fun t ht => ?_
      have hbreak := hbreaks t (hsplit ▸ List.mem_append_left vs ht)
      exact Bool.false_ne_true ((hus t ht).symm.trans hbreak)
    subst hnil
    rw [List.nil_append] at hsplit
    have hempty : ls.findSome? (·.tokens.head?) = none := by
      refine List.findSome?_eq_none_iff.2 fun l hl => ?_
      exact List.head?_eq_none_iff.2 (hblank.2 (hsplit ▸ hbreaks) l hl)
    rw [hcontent, List.append_assoc, TokenLine.group_unbroken hline.unbroken hgroup,
      List.append_nil]
    simp only [ofLines, parseTokens_of_derives hline, hempty, bind, Except.bind]

/-- The lines of a program derive from the tokens of the lines of its source. -/
theorem parseProgram_derives {source : String} {lines : List Line}
    (h : parseProgram source = .ok lines) :
    ∀ l ∈ lines, ∃ tl ∈ TokenLine.ofSource source, DerivesLine tl.tokens l := by
  intro l hl
  obtain ⟨tl, htl, hparse⟩ := parseProgram_eq_ok h l hl
  have hmem := TokenLine.mem_ofSource htl
  exact ⟨tl, hmem, Line.derives_of_parseTokens (TokenLine.stop_ne_identifier hmem) hparse⟩

end UnitCalc
