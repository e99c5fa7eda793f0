import UnitCalc.Proofs.Excerpts
import UnitCalc.Proofs.LineGrammar

/-! How a line is told by what it begins with. A line that may be a binding can be looked at twice:
first ahead, over all tokens that the scan has left, comments and the end of the input among them,
and then by a reader that takes the head of the binding off the tokens of the line. This reader
alone is lenient: it takes a comma behind the last parameter, and it does not see whether the
parenthesis stands directly behind the name. The two steps come to the same as the head of the
grammar, and where the look ahead has found one, only a repeated parameter stops the reader. -/

namespace UnitCalc

open Grammar

namespace Line

/-! ### Looking ahead, and taking the head off -/

/-- Parameters, with commas between them, up to `) =`. -/
def paramsAhead : List Token → Bool
  | p :: c :: ts =>
    p.kind = .identifier &&
      if c.kind = .comma then paramsAhead ts
      else c.kind = .closeParen && ts.head?.any (·.kind = .equal)
  | _ => false

/-- `NAME =`, or `NAME(a, b) =` with the parenthesis directly behind the name. -/
def headAhead : List Token → Bool
  | n :: t :: ts =>
    n.kind = .identifier &&
      (t.kind = .equal || t.kind = .openParen && t.span.start = n.span.stop &&
        match ts with
        | c :: us =>
          if c.kind = .closeParen then us.head?.any (·.kind = .equal) else paramsAhead ts
        | [] => false)
  | _ => false

/-- Parameters and the closing parenthesis; a comma may stand behind the last one. -/
def readParams (stop : Token) (seen : List String) :
    List Token → Except ParseError (List Ident × List Token)
  | [] => .error ⟨.expectedIdentifier stop.kind, stop.span⟩
  | p :: ts =>
    if p.kind = .closeParen then .ok ([], ts)
    else if p.kind ≠ .identifier then .error ⟨.expectedIdentifier p.kind, p.span⟩
    else if p.lexeme ∈ seen then .error ⟨.duplicateParameter p.lexeme, p.span⟩
    else
      match ts with
      | [] => .error (.unexpected stop (.token .closeParen))
      | c :: us =>
        if c.kind = .comma then
          (readParams stop (p.lexeme :: seen) us).map fun r => (p.ident :: r.1, r.2)
        else if c.kind = .closeParen then .ok ([p.ident], us)
        else .error (.unexpected c (.token .closeParen))

/-- Parameters, if a parenthesis comes first. -/
def readParamList (stop : Token) : List Token → Except ParseError (Option (List Ident) × List Token)
  | [] => .ok (none, [])
  | t :: ts =>
    if t.kind = .openParen then (readParams stop [] ts).map fun r => (some r.1, r.2)
    else .ok (none, t :: ts)

/-- A name, with parameters if a parenthesis comes next, and the equals sign. -/
def readHead (stop : Token) :
    List Token → Except ParseError (Ident × Option (List Ident) × List Token)
  | [] => .error ⟨.expectedIdentifier stop.kind, stop.span⟩
  | n :: ts =>
    if n.kind ≠ .identifier then .error ⟨.expectedIdentifier n.kind, n.span⟩
    else do
      let (params, rest) ← readParamList stop ts
      let (_, ⟨rest, _⟩) ← Expr.expect .equal stop rest
      .ok (n.ident, params, rest)

/-- The tokens of a source from the first one on that is no comment, with all that follow. -/
def unread (source : String) : List Token := (tokenize source).dropWhile (·.kind = .comment)

/-- Reads a line in the two steps, with the tokens to look at ahead. -/
def parseAhead (ahead : List Token) (l : TokenLine) : Except ParseError Line :=
  match l.tokens with
  | [] => .ok .blank
  | t :: ts =>
    if t.kind = .unit then parseUnit l t ts
    else if t.kind = .print then parsePrint l t ts
    else if headAhead ahead then do
      let (name, params, rest) ← readHead l.stop l.tokens
      let (rhs, ⟨rest, _⟩) ← Expr.parse l.stop 0 rest
      finish (.binding ⟨name, params, rhs, name.span.merge rhs.span⟩) rest
    else parseExpr l

/-! ### The look ahead finds the heads of the grammar -/

theorem paramsAhead_eq (ts : List Token) : paramsAhead ts = (bindingParams? ts).isSome := by
  fun_induction bindingParams? ts with
  | case1 p c ts hp => simp [paramsAhead, hp]
  | case2 p c ts hp hc ih => simp [paramsAhead, Decidable.not_not.1 hp, hc, ih]
  | case3 p c hp hc hclose e rest he =>
    simp [paramsAhead, Decidable.not_not.1 hp, hclose, he]
  | case4 p c hp hc hclose e rest he =>
    simp [paramsAhead, Decidable.not_not.1 hp, hclose, he]
  | case5 p c hp hc hclose => simp [paramsAhead, Decidable.not_not.1 hp, hclose]
  | case6 p c ts hp hc hclose => simp [paramsAhead, hc, hclose]
  | case7 ts hts =>
    unfold paramsAhead
    split
    · exact absurd rfl (hts _ _ _)
    · rfl

theorem headAhead_eq (ts : List Token) : headAhead ts = (bindingHead? ts).isSome := by
  fun_cases bindingHead? ts with
  | case1 n t ts hn => simp [headAhead, hn]
  | case2 n t ts hn ht => simp [headAhead, Decidable.not_not.1 hn, ht]
  | case3 n t hn ht hopening c e rest hc he =>
    simp [headAhead, Decidable.not_not.1 hn, hopening, hc, he]
  | case4 n t hn ht hopening c e rest hc he =>
    simp [headAhead, Decidable.not_not.1 hn, hopening, hc, he]
  | case5 n t hn ht hopening c e rest hc =>
    simp [headAhead, Decidable.not_not.1 hn, hopening, hc, paramsAhead_eq]
  | case6 n t ts hn ht hopening hts =>
    match ts with
    | [] => simp [headAhead, ht]
    | [c] => simp [headAhead, ht, paramsAhead]
    | c :: e :: rest => exact absurd rfl (hts c e rest)
  | case7 n t ts hn ht hopening =>
    rw [not_and_or] at hopening
    rcases hopening with hopening | hopening <;> simp [headAhead, ht, hopening]
  | case8 ts hts =>
    unfold headAhead
    split
    · exact absurd rfl (hts _ _ _)
    · rfl

theorem headAhead_iff {ts : List Token} :
    headAhead ts = true ↔ ∃ name params rest, Head ts name params rest := by
  rw [headAhead_eq, Option.isSome_iff_exists]
  constructor
  · rintro ⟨⟨name, params, rest⟩, h⟩
    exact ⟨name, params, rest, bindingHead?_eq_some_iff.1 h⟩
  · rintro ⟨name, params, rest, h⟩
    exact ⟨_, bindingHead?_eq_some_iff.2 h⟩

end Line

namespace Grammar

/-! ### What stands behind the tokens of a line -/

/-- Tokens of which a head holds none, like comments and the one that marks the end of the input. -/
def Trailing (ts : List Token) : Prop := ∀ t ∈ ts, inPhrases t.kind = false

theorem Trailing.cons_eq_append {tail : List Token} (htail : Trailing tail) {t : Token}
    {ts us : List Token} (h : ts ++ tail = t :: us) (ht : inPhrases t.kind = true) :
    ∃ ts', ts = t :: ts' ∧ ts' ++ tail = us := by
  cases ts with
  | nil =>
    rw [List.nil_append] at h
    have hnone := htail t (h ▸ List.mem_cons_self)
    rw [ht] at hnone
    cases hnone
  | cons t' ts =>
    obtain ⟨rfl, rfl⟩ := List.cons.inj h
    exact ⟨ts, rfl, rfl⟩

theorem Parameters.append {ts rest : List Token} {ps : List Ident} (h : Parameters ts ps rest)
    (tail : List Token) : Parameters (ts ++ tail) ps (rest ++ tail) := by
  induction h with
  | last hp hclose => exact .last hp hclose
  | more hp hcomma _ ih => exact .more hp hcomma ih

theorem Head.append {ts rest : List Token} {name : Ident} {params : Option (List Ident)}
    (h : Head ts name params rest) (tail : List Token) :
    Head (ts ++ tail) name params (rest ++ tail) := by
  cases h with
  | name hn hequal => exact .name hn hequal
  | none hn hopening hadj hclose hequal => exact .none hn hopening hadj hclose hequal
  | some hn hopening hadj hps hequal => exact .some hn hopening hadj (hps.append tail) hequal

theorem Parameters.of_append {ts tail rest : List Token} {ps : List Ident} (htail : Trailing tail)
    (h : Parameters (ts ++ tail) ps rest) :
    ∃ rest', Parameters ts ps rest' ∧ rest' ++ tail = rest := by
  generalize hall : ts ++ tail = all at h
  induction h generalizing ts with
  | last hp hclose =>
    obtain ⟨us, rfl, hus⟩ := htail.cons_eq_append hall (by rw [hp]; rfl)
    obtain ⟨vs, rfl, hvs⟩ := htail.cons_eq_append hus (by rw [hclose]; rfl)
    exact ⟨vs, .last hp hclose, hvs⟩
  | more hp hcomma _ ih =>
    obtain ⟨us, rfl, hus⟩ := htail.cons_eq_append hall (by rw [hp]; rfl)
    obtain ⟨vs, rfl, hvs⟩ := htail.cons_eq_append hus (by rw [hcomma]; rfl)
    obtain ⟨rest', hps, hrest⟩ := ih hvs
    exact ⟨rest', .more hp hcomma hps, hrest⟩

theorem Head.of_append {ts tail rest : List Token} {name : Ident} {params : Option (List Ident)}
    (htail : Trailing tail) (h : Head (ts ++ tail) name params rest) :
    ∃ rest', Head ts name params rest' ∧ rest' ++ tail = rest := by
  generalize hall : ts ++ tail = all at h
  cases h with
  | name hn hequal =>
    obtain ⟨us, rfl, hus⟩ := htail.cons_eq_append hall (by rw [hn]; rfl)
    obtain ⟨vs, rfl, hvs⟩ := htail.cons_eq_append hus (by rw [hequal]; rfl)
    exact ⟨vs, .name hn hequal, hvs⟩
  | none hn hopening hadj hclose hequal =>
    obtain ⟨us, rfl, hus⟩ := htail.cons_eq_append hall (by rw [hn]; rfl)
    obtain ⟨vs, rfl, hvs⟩ := htail.cons_eq_append hus (by rw [hopening]; rfl)
    obtain ⟨ws, rfl, hws⟩ := htail.cons_eq_append hvs (by rw [hclose]; rfl)
    obtain ⟨rest', rfl, hrest⟩ := htail.cons_eq_append hws (by rw [hequal]; rfl)
    exact ⟨rest', .none hn hopening hadj hclose hequal, hrest⟩
  | some hn hopening hadj hps hequal =>
    obtain ⟨us, rfl, hus⟩ := htail.cons_eq_append hall (by rw [hn]; rfl)
    obtain ⟨vs, rfl, hvs⟩ := htail.cons_eq_append hus (by rw [hopening]; rfl)
    obtain ⟨ws, hws, hrest⟩ := Parameters.of_append htail (hvs ▸ hps)
    obtain ⟨rest', rfl, hrest'⟩ := htail.cons_eq_append hrest (by rw [hequal]; rfl)
    exact ⟨rest', .some hn hopening hadj hws hequal, hrest'⟩

end Grammar

namespace Line

/-! ### The reader takes off the heads of the grammar -/

theorem readParams_of_parameters {ts rest : List Token} {ps : List Ident}
    (h : Parameters ts ps rest) (stop : Token) (seen : List String) :
    readParams stop seen ts =
      match firstRepeated? seen ps with
      | some p => .error ⟨.duplicateParameter p.name, p.span⟩
      | none => .ok (ps, rest) := by
  induction h generalizing seen with
  | @last p close rest hp hclose =>
    have hname : p.ident.name = p.lexeme := rfl
    by_cases hseen : p.lexeme ∈ seen
    · simp [readParams, firstRepeated?, hp, hseen, Token.ident]
    · simp [readParams, firstRepeated?, hp, hname, hseen, hclose]
  | @more p comma ts rest ps hp hcomma _ ih =>
    have hname : p.ident.name = p.lexeme := rfl
    by_cases hseen : p.lexeme ∈ seen
    · simp [readParams, firstRepeated?, hp, hseen, Token.ident]
    · simp only [readParams, firstRepeated?, hp, hname, hseen, hcomma, ih]
      cases firstRepeated? (p.lexeme :: seen) ps <;> rfl

theorem readHead_cons {n equal : Token} {ts rest : List Token} {params : Option (List Ident)}
    {stop : Token} (hn : n.kind = .identifier)
    (hparams : readParamList stop ts = .ok (params, equal :: rest)) (hequal : equal.kind = .equal) :
    readHead stop (n :: ts) = .ok (n.ident, params, rest) := by
  simp only [readHead, hn, hparams, bind, Except.bind, Expr.expect, hequal, if_true, ne_eq,
    not_true_eq_false, if_false]

/-- What is left of a head for the reader to refuse is a repeated parameter. -/
theorem readHead_of_head {ts rest : List Token} {name : Ident} {params : Option (List Ident)}
    (h : Head ts name params rest) (stop : Token) :
    readHead stop ts =
      match firstRepeated? [] (params.getD []) with
      | some p => .error ⟨.duplicateParameter p.name, p.span⟩
      | none => .ok (name, params, rest) := by
  cases h with
  | name hn hequal =>
    refine readHead_cons hn ?_ hequal
    rw [readParamList, if_neg (by rw [hequal]; decide)]
  | none hn hopening hadj hclose hequal =>
    refine readHead_cons hn ?_ hequal
    rw [readParamList, if_pos hopening, readParams, if_pos hclose]
    rfl
  | @some n opening equal ts rest ps hn hopening hadj hps hequal =>
    have hparams := readParams_of_parameters hps stop []
    rw [Option.getD_some]
    cases hrepeated : firstRepeated? [] ps with
    | some p =>
      rw [hrepeated] at hparams
      simp only [readHead, hn, readParamList, hopening, hparams, if_true, ne_eq, not_true_eq_false,
        if_false]
      rfl
    | none =>
      rw [hrepeated] at hparams
      refine readHead_cons hn ?_ hequal
      rw [readParamList, if_pos hopening, hparams]
      rfl

/-! ### Whole sources -/

/-- Behind the tokens that count stand only a comment and the end of the input. -/
theorem exists_unread {source : String} (h : '\n' ∉ source.toList) :
    ∃ tail, unread source = phraseOf source ++ tail ∧ Trailing tail := by
  obtain ⟨us, htiles, hus⟩ := Token.tiles_content 0 h
  let last := Token.endToken (0 + byteLength source.toList)
  have hcomments : ∀ t ∈ us, t.kind = .comment := by
    intro t ht
    simpa using List.filter_eq_nil_iff.1 hus t ht
  have htokens : tokenize source = phraseOf source ++ (us ++ [last]) := by
    rw [tokenize, Token.scan_eq, htiles.lexemes_eq, phraseOf_eq, List.append_assoc]
  have hlast : inPhrases last.kind = false := rfl
  rw [unread, htokens]
  cases hphrase : phraseOf source with
  | nil =>
    refine ⟨[last], ?_, List.forall_mem_singleton.2 hlast⟩
    rw [List.nil_append, List.dropWhile_append_of_pos (by simpa using hcomments)]
    rfl
  | cons t ts =>
    have ht : t.kind ≠ .comment := by
      have hmem : t ∈ phraseOf source := hphrase ▸ List.mem_cons_self
      exact (of_decide_eq_true (List.mem_filter.1 hmem).2).1
    refine ⟨us ++ [last], by rw [List.cons_append, List.dropWhile_cons_of_neg (by simpa using ht)],
      fun u hu => ?_⟩
    rcases List.mem_append.1 hu with hu | hu
    · rw [hcomments u hu]
      rfl
    · rwa [List.mem_singleton.1 hu]

/-- Looking ahead in a source finds a head where its tokens begin with one. -/
theorem headAhead_unread {source : String} (h : '\n' ∉ source.toList) :
    headAhead (unread source) = true ↔
      ∃ name params rest, Head (phraseOf source) name params rest := by
  obtain ⟨tail, hunread, htail⟩ := exists_unread h
  rw [headAhead_iff, hunread]
  constructor
  · rintro ⟨name, params, rest, hhead⟩
    obtain ⟨rest', hhead', -⟩ := hhead.of_append htail
    exact ⟨name, params, rest', hhead'⟩
  · rintro ⟨name, params, rest, hhead⟩
    exact ⟨name, params, rest ++ tail, hhead.append tail⟩

/-- The line that a source without newlines is. -/
def onlyLine (source : String) : TokenLine :=
  ⟨phraseOf source, Token.endToken (byteLength source.toList)⟩

theorem ofString_onlyLine {source : String} (h : '\n' ∉ source.toList) :
    ofString source = parseTokens (onlyLine source) := by
  rw [ofString_eq h, onlyLine, phraseOf_eq, Nat.zero_add]

/-- Sources are read in the two steps. -/
theorem ofString_eq_parseAhead {source : String} (h : '\n' ∉ source.toList) :
    ofString source = parseAhead (unread source) (onlyLine source) := by
  have hahead := headAhead_unread h
  have htokens : (onlyLine source).tokens = phraseOf source := rfl
  rw [ofString_onlyLine h, parseTokens, parseAhead, htokens]
  cases hphrase : phraseOf source with
  | nil => rfl
  | cons t ts =>
    rw [hphrase] at hahead
    simp only
    split
    · rfl
    · split
      · rfl
      · cases hhead : bindingHead? (t :: ts) with
        | none =>
          have hnone := bindingHead?_eq_none_iff.1 hhead
          have hfalse : ¬ headAhead (unread source) = true := by
            rw [hahead]
            rintro ⟨name, params, rest, hsome⟩
            exact hnone name params rest hsome
          rw [if_neg hfalse]
        | some r =>
          obtain ⟨name, params, rest⟩ := r
          have hsome := bindingHead?_eq_some_iff.1 hhead
          rw [if_pos (hahead.2 ⟨name, params, rest, hsome⟩), readHead_of_head hsome]
          simp only [parseBinding]
          cases firstRepeated? [] (params.getD []) <;> rfl

/-! ### What a line is -/

/-- What a line is, is told by the grammar. It is empty if it has no tokens, it declares a unit or
prints if it begins with the keyword, and it is a binding if it begins with a head of which the
parameters are different; a line that begins with a head is nothing else. The look ahead finds these
heads, and after it the reader of heads refuses repeated parameters and nothing else. -/
theorem ofString_classified {source : String} (h : '\n' ∉ source.toList) :
    (ofString source = .ok .blank ↔ phraseOf source = []) ∧
    (∀ name span, ofString source = .ok (.unit name span) ↔ ∃ k n, phraseOf source = [k, n] ∧
      k.kind = .unit ∧ n.kind = .identifier ∧ name = n.ident ∧ span = k.span.merge n.span) ∧
    (∀ e span, ofString source = .ok (.print e span) ↔ ∃ k us, phraseOf source = k :: us ∧
      k.kind = .print ∧ Derives .comparison us e [] ∧ span = k.span.merge e.span) ∧
    (∀ b, ofString source = .ok (.binding b) ↔ ∃ us, Head (phraseOf source) b.name b.params us ∧
      ((b.params.getD []).map (·.name)).Nodup ∧ Derives .comparison us b.rhs [] ∧
      b.span = b.name.span.merge b.rhs.span) ∧
    (∀ e, ofString source = .ok (.expr e) ↔
      (∀ t ∈ (phraseOf source).head?, t.kind ≠ .unit ∧ t.kind ≠ .print) ∧
      (∀ name params us, ¬ Head (phraseOf source) name params us) ∧
      Derives .comparison (phraseOf source) e []) ∧
    ofString source = parseAhead (unread source) (onlyLine source) ∧
    (headAhead (unread source) = true ↔
      ∃ name params us, Head (phraseOf source) name params us) ∧
    ∀ name params us, Head (phraseOf source) name params us → ∀ stop,
      (((params.getD []).map (·.name)).Nodup →
        readHead stop (phraseOf source) = .ok (name, params, us)) ∧
      (¬ ((params.getD []).map (·.name)).Nodup → ∃ p ∈ params.getD [],
        2 ≤ ((params.getD []).map (·.name)).count p.name ∧
        readHead stop (phraseOf source) = .error ⟨.duplicateParameter p.name, p.span⟩) := by
  have hline : ∀ line, ofString source = .ok line ↔ DerivesLine (phraseOf source) line := by
    intro line
    rw [ofString_onlyLine h, onlyLine, parseTokens_eq_ok_iff (by nofun)]
  simp only [hline]
  refine ⟨derivesLine_blank, fun _ _ => derivesLine_unit, fun _ _ => derivesLine_print,
    fun _ => derivesLine_binding, fun _ => derivesLine_expr, ofString_eq_parseAhead h,
    headAhead_unread h, fun name params us hhead stop => ?_⟩
  rw [readHead_of_head hhead]
  cases hrepeated : firstRepeated? [] (params.getD []) with
  | none =>
    have hnodup := (firstRepeated?_eq_none_iff.1 hrepeated).1
    exact ⟨fun _ => rfl, fun hnot => absurd hnodup hnot⟩
  | some p =>
    have hcount := count_of_firstRepeated? hrepeated
    rw [List.nil_append] at hcount
    refine ⟨fun hnodup => ?_, fun _ => ⟨p, firstRepeated?_mem hrepeated, hcount, rfl⟩⟩
    have hone := List.nodup_iff_count.1 hnodup p.name
    omega

/-- The head of a function of which both parameters have one name. -/
theorem ofString_classified_repeated :
    '\n' ∉ "f(a, a) = 1 # a".toList ∧ headAhead (unread "f(a, a) = 1 # a") = true ∧
      ∀ stop, ∃ p : Ident, p.name = "a" ∧ readHead stop (phraseOf "f(a, a) = 1 # a") =
        .error ⟨.duplicateParameter p.name, p.span⟩ := by
  have hline : '\n' ∉ "f(a, a) = 1 # a".toList := by decide
  have hsome : bindingHead? (phraseOf "f(a, a) = 1 # a") =
      some (⟨"f", ⟨0, 1⟩⟩, some [⟨"a", ⟨2, 3⟩⟩, ⟨"a", ⟨5, 6⟩⟩], [⟨.integer, "1", ⟨10, 11⟩⟩]) := by
    decide
  have hhead := bindingHead?_eq_some_iff.1 hsome
  obtain ⟨-, -, -, -, -, -, hahead, hreader⟩ := ofString_classified hline
  refine ⟨hline, hahead.2 ⟨_, _, _, hhead⟩, fun stop => ?_⟩
  obtain ⟨-, hrefused⟩ := hreader _ _ _ hhead stop
  obtain ⟨p, hp, -, hread⟩ := hrefused (by decide)
  refine ⟨p, ?_, hread⟩
  rcases List.mem_pair.1 hp with rfl | rfl <;> rfl

end Line

end UnitCalc
