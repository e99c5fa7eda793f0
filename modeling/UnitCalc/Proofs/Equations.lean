import UnitCalc.Proofs.Lookup
import UnitCalc.Proofs.NodeSpans
import UnitCalc.Proofs.NumberFlow
import UnitCalc.Proofs.Regrouping

/-! A line with `=` about a name that is defined is an equality test. It is read as a binding,
because the names that are defined are not known yet, and its two sides are put together when it
runs; the same test written with `==` is read as an expression from the start. The two ways lead to
the same comparison, except that a binding does not let a parameter occur twice. -/

namespace UnitCalc

open Grammar
open Token (content Ends IsName)

/-! ### Left sides -/

/-- The left side of an equation as it is written: a name, or a name with parameters. -/
def headText (f : String) : Option (List String) → String
  | none => f
  | some xs => f ++ paramsText xs

/-- The left side of an equation as an expression, without places. -/
def headExpr (f : String) : Option (List String) → Expr
  | none => .name ⟨f, ⟨0, 0⟩⟩
  | some xs => .call ⟨f, ⟨0, 0⟩⟩ (xs.map fun x => .name ⟨x, ⟨0, 0⟩⟩) ⟨0, 0⟩

theorem argsText_names (xs : List String) :
    Expr.argsText (xs.map fun x => .name ⟨x, ⟨0, 0⟩⟩) = ", ".intercalate xs := by
  induction xs with
  | nil => rfl
  | cons x xs ih =>
    cases xs with
    | nil =>
      rw [String.intercalate_singleton]
      rfl
    | cons y ys =>
      rw [String.intercalate_cons_cons, ← ih]
      rfl

theorem headExpr_text (f : String) (params : Option (List String)) :
    (headExpr f params).text = headText f params := by
  cases params with
  | none => rfl
  | some xs =>
    rw [headExpr, Expr.text, argsText_names, headText, paramsText, ← String.append_assoc,
      ← String.append_assoc]

/-- What the tokens between the parentheses of a left side are read as: as the parameters `ps` of a
binding, and as arguments. -/
structure ParamTokens (xs : List String) (us : List Token) (closing : Token) (ps : List Ident) :
    Prop where
  names : ps.map (·.name) = xs
  nil : xs = [] → us = []
  arguments : ∀ rest, Arguments (us ++ closing :: rest) (ps.map .name) closing rest
  head : xs ≠ [] → ∃ u us', us = u :: us' ∧ u.kind = .identifier
  binding : xs ≠ [] → ∀ t rest, Line.bindingParams? (us ++ closing :: t :: rest) =
    if t.kind = .equal then some (ps, rest) else none

theorem exists_paramTokens {xs : List String} {us : List Token} {closing : Token}
    (h : PrintedArguments (xs.map fun x => .name ⟨x, ⟨0, 0⟩⟩) us)
    (hclosing : closing.kind = .closeParen) : ∃ ps, ParamTokens xs us closing ps := by
  induction xs generalizing us with
  | nil =>
    cases h
    exact ⟨[], rfl, fun _ => rfl, fun rest => .done hclosing, absurd rfl, absurd rfl⟩
  | cons x xs ih =>
    cases xs with
    | nil =>
      cases h with
      | one hx =>
        cases hx with
        | @name _ t ht hlexeme =>
          refine ⟨[t.ident], congrArg ([·]) hlexeme, fun h => absurd h (List.cons_ne_nil x []),
            fun rest => ?_, fun _ => ⟨t, [], rfl, ht⟩, fun _ u rest => ?_⟩
          · have hphrase := derives_name ht (by rw [hclosing]; decide) rest
            exact .last (hphrase.loosen (by decide)) hclosing
          · simp [Line.bindingParams?, ht, hclosing]
      | cons _ _ hne _ => exact absurd rfl hne
    | cons y ys =>
      cases h with
      | @cons _ _ comma ts us hx hcomma _ hmore =>
        cases hx with
        | @name _ t ht hlexeme =>
          obtain ⟨ps, hps⟩ := ih hmore
          refine ⟨t.ident :: ps, congrArg₂ _ hlexeme hps.names,
            fun h => absurd h (List.cons_ne_nil x _), fun rest => ?_, fun _ => ⟨t, _, rfl, ht⟩,
            fun _ u rest => ?_⟩
          · have hphrase := derives_name ht (by rw [hcomma]; decide) (us ++ closing :: rest)
            exact .more (hphrase.loosen (by decide)) hcomma (hps.arguments rest)
          · have hrest := hps.binding (List.cons_ne_nil y ys) u rest
            simp only [List.cons_append, List.nil_append, Line.bindingParams?, ht, hcomma, hrest,
              ne_eq, not_true_eq_false, if_false, if_true]
            split <;> rfl

/-- A name with parameters is the head of a binding if the parameters are. -/
theorem bindingHead?_call {t opening u v : Token} (ht : t.kind = .identifier)
    (hopening : opening.kind = .openParen) (hadj : opening.span.start = t.span.stop)
    (hu : u.kind = .identifier) (rest : List Token) :
    Line.bindingHead? (t :: opening :: u :: v :: rest) =
      (Line.bindingParams? (u :: v :: rest)).map fun r => (t.ident, some r.1, r.2) := by
  simp [Line.bindingHead?, ht, hopening, hadj, hu]

/-- What the tokens of a left side are read as: as the head of a binding before `=`, and as an
operand. -/
structure HeadTokens (f : String) (params : Option (List String)) (ts : List Token) (id : Ident)
    (ps : Option (List Ident)) : Prop where
  name : id.name = f
  given : ps.map (List.map (·.name)) = params
  binding : ∀ {t}, t.kind ≠ .openParen → ∀ rest, Line.bindingHead? (ts ++ t :: rest) =
    if t.kind = .equal then some (id, ps, rest) else none
  operand : ∀ {t}, t.kind ≠ .openParen → ∀ rest, ∃ lhs,
    Derives .primary (ts ++ t :: rest) lhs (t :: rest) ∧
      lhs.relocate Span.forget = headExpr f params

theorem headTokens_name {f : String} {t : Token} (ht : t.kind = .identifier)
    (hlexeme : t.lexeme = f) : HeadTokens f none [t] t.ident none where
  name := hlexeme
  given := rfl
  binding hu rest := by simp [Line.bindingHead?, ht, hu]
  operand hu rest := ⟨.name t.ident, derives_name ht hu rest, by rw [← hlexeme]; rfl⟩

theorem headTokens_call {f : String} {xs : List String} {t opening closing : Token}
    {us : List Token} {ps : List Ident} (ht : t.kind = .identifier) (hlexeme : t.lexeme = f)
    (hopening : opening.kind = .openParen) (hadj : opening.span.start = t.span.stop)
    (hclosing : closing.kind = .closeParen) (hps : ParamTokens xs us closing ps) :
    HeadTokens f (some xs) (t :: opening :: (us ++ [closing])) t.ident (some ps) where
  name := hlexeme
  given := congrArg some hps.names
  binding {u} hu rest := by
    rw [List.cons_append, List.cons_append, List.append_assoc, List.singleton_append]
    by_cases hxs : xs = []
    · have hnone : ps = [] := List.map_eq_nil_iff.1 (hps.names.trans hxs)
      rw [hps.nil hxs, hnone]
      simp [Line.bindingHead?, ht, hopening, hadj, hclosing]
    · obtain ⟨v, us, rfl, hv⟩ := hps.head hxs
      have hbinding := hps.binding hxs u rest
      have hcall : Line.bindingHead? (t :: opening :: (v :: us ++ closing :: u :: rest)) =
          (Line.bindingParams? (v :: us ++ closing :: u :: rest)).map
            fun r => (t.ident, some r.1, r.2) := by
        cases us with
        | nil => exact bindingHead?_call ht hopening hadj hv _
        | cons w us => exact bindingHead?_call ht hopening hadj hv _
      rw [hcall, hbinding]
      split <;> rfl
  operand {u} _ rest := by
    refine ⟨.call t.ident (ps.map .name) (t.span.merge closing.span), ?_, ?_⟩
    · rw [List.cons_append, List.cons_append, List.append_assoc, List.singleton_append]
      exact .call ht hopening hadj (hps.arguments _)
    · rw [headExpr, ← hlexeme, ← hps.names, Expr.relocate, Expr.relocateAll_eq_map, List.map_map,
        List.map_map]
      rfl

/-- A left side is scanned into such tokens. -/
theorem scanned_head {f : String} {params : Option (List String)} (hf : IsName f.toList)
    (hparams : ∀ x ∈ params.getD [], IsName x.toList) :
    Scanned (headText f params) fun ts => ∃ id ps, HeadTokens f params ts id ps := by
  intro offset r hr
  rw [← headExpr_text]
  cases params with
  | none =>
    obtain ⟨ts, next, hts, hcontent⟩ := scanned_name hf ⟨0, 0⟩ offset r hr
    refine ⟨ts, next, ?_, hcontent⟩
    cases hts with
    | name ht hlexeme => exact ⟨_, _, headTokens_name ht hlexeme⟩
  | some xs =>
    have hargs : ∀ e ∈ xs.map fun x => Expr.name ⟨x, ⟨0, 0⟩⟩, Scanned e.text (Printed e) := by
      intro e he
      obtain ⟨x, hx, rfl⟩ := List.mem_map.1 he
      exact scanned_name (hparams x hx) _
    obtain ⟨ts, next, hts, hcontent⟩ := scanned_call hf hargs ⟨0, 0⟩ ⟨0, 0⟩ offset r hr
    refine ⟨ts, next, ?_, hcontent⟩
    cases hts with
    | call ht hlexeme hopening hadj hus hclosing =>
      obtain ⟨ps, hps⟩ := exists_paramTokens hus hclosing
      exact ⟨_, _, headTokens_call ht hlexeme hopening hadj hclosing hps⟩

/-! ### Right sides -/

/-- A closing parenthesis behind a text without comments is a token of its own. -/
theorem Token.Tiles.close {offset : Nat} {cs : List Char} {ts : List Token}
    (h : Token.Tiles offset cs ts) (hcs : '#' ∉ cs) :
    Token.Tiles offset (cs ++ [')'])
      (ts ++ [⟨.closeParen, ")", ⟨offset + byteLength cs, offset + byteLength cs + 1⟩⟩]) := by
  induction h with
  | done offset =>
    exact @Token.Tiles.lexeme offset .closeParen ')' [] [] [] (by decide) (by decide) (.done _)
  | @blank offset c cs ts hc _ ih =>
    have hrest := ih fun hmem => hcs (List.mem_cons_of_mem c hmem)
    rw [byteLength_cons, ← Nat.add_assoc]
    exact .blank hc hrest
  | @lexeme offset kind c w cs ts hc hmunch _ ih =>
    rw [List.cons_append] at hcs hmunch
    obtain ⟨hsharp, htail⟩ := List.ne_and_not_mem_of_not_mem_cons hcs
    have hrest := ih fun hmem => htail (List.mem_append_right w hmem)
    have hbreak : Token.munch (c :: w ++ (cs ++ [')'])) = (kind, w.length + 1) := by
      rw [List.cons_append, ← List.append_assoc,
        Token.munch_break Token.breaks_closeParen (.inl hsharp.symm), hmunch]
    rw [byteLength_append, ← Nat.add_assoc, List.append_assoc, List.cons_append]
    exact .lexeme hc hbreak hrest

/-- An expression further down a text is the same expression further down. -/
theorem derives_ofString {source : String} {e : Expr} (h : Expr.ofString source = .ok e)
    (k : Nat) :
    Derives .comparison (content k source.toList) (e.relocate (Span.shift k)) [] := by
  rw [Token.content_shift]
  exact (derives_relocate (moves_shift k _)).2 ⟨e, ofString_eq_ok_iff.1 h, rfl⟩

theorem content_close {cs : List Char} (hcs : '#' ∉ cs) (k : Nat) :
    ∃ close, close.kind = .closeParen ∧ content k (cs ++ [')']) = content k cs ++ [close] := by
  have hclose := ((Token.tiles_lexemes k cs).close hcs).lexemes_eq
  refine ⟨⟨.closeParen, ")", ⟨k + byteLength cs, k + byteLength cs + 1⟩⟩, rfl, ?_⟩
  rw [content, hclose, List.filter_append]
  rfl

/-! ### Reading the two lines -/

/-- A left side is a phrase, so no newline is in it. -/
theorem headText_single_line {f : String} {params : Option (List String)} (hf : IsName f.toList)
    (hparams : ∀ x ∈ params.getD [], IsName x.toList) : '\n' ∉ (headText f params).toList := by
  obtain ⟨ts, next, ⟨id, ps, hts⟩, hcontent⟩ := scanned_head hf hparams 0 [] Token.ends_nil
  rw [List.append_nil, Token.content_nil, List.append_nil] at hcontent
  obtain ⟨lhs, hlhs, -⟩ := hts.operand (t := Token.endToken 0) nofun []
  obtain ⟨spent, hspent, htakes⟩ := hlhs.takes
  obtain ⟨l, hphrase⟩ := htakes.phrase
  rw [← List.append_cancel_right hspent, ← hcontent] at hphrase
  exact hphrase.single_line

section Equation

variable {f : String} {params : Option (List String)} {source : String} {e : Expr}

/-- With `=` between the sides a line is read as a binding, unless a parameter occurs twice. -/
theorem ofString_equation (hf : IsName f.toList)
    (hparams : ∀ x ∈ params.getD [], IsName x.toList) (hsource : Expr.ofString source = .ok e) :
    '\n' ∉ (headText f params ++ " = " ++ source).toList ∧
    ∃ b : Binding, b.name.name = f ∧ b.params.map (List.map (·.name)) = params ∧
      b.rhs.relocate Span.forget = e.relocate Span.forget ∧
      Line.ofString (headText f params ++ " = " ++ source) =
        match Line.firstRepeated? [] (b.params.getD []) with
        | some p => .error ⟨.duplicateParameter p.name, p.span⟩
        | none => .ok (.binding b) := by
  have hline : '\n' ∉ (headText f params ++ " = " ++ source).toList := by
    have hhead := headText_single_line hf hparams
    have hrhs := (derives_ofString hsource 0).single_line
    simp [hhead, hrhs]
  have htext : (headText f params ++ " = " ++ source).toList =
      (headText f params).toList ++ ' ' :: (['='] ++ ' ' :: source.toList) := by
    simp
  obtain ⟨ts, next, ⟨id, ps, hts⟩, hcontent⟩ := scanned_head hf hparams 0
    (' ' :: (['='] ++ ' ' :: source.toList)) (Token.ends_cons (by decide) _)
  have hequal : ∀ r, Token.symbol? (['='] ++ ' ' :: r) = some (.equal, 1) := fun _ => rfl
  obtain ⟨t, k, hrest, ht⟩ := content_spaced (by decide) hequal nofun next source.toList
  have hhead := hts.binding (t := t) (by rw [ht]; nofun) (content k source.toList)
  rw [if_pos ht] at hhead
  let rhs := e.relocate (Span.shift k)
  refine ⟨hline, ⟨id, ps, rhs, id.span.merge rhs.span⟩, hts.name, hts.given,
    Expr.relocate_relocate _ _ e, ?_⟩
  rw [Line.ofString_eq hline, htext, hcontent, hrest, Line.parseTokens_of_head hhead,
    Line.parseBinding_eq]
  cases Line.firstRepeated? [] (ps.getD []) with
  | some p => rfl
  | none => exact Line.readLast_eq_ok.2 ⟨rhs, derives_ofString hsource k, rfl⟩

/-- A left side, `==` and a phrase in parentheses are a comparison. -/
theorem HeadTokens.comparison {ts us : List Token} {id : Ident} {ps : Option (List Ident)}
    {t opening close : Token} {rhs : Expr} (hts : HeadTokens f params ts id ps)
    (ht : t.kind = .doubleEqual) (hopening : opening.kind = .openParen)
    (hrhs : Derives .comparison us rhs []) (hclose : close.kind = .closeParen) :
    ∃ lhs : Expr, lhs.relocate Span.forget = headExpr f params ∧
      Derives .comparison (ts ++ t :: opening :: (us ++ [close]))
        (.combine .eq lhs (.paren rhs (opening.span.merge close.span))) [] := by
  obtain ⟨lhs, hlhs, hforget⟩ := hts.operand (t := t) (by rw [ht]; decide)
    (opening :: (us ++ [close]))
  have hop : Level.comparison.operator? t.kind = some .eq := by rw [ht]; rfl
  -- a closing parenthesis makes no call of a name before it
  have hinner : Derives .comparison (us ++ [close]) rhs [close] := by
    obtain ⟨spent, hspent, htakes⟩ := hrhs.takes
    rw [hspent, List.append_nil]
    exact htakes.derives [close] (follows_of_ne hclose (by decide) [] [])
  have hparen := Derives.paren hopening hinner hclose
  exact ⟨lhs, hforget, .binary rfl (hlhs.loosen (by decide)) hop (hparen.loosen (by decide))⟩

/-- With `==` between the sides and the right side in parentheses a line is read as a comparison. -/
theorem readsAs_comparison (hf : IsName f.toList)
    (hparams : ∀ x ∈ params.getD [], IsName x.toList) (hsource : Expr.ofString source = .ok e)
    (hcomment : '#' ∉ source.toList) :
    ∃ (lhs rhs : Expr) (span : Span), lhs.relocate Span.forget = headExpr f params ∧
      rhs.relocate Span.forget = e.relocate Span.forget ∧
      ReadsAs (headText f params ++ " == (" ++ source ++ ")")
        (.expr (.combine .eq lhs (.paren rhs span))) := by
  have htext : (headText f params ++ " == (" ++ source ++ ")").toList =
      (headText f params).toList ++
        ' ' :: (['=', '='] ++ ' ' :: '(' :: (source.toList ++ [')'])) := by
    simp
  obtain ⟨ts, next, ⟨id, ps, hts⟩, hcontent⟩ := scanned_head hf hparams 0
    (' ' :: (['=', '='] ++ ' ' :: '(' :: (source.toList ++ [')']))) (Token.ends_cons (by decide) _)
  have hequals : ∀ r, Token.symbol? (['=', '='] ++ ' ' :: r) = some (.doubleEqual, 2) :=
    fun _ => rfl
  obtain ⟨t, i, hrest, ht⟩ :=
    content_spaced (by decide) hequals nofun next ('(' :: (source.toList ++ [')']))
  obtain ⟨opening, k, hrhs, hopening, -⟩ := marks_openParen i (source.toList ++ [')'])
  obtain ⟨close, hclose, hend⟩ := content_close hcomment k
  rw [hrest, hrhs, hend, ← htext] at hcontent
  obtain ⟨lhs, hforget, hphrase⟩ :=
    hts.comparison ht hopening (derives_ofString hsource k) hclose
  have hhead := hts.binding (t := t) (by rw [ht]; nofun)
    (opening :: (content k source.toList ++ [close]))
  rw [if_neg (by rw [ht]; nofun), ← hcontent] at hhead
  rw [← hcontent] at hphrase
  have hline := hphrase.single_line
  have hread := (Line.ofString_eq hline).trans (Line.parseTokens_of_phrase hphrase hhead _)
  exact ⟨lhs, _, _, hforget, Expr.relocate_relocate _ (Span.shift k) e, hline, hread⟩

/-! ### Running the two lines -/

theorem Binding.names_eq {b : Binding} (hparams : b.params.map (List.map (·.name)) = params) :
    (b.params.getD []).map (·.name) = params.getD [] := by
  rw [← hparams]
  cases b.params <;> rfl

/-- The left side of a binding is the expression that is written. -/
theorem Binding.forget_lhs {b : Binding} (hname : b.name.name = f)
    (hparams : b.params.map (List.map (·.name)) = params) :
    b.lhs.relocate Span.forget = headExpr f params := by
  obtain ⟨name, ps, rhs, span⟩ := b
  subst hname hparams
  cases ps with
  | none => rfl
  | some ps =>
    simp only [Binding.lhs, Expr.relocate, Expr.relocateAll_eq_map, List.map_map, Option.map_some,
      headExpr]
    rfl

namespace State

variable {s : State}

/-- The result of the test that two sides are equal, without places. -/
def tested (s : State) (lhs rhs : Expr) : Except ProgramError (List Outcome) :=
  mapBoth (.eval 1) (fun v => [.value v])
    ((s.relocate Span.forget).eval (.binary .eq lhs (rhs.relocate Span.forget) ⟨0, 0⟩))

/-- A line that stands for an expression is evaluated, and changes nothing. -/
theorem runProgram_eval {line : Line} (hread : ReadsAs source line)
    (hresolve : s.resolve line = some (.eval e)) :
    (s.runProgram source).1 = s ∧
      mapBoth (ProgramError.relocate Span.forget) id (s.runProgram source).2 =
        mapBoth (.eval 1) (fun v => [.value v])
          ((s.relocate Span.forget).eval (e.relocate Span.forget)) := by
  rw [runProgram, hread.parseProgram, eval_relocate]
  simp only [runLines, runLine, hresolve, execute, bind_eq]
  cases s.eval e with
  | error err => exact ⟨rfl, rfl⟩
  | ok v => exact ⟨rfl, rfl⟩

theorem eval_paren_right (s : State) (op : Operator) (lhs rhs : Expr) (inner span : Span) :
    s.eval (.binary op lhs (.paren rhs inner) span) = s.eval (.binary op lhs rhs span) := by
  rw [eval, eval, evalAt_binary, evalAt_binary, evalAt_paren]

theorem runProgram_comparison (s : State) (hf : IsName f.toList)
    (hparams : ∀ x ∈ params.getD [], IsName x.toList) (hsource : Expr.ofString source = .ok e)
    (hcomment : '#' ∉ source.toList) :
    (s.runProgram (headText f params ++ " == (" ++ source ++ ")")).1 = s ∧
      mapBoth (ProgramError.relocate Span.forget) id
          (s.runProgram (headText f params ++ " == (" ++ source ++ ")")).2 =
        s.tested (headExpr f params) e := by
  obtain ⟨lhs, rhs, span, hlhs, hrhs, hread⟩ := readsAs_comparison hf hparams hsource hcomment
  have hresolve : s.resolve (.expr (.combine .eq lhs (.paren rhs span))) = some (.eval _) := rfl
  obtain ⟨hstate, hresult⟩ := runProgram_eval hread hresolve
  rw [forget_combine, hlhs, Expr.relocate, hrhs, eval_paren_right] at hresult
  exact ⟨hstate, hresult⟩

/-- With different parameters the line is a binding, which is an equation about a name that is
defined. -/
theorem runProgram_binding (hf : IsName f.toList)
    (hparams : ∀ x ∈ params.getD [], IsName x.toList) (hdefined : s.isDefined f = true)
    (hsource : Expr.ofString source = .ok e) (hnodup : (params.getD []).Nodup) :
    (s.runProgram (headText f params ++ " = " ++ source)).1 = s ∧
      mapBoth (ProgramError.relocate Span.forget) id
          (s.runProgram (headText f params ++ " = " ++ source)).2 =
        s.tested (headExpr f params) e := by
  obtain ⟨hline, b, hname, hgiven, hrhs, hread⟩ := ofString_equation hf hparams hsource
  cases hrepeated : Line.firstRepeated? [] (b.params.getD []) with
  | some p =>
    have hcount := Line.count_of_firstRepeated? hrepeated
    rw [List.nil_append, Binding.names_eq hgiven] at hcount
    have hone := List.nodup_iff_count.1 hnodup p.name
    omega
  | none =>
    rw [hrepeated] at hread
    have hresolve : s.resolve (.binding b) = some (.eval (.combine .eq b.lhs b.rhs)) := by
      rw [resolve, hname, hdefined]
      rfl
    obtain ⟨hstate, hresult⟩ := runProgram_eval ⟨hline, hread⟩ hresolve
    rw [forget_combine, Binding.forget_lhs hname hgiven, hrhs] at hresult
    exact ⟨hstate, hresult⟩

theorem runProgram_repeated (s : State) (hf : IsName f.toList)
    (hparams : ∀ x ∈ params.getD [], IsName x.toList) (hsource : Expr.ofString source = .ok e)
    (hrepeats : ¬ (params.getD []).Nodup) :
    ∃ x span, 2 ≤ (params.getD []).count x ∧
      s.runProgram (headText f params ++ " = " ++ source) =
        (s, .error (.parse [⟨.duplicateParameter x, span⟩])) := by
  obtain ⟨hline, b, -, hgiven, -, hread⟩ := ofString_equation hf hparams hsource
  cases hrepeated : Line.firstRepeated? [] (b.params.getD []) with
  | some p =>
    have hcount := Line.count_of_firstRepeated? hrepeated
    rw [List.nil_append, Binding.names_eq hgiven] at hcount
    rw [hrepeated] at hread
    refine ⟨p.name, p.span, hcount, ?_⟩
    rw [runProgram, parseProgram_line_error hline hread]
  | none =>
    have hnodup := (Line.firstRepeated?_eq_none_iff.1 hrepeated).1
    rw [Binding.names_eq hgiven] at hnodup
    exact absurd hnodup hrepeats

end State

end Equation

namespace State

/-- A line with `=` about a defined name gives what the same line with `==` gives, the right side in
parentheses, if its parameters are different: the same value, or the same error up to spans. If a
parameter is repeated the line is not read. None of the lines changes the state. -/
theorem runProgram_equation (s : State) (f : String) (params : Option (List String))
    (source : String) {e : Expr} (hf : IsName f.toList)
    (hparams : ∀ x ∈ params.getD [], IsName x.toList) (hdefined : s.isDefined f = true)
    (hsource : Expr.ofString source = .ok e) (hcomment : '#' ∉ source.toList) :
    let equation := s.runProgram (headText f params ++ " = " ++ source)
    let comparison := s.runProgram (headText f params ++ " == (" ++ source ++ ")")
    equation.1 = s ∧ comparison.1 = s ∧
    ((params.getD []).Nodup →
      mapBoth (ProgramError.relocate Span.forget) id equation.2 =
        mapBoth (ProgramError.relocate Span.forget) id comparison.2) ∧
    (¬ (params.getD []).Nodup → ∃ x span, 2 ≤ (params.getD []).count x ∧
      equation.2 = .error (.parse [⟨.duplicateParameter x, span⟩])) := by
  intro equation comparison
  obtain ⟨hstate, hresult⟩ := s.runProgram_comparison hf hparams hsource hcomment
  by_cases hnodup : (params.getD []).Nodup
  · obtain ⟨hstate', hresult'⟩ := runProgram_binding hf hparams hdefined hsource hnodup
    exact ⟨hstate', hstate, fun _ => hresult'.trans hresult.symm, fun h => absurd hnodup h⟩
  · obtain ⟨x, span, hcount, hrun⟩ := s.runProgram_repeated hf hparams hsource hnodup
    exact ⟨congrArg Prod.fst hrun, hstate, fun h => absurd h hnodup,
      fun _ => ⟨x, span, hcount, congrArg Prod.snd hrun⟩⟩

/-- A session with a function and two variables. -/
def summing : State := session 50 ["f(a, b) = a + b", "x = 1", "y = 2"]

/-- A letter is a name. -/
theorem isName_letter {c : Char} (hc : Token.isIdentifierStart c = true) : IsName [c] where
  parts := ⟨c, [], rfl, hc, nofun⟩
  ne_unit := by simp
  ne_print := by simp

/-- The sum of the two variables, and that of one of them with itself. -/
theorem runProgram_equation_sum :
    (summing.runProgram "f(x, y) = 3").1 = summing ∧
      mapBoth (ProgramError.relocate Span.forget) id (summing.runProgram "f(x, y) = 3").2 =
        mapBoth (ProgramError.relocate Span.forget) id (summing.runProgram "f(x, y) == (3)").2 ∧
      ∃ x span, 2 ≤ ["x", "x"].count x ∧
        (summing.runProgram "f(x, x) = 2").2 =
          .error (.parse [⟨.duplicateParameter x, span⟩]) := by
  have hf : IsName "f".toList := isName_letter (by decide)
  have hx : IsName "x".toList := isName_letter (by decide)
  have hy : IsName "y".toList := isName_letter (by decide)
  have hdefined : summing.isDefined "f" = true := by decide +kernel
  have htwo : Expr.ofString "2" = .ok (.number ⟨2, 0⟩ ⟨0, 1⟩) := by decide +kernel
  have hthree : Expr.ofString "3" = .ok (.number ⟨3, 0⟩ ⟨0, 1⟩) := by decide +kernel
  obtain ⟨hstate, -, hsame, -⟩ := summing.runProgram_equation "f" (some ["x", "y"]) "3" hf
    (List.forall_mem_cons.2 ⟨hx, List.forall_mem_singleton.2 hy⟩) hdefined hthree (by decide)
  obtain ⟨-, -, -, hrefused⟩ := summing.runProgram_equation "f" (some ["x", "x"]) "2" hf
    (List.forall_mem_cons.2 ⟨hx, List.forall_mem_singleton.2 hx⟩) hdefined htwo (by decide)
  exact ⟨hstate, hsame (by decide), hrefused (by decide)⟩

/-- Not every line with `=` about a defined name gives what the line with `==` gives. -/
theorem not_runProgram_equation :
    ¬ ∀ precision sources f xs source, IsName f.toList → (∀ x ∈ xs, IsName x.toList) →
      (session precision sources).isDefined f = true → (∃ e, Expr.ofString source = .ok e) →
      '\n' ∉ source.toList → '#' ∉ source.toList →
      mapBoth (ProgramError.relocate Span.forget) id ((session precision sources).runProgram
          (f ++ paramsText xs ++ " = " ++ source)).2 =
        mapBoth (ProgramError.relocate Span.forget) id ((session precision sources).runProgram
          (f ++ paramsText xs ++ " == (" ++ source ++ ")")).2 := by
  intro h
  have hequation : (summing.runProgram "f(x, x) = 2").2 =
      .error (.parse [⟨.duplicateParameter "x", ⟨5, 6⟩⟩]) := by decide +kernel
  have hcomparison : (summing.runProgram "f(x, x) == (2)").2 =
      .ok [.value ⟨.bool true, .one⟩] := by decide +kernel
  have hx : IsName "x".toList := isName_letter (by decide)
  have hsame := h 50 ["f(a, b) = a + b", "x = 1", "y = 2"] "f" ["x", "x"] "2"
    (isName_letter (by decide)) (List.forall_mem_cons.2 ⟨hx, List.forall_mem_singleton.2 hx⟩)
    (by decide +kernel) ⟨.number ⟨2, 0⟩ ⟨0, 1⟩, by decide +kernel⟩ (by decide) (by decide)
  have hdiffer : mapBoth (ProgramError.relocate Span.forget) id
        (summing.runProgram "f(x, x) = 2").2 =
      mapBoth (ProgramError.relocate Span.forget) id (summing.runProgram "f(x, x) == (2)").2 :=
    hsame
  rw [hequation, hcomparison] at hdiffer
  cases hdiffer

end State

end UnitCalc
