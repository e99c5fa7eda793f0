import UnitCalc.Proofs.LineGrammar
import UnitCalc.Proofs.Tiling

/-! Errors of reading. A reader complains of a token that it was given, or of the one that stops the
line, so a property of all that can be said of these tokens is a property of its error. The errors
at stray characters are looked up among those of the scan. All of them are there, and they say what
the readers have said, so that the lookup changes none. -/

namespace UnitCalc

open Grammar

/-! ### Readers and the tokens they complain of -/

/-- Whatever a reader can say of a token has a property. -/
structure Blamed (R : ParseError → Prop) (t : Token) : Prop where
  stray : t.kind = .stray → R ⟨.strayCharacter t.lexeme, t.span⟩
  other : ∀ cause, (∀ lexeme, cause ≠ .strayCharacter lexeme) → R ⟨cause, t.span⟩

section Blame

variable {R : ParseError → Prop}

theorem blamed_of_span {P : Span → Prop} {t : Token} (h : P t.span) :
    Blamed (fun err => P err.span) t :=
  ⟨fun _ => h, fun _ _ => h⟩

theorem Blamed.unexpected {t : Token} (h : Blamed R t) (expected : ParseError.Expected) :
    R (.unexpected t expected) := by
  rw [ParseError.unexpected]
  split
  · exact h.stray ‹_›
  · exact h.other _ nofun

theorem Blamed.noExpression {t : Token} (h : Blamed R t) : R (.noExpression t) := by
  rw [ParseError.noExpression]
  split
  · exact h.stray ‹_›
  · exact h.other _ nofun

theorem Blamed.literal {t : Token} (ht : Blamed R t) {err : ParseError}
    (h : Expr.literal t = .error err) : R err := by
  rw [Expr.literal] at h
  split at h
  · cases h
    exact ht.other _ nofun
  · split at h <;> cases h
    exact ht.other _ nofun

theorem readClosing_blames {kind : Token.Kind} {stop : Token} {ts : List Token} {err : ParseError}
    (h : Expr.readClosing kind stop ts = .error err) (hts : ∀ t ∈ ts, Blamed R t)
    (hstop : Blamed R stop) : R err := by
  cases ts with
  | nil =>
    cases h
    exact hstop.unexpected _
  | cons t ts =>
    rw [Expr.readClosing_cons] at h
    split at h
    · cases h
    · cases h
      exact (head_tail hts).1.unexpected _

/-- A reader complains of a token that it was given, or of the one that stops the line. -/
def Blames {α : Type} (R : ParseError → Prop) (ts : List Token) (r : Except ParseError α) : Prop :=
  (∀ t ∈ ts, Blamed R t) → ∀ err, r = .error err → R err

theorem readers_blame {stop : Token} (hstop : Blamed R stop) :
    (∀ min ts, Blames R ts (Expr.read stop min ts)) ∧
      (∀ min lhs ts, Blames R ts (Expr.readOperations stop min lhs ts)) ∧
      (∀ ts, Blames R ts (Expr.readOperand stop ts)) ∧
      ∀ ts, Blames R ts (Expr.readArguments stop ts) := by
  refine Expr.readers_induct stop (fun min ts => Blames R ts (Expr.read stop min ts))
    (fun min lhs ts => Blames R ts (Expr.readOperations stop min lhs ts))
    (fun ts => Blames R ts (Expr.readOperand stop ts))
    (fun ts => Blames R ts (Expr.readArguments stop ts)) ?read ?operations_nil ?operator
    ?operand ?nil ?sign ?literal ?name ?call ?enclosed ?other ?arguments_nil ?close ?arguments
  case read =>
    intro min ts hoperand hgo hts err h
    rw [Expr.read_eq] at h
    rcases bind_eq_error.1 h with h | ⟨⟨lhs, rest⟩, ho, h⟩
    · exact hoperand hts err h
    · exact hgo lhs rest ho ((readOperand_spends ho).all hts) err h
  case operations_nil =>
    intro min lhs _ err h
    rw [Expr.readOperations_nil] at h
    cases h
  case operator =>
    intro min lhs t ts op hop hread hgo hts err h
    rw [Expr.readOperations_operator hop] at h
    split at h
    · cases h
    · rename_i hle
      have hts := (head_tail hts).2
      rcases bind_eq_error.1 h with h | ⟨⟨rhs, rest⟩, hr, h⟩
      · exact hread hle hts err h
      · exact hgo rhs rest hle hr ((read_spends (rightPrecedence_le op) hr).all hts) err h
  case operand =>
    intro min lhs t ts hop hread hgo hts err h
    rw [Expr.readOperations_operand hop] at h
    split at h
    · rename_i hj
      rcases bind_eq_error.1 h with h | ⟨⟨rhs, rest⟩, hr, h⟩
      · exact hread hj hts err h
      · exact hgo rhs rest hj hr ((read_spends (by decide) hr).all hts) err h
    · cases h
  case nil =>
    intro _ err h
    rw [Expr.readOperand_nil] at h
    cases h
    exact hstop.noExpression
  case sign =>
    intro t ts sign hsign hread hts err h
    rw [Expr.readOperand_sign hsign, map_eq_error] at h
    exact hread (head_tail hts).2 err h
  case literal =>
    intro t ts ht hts err h
    rw [Expr.readOperand_literal ht, map_eq_error] at h
    exact (head_tail hts).1.literal h
  case name =>
    intro t ts ht hname _ err h
    rw [Expr.readOperand_name ht hname] at h
    cases h
  case call =>
    intro t u us ht hu hadj hargs hts err h
    rw [Expr.readOperand_call ht hu hadj, map_eq_error] at h
    exact hargs (head_tail (head_tail hts).2).2 err h
  case enclosed =>
    intro t ts kind make ht hread hts err h
    have hts := (head_tail hts).2
    rw [Expr.readOperand_enclosed ht] at h
    rcases bind_eq_error.1 h with h | ⟨⟨e, rest⟩, hr, h⟩
    · exact hread hts err h
    · exact readClosing_blames (map_eq_error.1 h) ((read_spends (by decide) hr).all hts) hstop
  case other =>
    intro t ts hsign hstart hts err h
    rw [Expr.readOperand_other hsign hstart] at h
    cases h
    exact (head_tail hts).1.noExpression
  case arguments_nil =>
    intro _ err h
    rw [Expr.readArguments_nil] at h
    cases h
    exact hstop.noExpression
  case close =>
    intro t ts ht _ err h
    rw [Expr.readArguments_close ht] at h
    cases h
  case arguments =>
    intro t ts ht hread hargs hts err h
    rw [Expr.readArguments_cons ht] at h
    rcases bind_eq_error.1 h with h | ⟨⟨e, rest⟩, hr, h⟩
    · exact hread hts err h
    · have hrest := (read_spends (by decide) hr).all hts
      cases rest with
      | nil =>
        cases h
        exact hstop.unexpected _
      | cons u us =>
        obtain ⟨hu, hus⟩ := head_tail hrest
        simp only [Expr.readMore] at h
        split at h
        · exact hargs e u us hr hus err (map_eq_error.1 h)
        · split at h
          · cases h
          · cases h
            exact hu.unexpected _

/-! ### Lines -/

section Heads

variable {P : Span → Prop}

theorem bindingParams?_within {ts rest : List Token} {ps : List Ident}
    (h : Line.bindingParams? ts = some (ps, rest)) (hts : ∀ t ∈ ts, P t.span) :
    ∀ p ∈ ps, P p.span := by
  fun_induction Line.bindingParams? ts generalizing ps rest with
  | case1 | case4 | case5 | case6 | case7 => cases h
  | case2 p c ts hp hc ih =>
    obtain ⟨⟨ps', rest'⟩, hps, heq⟩ := Option.map_eq_some_iff.1 h
    cases heq
    obtain ⟨hpspan, hts⟩ := head_tail hts
    exact List.forall_mem_cons.2 ⟨hpspan, ih hps (head_tail hts).2⟩
  | case3 p c hp hc hclose e rest he =>
    cases h
    exact List.forall_mem_cons.2 ⟨(head_tail hts).1, List.forall_mem_nil _⟩

theorem bindingHead?_within {ts rest : List Token} {name : Ident} {params : Option (List Ident)}
    (h : Line.bindingHead? ts = some (name, params, rest)) (hts : ∀ t ∈ ts, P t.span) :
    P name.span ∧ ∀ p ∈ params.getD [], P p.span := by
  revert h
  fun_cases Line.bindingHead? ts with
  | case1 | case4 | case6 | case7 | case8 =>
    intro h
    cases h
  | case2 n t ts =>
    intro h
    cases h
    exact ⟨(head_tail hts).1, List.forall_mem_nil _⟩
  | case3 n t hn ht hopen c e rest' =>
    intro h
    cases h
    exact ⟨(head_tail hts).1, List.forall_mem_nil _⟩
  | case5 n t hn ht hopen c e rest' hc =>
    intro h
    obtain ⟨⟨ps, rest''⟩, hps, heq⟩ := Option.map_eq_some_iff.1 h
    cases heq
    obtain ⟨hname, hts⟩ := head_tail hts
    exact ⟨hname, bindingParams?_within hps (head_tail hts).2⟩

end Heads

namespace Line

theorem finish_blames {line : Line} {ts : List Token} {err : ParseError}
    (h : finish line ts = .error err) (hts : ∀ t ∈ ts, Blamed R t) : R err := by
  cases ts with
  | nil => cases h
  | cons t ts =>
    cases h
    exact (head_tail hts).1.unexpected _

theorem readLast_blames {stop : Token} (hstop : Blamed R stop) {k : Expr → Line}
    {ts : List Token} {err : ParseError} (h : readLast stop k ts = .error err)
    (hts : ∀ t ∈ ts, Blamed R t) : R err := by
  rcases bind_eq_error.1 h with h | ⟨⟨e, rest⟩, hread, h⟩
  · exact (readers_blame hstop).1 0 ts hts err h
  · exact finish_blames h ((read_spends (by decide) hread).all hts)

/-- The error of a line is about one of its tokens, or about the token that stops it. -/
theorem parseTokens_blames {l : TokenLine} (hstop : Blamed R l.stop)
    (hl : ∀ t ∈ l.tokens, Blamed R t) {err : ParseError} (h : parseTokens l = .error err) :
    R err := by
  rw [parseTokens.eq_def] at h
  split at h
  · cases h
  · rename_i t ts htokens
    rw [htokens] at hl
    obtain ⟨ht, hts⟩ := head_tail hl
    split at h
    · rw [parseUnit] at h
      split at h
      · exact finish_blames h fun u hu => hts u (List.mem_of_mem_drop hu)
      · cases h
        cases ts with
        | nil => exact hstop.other _ (by simp)
        | cons u ts => exact (head_tail hts).1.other _ (by simp)
    · split at h
      · rw [parsePrint_eq] at h
        exact readLast_blames hstop h hts
      · split at h
        · rename_i name params rest hhead
          rw [htokens] at hhead
          obtain ⟨-, hparams⟩ := bindingHead?_within
            (P := fun sp => ∀ cause, (∀ lexeme, cause ≠ .strayCharacter lexeme) → R ⟨cause, sp⟩)
            hhead fun u hu => (hl u hu).other
          rw [parseBinding_eq] at h
          split at h
          · rename_i p hp
            cases h
            exact hparams p (firstRepeated?_mem hp) _ (by simp)
          · have hrest : ∀ t ∈ rest, Blamed R t :=
              fun t ht => hl t ((bindingHead?_suffix hhead).subset ht)
            exact readLast_blames hstop h hrest
        · rw [parseExpr_eq, htokens] at h
          exact readLast_blames hstop h hl

/-- The first token of a line that ought to be empty is blamed. -/
theorem ofLines_blames {ls : List TokenLine}
    (hls : ∀ l ∈ ls, Blamed R l.stop ∧ ∀ t ∈ l.tokens, Blamed R t) {err : ParseError}
    (h : ofLines ls = .error err) : R err := by
  cases ls with
  | nil => cases h
  | cons l ls =>
    obtain ⟨⟨hstop, hl⟩, hls⟩ := List.forall_mem_cons.1 hls
    rcases bind_eq_error.1 h with h | ⟨line, -, h⟩
    · exact parseTokens_blames hstop hl h
    · split at h
      · cases h
      · rename_i t ht
        cases h
        obtain ⟨l', hl', ht⟩ := List.exists_of_findSome?_eq_some ht
        exact ((hls l' hl').2 t (List.mem_of_head? ht)).unexpected _

end Line

theorem Expr.ofLines_blames (hnone : R ⟨.expectedExpression .endOfInput, ⟨0, 0⟩⟩)
    {ls : List TokenLine} (hblamed : ∀ l ∈ ls, Blamed R l.stop ∧ ∀ t ∈ l.tokens, Blamed R t)
    {err : ParseError} (h : ofLines ls = .error err) : R err := by
  cases ls with
  | nil =>
    cases h
    exact hnone
  | cons l ls =>
    obtain ⟨hstop, hl⟩ := hblamed l List.mem_cons_self
    rw [ofLines_cons] at h
    rcases bind_eq_error.1 h with h | ⟨⟨e, rest⟩, hread, h⟩
    · exact (readers_blame hstop).1 0 l.tokens hl err h
    · have hrest := (read_spends (by decide) hread).all hl
      split at h
      · cases h
      · cases h
        cases rest with
        | nil => exact hstop.unexpected _
        | cons u us => exact (head_tail hrest).1.unexpected _

end Blame

/-! ### Lookups -/

/-- What the readers say of the tokens of a source is not changed by looking it up. -/
theorem blamed_lookUp {source : String} {t : Token} (ht : t ∈ tokenize source) :
    Blamed (fun err => err.lookUp (strayTokens source) = err) t where
  stray hkind := by
    obtain ⟨s, hs, rfl⟩ := find?_strayTokens ht hkind
    rw [ParseError.lookUp]
    simp only [hs]
    rfl
  other cause hcause := by
    rw [ParseError.lookUp]
    split
    · rename_i lexeme heq
      exact absurd heq (hcause lexeme)
    · rfl

theorem TokenLine.blamed_lookUp {source : String} {l : TokenLine} (hl : l ∈ ofSource source) :
    Blamed (fun err => err.lookUp (strayTokens source) = err) l.stop ∧
      ∀ t ∈ l.tokens, Blamed (fun err => err.lookUp (strayTokens source) = err) t := by
  obtain ⟨htokens, hstop, -⟩ := of_mem_group hl
  exact ⟨UnitCalc.blamed_lookUp (List.mem_filter.1 hstop).1,
    fun t ht => UnitCalc.blamed_lookUp (List.mem_filter.1 (htokens t ht).1).1⟩

/-! ### Reading without lookups -/

theorem Line.ofString_eq_ofLines (source : String) :
    ofString source = ofLines (TokenLine.ofSource source) :=
  mapError_eq_self fun _ h => ofLines_blames (fun _ hl => TokenLine.blamed_lookUp hl) h

theorem Expr.ofString_eq_ofLines (source : String) :
    ofString source = ofLines (TokenLine.ofSource source) :=
  mapError_eq_self fun _ h => ofLines_blames (R := fun err => err.lookUp (strayTokens source) = err)
    rfl (fun _ hl => TokenLine.blamed_lookUp hl) h

theorem parseProgram_eq_collect (source : String) :
    parseProgram source = collect ((TokenLine.ofProgram source).map Line.parseTokens) := by
  apply mapError_eq_self
  intro errors h
  have hsame : ∀ e ∈ errors, e.lookUp (strayTokens source) = id e := by
    intro e he
    obtain ⟨tl, htl, hline⟩ := List.mem_map.1 (collect_eq_error h e he)
    obtain ⟨hstop, htokens⟩ := TokenLine.blamed_lookUp (TokenLine.mem_ofSource htl)
    exact Line.parseTokens_blames hstop htokens hline
  rw [List.map_congr_left hsame, List.map_id]

theorem parseProgram_eq_error {source : String} {errors : List ParseError}
    (h : parseProgram source = .error errors) :
    ∀ e ∈ errors, ∃ tl ∈ TokenLine.ofProgram source, Line.parseTokens tl = .error e := by
  rw [parseProgram_eq_collect] at h
  exact fun e he => List.mem_map.1 (collect_eq_error h e he)

end UnitCalc
