import UnitCalc.Proofs.CursorReaders

/-! A cursor reads lines as the reader of a line does. Before it reads a binding it looks ahead,
over all tokens that are left of the source; what it sees behind the end of the line makes no
difference, since no head of a binding goes on there. So it looks ahead at the head that the line
begins with, if there is one, and what it then takes off the line are the name, the parameters and
the expression of the binding. -/

namespace UnitCalc

open Grammar

namespace Line

/-! ### Looking ahead over the end of a line -/

theorem paramsAhead_append {u : Token} (hu : inPhrases u.kind = false) (ts us : List Token) :
    paramsAhead (ts ++ u :: us) = paramsAhead ts := by
  have hne : ∀ {k}, inPhrases k = true → u.kind ≠ k := by
    rintro k hk rfl
    exact Bool.false_ne_true (hu.symm.trans hk)
  fun_induction paramsAhead ts with
  | case1 p c ts ih =>
    rw [List.cons_append, List.cons_append, paramsAhead, ih]
    cases ts with
    | nil => simp [hne (k := .equal) rfl]
    | cons => rfl
  | case2 ts hts =>
    rcases ts with _ | ⟨p, _ | ⟨c, ts⟩⟩
    · cases us <;> simp [paramsAhead, hne (k := .identifier) rfl]
    · simp [paramsAhead, hne (k := .comma) rfl, hne (k := .closeParen) rfl]
    · exact absurd rfl (hts p c ts)

theorem headAhead_append {u : Token} (hu : inPhrases u.kind = false) (ts us : List Token) :
    headAhead (ts ++ u :: us) = headAhead ts := by
  have hne : ∀ {k}, inPhrases k = true → u.kind ≠ k := by
    rintro k hk rfl
    exact Bool.false_ne_true (hu.symm.trans hk)
  rcases ts with _ | ⟨n, _ | ⟨t, _ | ⟨c, _ | ⟨d, ts⟩⟩⟩⟩
  · cases us <;> simp [headAhead, hne (k := .identifier) rfl]
  · simp [headAhead, hne (k := .equal) rfl, hne (k := .openParen) rfl]
  · have hparams := paramsAhead_append hu [] us
    rw [List.nil_append] at hparams
    simp [headAhead, hne (k := .closeParen) rfl, hparams, paramsAhead]
  · have hparams := paramsAhead_append hu [c] us
    rw [List.singleton_append] at hparams
    simp [headAhead, hparams, hne (k := .equal) rfl]
  · have hparams := paramsAhead_append hu (c :: d :: ts) us
    simp only [List.cons_append] at hparams ⊢
    simp [headAhead, hparams]

/-- A name, where one has to stand. -/
def readName (stop : Token) : List Token → Except ParseError (Ident × List Token)
  | [] => .error ⟨.expectedIdentifier stop.kind, stop.span⟩
  | t :: ts =>
    if t.kind = .identifier then .ok (t.ident, ts)
    else .error ⟨.expectedIdentifier t.kind, t.span⟩

theorem readHead_eq (stop : Token) (ts : List Token) :
    readHead stop ts = (readName stop ts).bind fun n => (readParamList stop n.2).bind fun r =>
      (Expr.readClosing .equal stop r.2).map fun e => (n.1, r.1, e.2) := by
  cases ts with
  | nil => rfl
  | cons n ts =>
    rw [readHead, readName]
    by_cases hn : n.kind = .identifier
    · rw [if_neg (not_not_intro hn), if_pos hn]
      simp only [Except.bind, bind]
      cases readParamList stop ts with
      | error e => rfl
      | ok r =>
        simp only [Expr.readClosing]
        rcases Expr.expect .equal stop r.2 with e | ⟨t, rest, h⟩ <;> rfl
    · rw [if_pos hn, if_neg hn]
      rfl

theorem parseUnit_eq {l : TokenLine} (hstop : l.stop.kind ≠ .identifier) (start : Token)
    (ts : List Token) :
    parseUnit l start ts = (readName l.stop ts).bind fun n =>
      finish (.unit n.1 (start.span.merge n.1.span)) n.2 := by
  cases ts with
  | nil => exact if_neg hstop
  | cons t ts =>
    rw [parseUnit, readName]
    change (if t.kind = .identifier then _ else _) = _
    split <;> rfl

end Line

namespace Cursor

variable {tokens : List Token} {c : Cursor} {stop : Token} {ts : List Token} {ls : List TokenLine}

theorem exists_behind_line {rest : List Token}
    (h : rest.IsChain fun t u => t.kind = .comment → u.kind.endsLine = true)
    (hgroup : TokenLine.group (rest.filter (·.kind ≠ .comment)) = ⟨ts, stop⟩ :: ls) :
    ∃ u us, rest = ts ++ u :: us ∧ inPhrases u.kind = false := by
  induction rest generalizing ts with
  | nil => cases hgroup
  | cons t rest ih =>
    obtain ⟨hnext, hrest⟩ := List.isChain_cons.1 h
    by_cases hcomment : t.kind = .comment
    · -- The line ends behind the comment, so none of its tokens are left.
      rw [List.filter_cons_of_neg (by simpa using hcomment)] at hgroup
      cases rest with
      | nil => cases hgroup
      | cons u rest =>
        have hu := hnext u rfl hcomment
        have hkept : u.kind ≠ .comment := by
          intro hkind
          rw [hkind] at hu
          cases hu
        rw [List.filter_cons_of_pos (by simpa using hkept), TokenLine.group, if_pos hu] at hgroup
        cases hgroup
        exact ⟨t, stop :: rest, rfl, by rw [hcomment]; rfl⟩
    · rw [List.filter_cons_of_pos (by simpa using hcomment), TokenLine.group] at hgroup
      split at hgroup
      · rename_i hends
        cases hgroup
        exact ⟨stop, rest, rfl, by revert hends; cases stop.kind <;> decide⟩
      · split at hgroup
        · cases hgroup
        · rename_i l ls' hlater
          cases hgroup
          obtain ⟨u, us, rfl, hu⟩ := ih hrest hlater
          exact ⟨u, us, rfl, hu⟩

/-- Looking ahead over all tokens that are left is looking at the line. -/
theorem run_bindingAhead (hscan : Terminated tokens) (h : Faces tokens c ⟨ts, stop⟩ ls) :
    (bindingAhead tokens).run c = .ok (Line.bindingHead? ts).isSome c := by
  obtain ⟨hlt, -⟩ := List.getElem?_eq_some_iff.1 h.getElem?
  obtain ⟨u, us, hdrop, hu⟩ := exists_behind_line (hscan.comments.drop c.place) h.ahead_eq
  rw [bindingAhead, EStateM.run_bind, EStateM.run_get]
  simp only
  rw [if_pos hlt, hdrop, Line.headAhead_append hu, Line.headAhead_eq]
  rfl

/-! ### Heads of bindings -/

theorem follows_expectIdentifier (hscan : Terminated tokens) (h : Faces tokens c ⟨ts, stop⟩ ls) :
    Follows tokens c stop ls ((expectIdentifier tokens).run c) (Line.readName stop ts) := by
  cases ts with
  | nil =>
    rw [expectIdentifier, run_current_stop h, if_neg (stop_ne h rfl)]
    exact follows_throw h _
  | cons t ts =>
    rw [expectIdentifier, run_current_token h, Line.readName]
    split
    · exact (follows_advance hscan h).bind_ok fun c' hfaces => follows_pure hfaces t.ident
    · exact follows_throw h _

theorem readParams_cons {p : Token} (hp : p.kind ≠ .closeParen) (stop : Token)
    (seen : List String) (ts : List Token) :
    Line.readParams stop seen (p :: ts) = (Line.readName stop (p :: ts)).bind fun n =>
      if n.1.name ∈ seen then .error ⟨.duplicateParameter n.1.name, n.1.span⟩
      else behindItem stop (fun _ => [n.1]) (fun us =>
        (Line.readParams stop (n.1.name :: seen) us).map fun r => (n.1 :: r.1, r.2)) n.2 := by
  have hident : p.ident.name = p.lexeme := rfl
  by_cases hname : p.kind = .identifier
  · by_cases hseen : p.lexeme ∈ seen
    · cases ts <;> simp [Line.readParams, Line.readName, Except.bind, hname, hseen, Token.ident]
    · cases ts <;> simp [Line.readParams, Line.readName, Except.bind, behindItem, hname, hident,
        hseen]
  · cases ts <;> simp [Line.readParams, Line.readName, Except.bind, hp, hname]

theorem reads_parameters (hscan : Terminated tokens) (stop : Token) (ls : List TokenLine)
    (seen : List String) (ts : List Token) :
    Reads tokens stop ls (ts.length + 1) ts
      (fun n => closed tokens (fun ps _ => ps) (parameters tokens n seen))
      (Line.readParams stop seen ts) := by
  induction hlength : ts.length using Nat.strongRecOn generalizing seen ts with
  | ind m ih =>
    subst hlength
    refine .of_succ fun n c hn h => ?_
    cases ts with
    | nil =>
      rw [closed, parameters, bind_assoc, run_current_stop h, if_neg (stop_ne h rfl), bind_assoc]
      exact (follows_expectIdentifier hscan h).bind_error _
    | cons p ts =>
      rw [closed, parameters, bind_assoc, run_current_token h]
      by_cases hp : p.kind = .closeParen
      · have hclose := follows_expect hscan h .closeParen rfl
        rw [Expr.readClosing_cons, if_pos hp] at hclose
        rw [if_pos hp, pure_bind, Line.readParams.eq_def]
        simp only
        rw [if_pos hp]
        exact hclose.map fun _ => []
      · rw [if_neg hp, bind_assoc, readParams_cons hp]
        refine (follows_expectIdentifier hscan h).bind fun name rest c' hname hfaces => ?_
        split
        · exact (follows_throw hfaces _).bind_error _
        · refine follows_behindItem hscan hfaces name fun u us c'' hrest hus => ?_
          have hshorter : us.length < (p :: ts).length := by
            rw [Line.readName] at hname
            split at hname <;> cases hname
            rw [hrest, List.length_cons, List.length_cons]
            omega
          have hothers := (ih us.length hshorter (name.name :: seen) us rfl n c''
            (by omega) hus).map fun ps => name :: ps
          rw [closed_map] at hothers
          exact hothers

theorem follows_parameterList (hscan : Terminated tokens) (h : Faces tokens c ⟨ts, stop⟩ ls)
    {n : Nat} (hn : ts.length ≤ n) :
    Follows tokens c stop ls ((parameterList tokens n).run c) (Line.readParamList stop ts) := by
  rw [parameterList]
  cases ts with
  | nil =>
    rw [run_bind_of_ok (run_eat_other h (stop_ne h rfl)), if_neg Bool.false_ne_true]
    exact follows_pure h none
  | cons t ts =>
    rw [Line.readParamList]
    by_cases ht : t.kind = .openParen
    · rw [if_pos ht]
      refine (follows_eat hscan h ht).bind_ok fun c' hfaces => ?_
      rw [List.length_cons] at hn
      have hparams := (reads_parameters hscan stop ls [] ts n c' hn hfaces).map some
      rw [closed_map] at hparams
      exact hparams
    · rw [run_bind_of_ok (run_eat_other h ht), if_neg Bool.false_ne_true, if_neg ht]
      exact follows_pure h none

/-- A binding: its head, and the expression behind that. -/
def readBinding (stop : Token) (ts : List Token) : Except ParseError (Binding × List Token) :=
  (Line.readName stop ts).bind fun n => (Line.readParamList stop n.2).bind fun r =>
    (Expr.readClosing .equal stop r.2).bind fun t => (Expr.read stop 0 t.2).map fun e =>
      (⟨n.1, r.1, e.1, n.1.span.merge e.1.span⟩, e.2)

theorem readBinding_eq (stop : Token) (ts : List Token) :
    readBinding stop ts = (Line.readHead stop ts).bind fun h =>
      (Expr.read stop 0 h.2.2).map fun e =>
        (⟨h.1, h.2.1, e.1, h.1.span.merge e.1.span⟩, e.2) := by
  rw [readBinding, Line.readHead_eq]
  cases Line.readName stop ts with
  | error e => rfl
  | ok n =>
    simp only [Except.bind]
    cases Line.readParamList stop n.2 with
    | error e => rfl
    | ok r =>
      simp only
      cases Expr.readClosing .equal stop r.2 <;> rfl

theorem follows_binding (hscan : Terminated tokens) (h : Faces tokens c ⟨ts, stop⟩ ls) {n : Nat}
    (hn : 3 * ts.length + 2 ≤ n) :
    Follows tokens c stop ls ((binding tokens n).run c) (readBinding stop ts) := by
  have hname := follows_expectIdentifier hscan h
  refine hname.bind fun name rest c₁ hread h₁ => ?_
  have hlength₁ := hname.length_le h hread
  have hparams := follows_parameterList hscan h₁ (show rest.length ≤ n by omega)
  refine hparams.bind fun params rest₂ c₂ hread₂ h₂ => ?_
  have hlength₂ := hparams.length_le h₁ hread₂
  have hequal := follows_expect hscan h₂ .equal rfl
  refine hequal.bind fun equal rest₃ c₃ hread₃ h₃ => ?_
  have hlength₃ := hequal.length_le h₂ hread₃
  exact ((readers_follow hscan stop ls).1 0 rest₃ n c₃ (by omega) h₃).map fun rhs =>
    Binding.mk name params rhs (name.span.merge rhs.span)

/-! ### Lines -/

/-- What stands on a line whose first token is `t`, with the tokens that it leaves. -/
def readContent (stop t : Token) (ts : List Token) : Except ParseError (Line × List Token) :=
  if t.kind = .unit then
    (Line.readName stop ts).map fun r => (.unit r.1 (t.span.merge r.1.span), r.2)
  else if t.kind = .print then
    (Expr.read stop 0 ts).map fun r => (.print r.1 (t.span.merge r.1.span), r.2)
  else if (Line.bindingHead? (t :: ts)).isSome then
    (readBinding stop (t :: ts)).map fun r => (.binding r.1, r.2)
  else (Expr.read stop 0 (t :: ts)).map fun r => (.expr r.1, r.2)

theorem parseTokens_eq_readContent {stop : Token} (hstop : stop.kind ≠ .identifier) (t : Token)
    (ts : List Token) :
    Line.parseTokens ⟨t :: ts, stop⟩ = (readContent stop t ts).bind fun r =>
      Line.finish r.1 r.2 := by
  rw [readContent]
  by_cases hunit : t.kind = .unit
  · rw [Line.parseTokens, if_pos hunit]
    simp only
    rw [if_pos hunit, Line.parseUnit_eq hstop]
    cases Line.readName stop ts <;> rfl
  by_cases hprint : t.kind = .print
  · rw [Line.parseTokens, if_neg hunit, if_pos hprint]
    simp only
    rw [if_neg hunit, if_pos hprint, Line.parsePrint_eq, Line.readLast]
    cases Expr.read stop 0 ts <;> rfl
  rw [if_neg hunit, if_neg hprint]
  cases hhead : Line.bindingHead? (t :: ts) with
  | none =>
    rw [Line.parseTokens, if_neg (by simp)]
    simp only
    rw [if_neg hunit, if_neg hprint, hhead]
    simp only
    rw [Line.parseExpr_eq, Line.readLast]
    cases Expr.read stop 0 (t :: ts) <;> rfl
  | some r =>
    obtain ⟨name, params, rest⟩ := r
    rw [Line.parseTokens_of_head hhead, Option.isSome_some, if_pos rfl, Line.parseBinding_eq,
      readBinding_eq, Line.readHead_of_head (Line.bindingHead?_eq_some_iff.1 hhead)]
    cases Line.firstRepeated? [] (params.getD []) with
    | some p => rfl
    | none =>
      rw [Line.readLast]
      simp only [Except.bind, Except.map]
      cases Expr.read stop 0 rest <;> rfl

theorem kind_of_bindingHead? {t : Token} (h : (Line.bindingHead? (t :: ts)).isSome = true) :
    t.kind = .identifier := by
  obtain ⟨⟨name, params, rest⟩, hr⟩ := Option.isSome_iff_exists.1 h
  cases Line.bindingHead?_eq_some_iff.1 hr with
  | name hident | none hident | some hident => exact hident

theorem follows_content (hscan : Terminated tokens) {t : Token}
    (h : Faces tokens c ⟨t :: ts, stop⟩ ls) {n : Nat} (hn : 3 * (t :: ts).length + 2 ≤ n) :
    Follows tokens c stop ls ((content tokens n t).run c) (readContent stop t ts) := by
  have hlater : 3 * ts.length + 2 ≤ n := by
    rw [List.length_cons] at hn
    omega
  rw [readContent]
  by_cases hunit : t.kind = .unit
  · rw [content, hunit, if_pos rfl]
    refine (follows_advance hscan h).bind_ok fun c' hfaces => ?_
    exact (follows_expectIdentifier hscan hfaces).map fun name =>
      Line.unit name (t.span.merge name.span)
  by_cases hprint : t.kind = .print
  · rw [content, hprint, if_neg (by decide), if_pos rfl]
    refine (follows_advance hscan h).bind_ok fun c' hfaces => ?_
    exact ((readers_follow hscan stop ls).1 0 ts n c' hlater hfaces).map fun e =>
      Line.print e (t.span.merge e.span)
  have hexpr := ((readers_follow hscan stop ls).1 0 (t :: ts) n c hn h).map Line.expr
  rw [if_neg hunit, if_neg hprint]
  by_cases hident : t.kind = .identifier
  · rw [content, hident]
    simp only
    rw [run_bind_of_ok (run_bindingAhead hscan h)]
    split
    · exact (follows_binding hscan h hn).map Line.binding
    · exact hexpr
  · -- No binding begins here, so the cursor does not look ahead.
    rw [if_neg (mt kind_of_bindingHead? hident), content]
    split
    · contradiction
    · contradiction
    · contradiction
    · exact hexpr

/-- A line is read as the reader of a line reads it. -/
theorem follows_line (hscan : Terminated tokens) (h : Faces tokens c ⟨ts, stop⟩ ls) {n : Nat}
    (hn : 3 * ts.length + 2 ≤ n) :
    Follows tokens c stop ls ((line tokens n).run c)
      ((Line.parseTokens ⟨ts, stop⟩).map fun l => (l, [])) := by
  cases ts with
  | nil =>
    rw [line, run_current_stop h, if_pos h.stop_endsLine]
    exact follows_pure h Line.blank
  | cons t ts =>
    have ht : ¬ t.kind.endsLine = true := by simp [h.unbroken t List.mem_cons_self]
    rw [line, run_current_token h, if_neg ht, parseTokens_eq_readContent (stop_ne h rfl), map_bind]
    refine (follows_content hscan h hn).bind fun l rest c' _ hrest => ?_
    cases rest with
    | nil =>
      rw [run_current_stop hrest, if_pos hrest.stop_endsLine]
      exact follows_pure hrest l
    | cons u us =>
      have hu : ¬ u.kind.endsLine = true := by simp [hrest.unbroken u List.mem_cons_self]
      rw [run_current_token hrest, if_neg hu]
      exact follows_throw hrest _

end Cursor

end UnitCalc
