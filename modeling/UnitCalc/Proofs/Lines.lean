import UnitCalc.Proofs.Except
import UnitCalc.Proofs.Readers
import UnitCalc.Proofs.Scan

/-! Lines of tokens. A text without newlines is one line of tokens, which the end of the input
stops; a newline stops the line before it, and what comes after it is cut into lines as if it stood
alone. The readers of lines and of single expressions are restated here with the plain readers. -/

namespace UnitCalc

namespace Token

/-- The tokens of a text that starts at byte `offset`, without comments and without the end. -/
def content (offset : Nat) (cs : List Char) : List Token :=
  (lexemes 0 offset cs).filter (·.kind ≠ .comment)

theorem content_spec {offset : Nat} {cs : List Char} {t : Token} (h : t ∈ content offset cs) :
    Stands offset cs t ∧ t.kind ≠ .endOfInput ∧ (t.kind = .newline → '\n' ∈ cs) :=
  lexemes_spec (List.mem_filter.1 h).1

theorem content_unbroken {offset : Nat} {cs : List Char} (hcs : '\n' ∉ cs) :
    ∀ t ∈ content offset cs, t.kind.endsLine = false := by
  intro t ht
  obtain ⟨-, hend, hnewline⟩ := content_spec ht
  have hkind : t.kind ≠ .newline := fun hk => hcs (hnewline hk)
  revert hend hkind
  cases t.kind <;> decide

theorem content_line (offset : Nat) (xs ys : List Char) :
    content offset (xs ++ '\n' :: ys) =
      content offset xs ++ newlineToken (offset + byteLength xs) ::
        content (offset + byteLength xs + 1) ys := by
  rw [content, lexemes_line (Nat.zero_le _), List.filter_append,
    List.filter_cons_of_pos rfl]
  rfl

end Token

namespace TokenLine

open Token

/-- Tokens that end no line belong to the group of what follows them. -/
theorem group_unbroken {ts : List Token} (hts : ∀ t ∈ ts, t.kind.endsLine = false)
    {rest : List Token} {l : TokenLine} {ls : List TokenLine} (h : group rest = l :: ls) :
    group (ts ++ rest) = ⟨ts ++ l.tokens, l.stop⟩ :: ls := by
  induction ts with
  | nil => exact h
  | cons t ts ih =>
    have ht : ¬ t.kind.endsLine = true := by simp [hts t List.mem_cons_self]
    have htail := ih fun u hu => hts u (List.mem_cons_of_mem t hu)
    rw [List.cons_append, group, if_neg ht, htail]
    rfl

/-- The first token that ends a line closes the first group. -/
theorem group_append {ts : List Token} (hts : ∀ t ∈ ts, t.kind.endsLine = false) {stop : Token}
    (hstop : stop.kind.endsLine = true) (rest : List Token) :
    group (ts ++ stop :: rest) = ⟨ts, stop⟩ :: group rest := by
  have hgroup : group (stop :: rest) = ⟨[], stop⟩ :: group rest := by rw [group, if_pos hstop]
  rw [group_unbroken hts hgroup, List.append_nil]

/-- The first line of tokens, and that all others are empty if there is nothing behind it but tokens
that end lines. -/
theorem group_concat (ts : List Token) {last : Token} (hlast : last.kind.endsLine = true) :
    ∃ us vs stop ls, ts = us ++ vs ∧ (∀ t ∈ us, t.kind.endsLine = false) ∧
      stop.kind.endsLine = true ∧ group (ts ++ [last]) = ⟨us, stop⟩ :: ls ∧
      ((∀ l ∈ ls, l.tokens = []) ↔ ∀ t ∈ vs, t.kind.endsLine = true) := by
  induction ts with
  | nil => exact ⟨[], [], last, [], rfl, nofun, hlast, by simp [group, hlast], by simp⟩
  | cons t ts ih =>
    obtain ⟨us, vs, stop, ls, rfl, hus, hstop, hgroup, hblank⟩ := ih
    rw [List.cons_append, group, hgroup]
    split
    · rename_i ht
      refine ⟨[], t :: (us ++ vs), t, _, rfl, nofun, ht, rfl, ?_⟩
      have hnone : us = [] ↔ ∀ u ∈ us, u.kind.endsLine = true := by
        refine ⟨by rintro rfl; nofun, fun hall => List.eq_nil_iff_forall_not_mem.2 fun u hu => ?_⟩
        exact Bool.false_ne_true ((hus u hu).symm.trans (hall u hu))
      rw [List.forall_mem_cons, List.forall_mem_cons, List.forall_mem_append, hblank, hnone,
        and_iff_right ht]
    · rename_i ht
      refine ⟨t :: us, vs, stop, ls, rfl, ?_, hstop, rfl, hblank⟩
      exact List.forall_mem_cons.2 ⟨Bool.eq_false_iff.2 ht, hus⟩

/-- A line holds tokens of the text that end no line, and is stopped by one that does. -/
theorem of_mem_group {ts : List Token} {l : TokenLine} (h : l ∈ group ts) :
    (∀ t ∈ l.tokens, t ∈ ts ∧ t.kind.endsLine = false) ∧
      l.stop ∈ ts ∧ l.stop.kind.endsLine = true := by
  induction ts generalizing l with
  | nil => cases h
  | cons t ts ih =>
    have hlater : ∀ {l}, l ∈ group ts → (∀ u ∈ l.tokens, u ∈ t :: ts ∧ u.kind.endsLine = false) ∧
        l.stop ∈ t :: ts ∧ l.stop.kind.endsLine = true := by
      intro l hl
      obtain ⟨htokens, hstop, hkind⟩ := ih hl
      exact ⟨fun u hu => ⟨List.mem_cons_of_mem t (htokens u hu).1, (htokens u hu).2⟩,
        List.mem_cons_of_mem t hstop, hkind⟩
    rw [group] at h
    split at h
    · rename_i ht
      rcases List.mem_cons.1 h with rfl | h
      · exact ⟨nofun, List.mem_cons_self, ht⟩
      · exact hlater h
    · rename_i ht
      cases hgroup : group ts with
      | nil =>
        rw [hgroup] at h
        cases h
      | cons first rest =>
        rw [hgroup] at h
        have hfirst := hlater (l := first) (by rw [hgroup]; exact List.mem_cons_self)
        rcases List.mem_cons.1 h with rfl | h
        · refine ⟨List.forall_mem_cons.2 ⟨⟨List.mem_cons_self, Bool.eq_false_iff.2 ht⟩, ?_⟩,
            hfirst.2⟩
          exact hfirst.1
        · exact hlater (by rw [hgroup]; exact List.mem_cons_of_mem first h)

theorem length_lt_of_group {ts : List Token} {l : TokenLine} {ls : List TokenLine}
    (h : group ts = l :: ls) : l.tokens.length < ts.length := by
  induction ts generalizing l ls with
  | nil => cases h
  | cons t ts ih =>
    rw [group] at h
    split at h
    · cases h
      exact Nat.succ_pos _
    · split at h
      · cases h
      · rename_i l' ls' hgroup
        cases h
        exact Nat.succ_lt_succ (ih hgroup)

/-- The lines of a text that starts at byte `offset`. -/
def ofText (offset : Nat) (cs : List Char) : List TokenLine :=
  group (content offset cs ++ [endToken (offset + byteLength cs)])

theorem ofSource_eq (source : String) : ofSource source = ofText 0 source.toList := by
  rw [ofSource, tokenize, scan_eq, List.filter_append, List.filter_cons_of_pos rfl]
  rfl

/-- A text without newlines is one line. -/
theorem ofText_single {cs : List Char} (hcs : '\n' ∉ cs) (offset : Nat) :
    ofText offset cs = [⟨content offset cs, endToken (offset + byteLength cs)⟩] := by
  rw [ofText, group_append (content_unbroken hcs) rfl]
  rfl

/-- A newline stops the line before it, and the text after it has its own lines. -/
theorem ofText_line {xs : List Char} (hxs : '\n' ∉ xs) (offset : Nat) (ys : List Char) :
    ofText offset (xs ++ '\n' :: ys) =
      ⟨content offset xs, newlineToken (offset + byteLength xs)⟩ ::
        ofText (offset + byteLength xs + 1) ys := by
  have hend : offset + byteLength (xs ++ '\n' :: ys) =
      offset + byteLength xs + 1 + byteLength ys := by
    rw [byteLength_append, byteLength_cons, ← Nat.add_assoc, ← Nat.add_assoc]
    rfl
  rw [ofText, content_line, hend, List.append_assoc, List.cons_append,
    group_append (content_unbroken hxs) rfl]
  rfl

theorem mem_ofSource {source : String} {l : TokenLine} (h : l ∈ ofProgram source) :
    l ∈ ofSource source := by
  rw [ofProgram] at h
  split at h
  · rename_i l' heq
    rwa [heq]
  · split at h
    · exact (List.dropLast_prefix _).subset h
    · exact h

theorem stop_ne_identifier {source : String} {l : TokenLine} (h : l ∈ ofSource source) :
    l.stop.kind ≠ .identifier := by
  obtain ⟨-, -, hstop⟩ := of_mem_group h
  intro hkind
  rw [hkind] at hstop
  cases hstop

end TokenLine

/-! ### The readers of lines -/

namespace Line

/-- An expression that reaches to the end of the line, as a part of what is read. -/
def readLast (stop : Token) (k : Expr → Line) (ts : List Token) : Except ParseError Line :=
  (Expr.read stop 0 ts).bind fun r => finish (k r.1) r.2

theorem parsePrint_eq (l : TokenLine) (start : Token) (ts : List Token) :
    parsePrint l start ts = readLast l.stop (fun e => .print e (start.span.merge e.span)) ts := by
  rw [parsePrint, readLast, Expr.read]
  rcases Expr.parse l.stop 0 ts with e | ⟨e, rest, h⟩ <;> rfl

theorem parseBinding_eq (l : TokenLine) (name : Ident) (params : Option (List Ident))
    (ts : List Token) :
    parseBinding l name params ts =
      match firstRepeated? [] (params.getD []) with
      | some p => .error ⟨.duplicateParameter p.name, p.span⟩
      | none =>
        readLast l.stop (fun e => .binding ⟨name, params, e, name.span.merge e.span⟩) ts := by
  rw [parseBinding, readLast, Expr.read]
  cases firstRepeated? [] (params.getD []) with
  | some p => rfl
  | none => rcases Expr.parse l.stop 0 ts with e | ⟨e, rest, h⟩ <;> rfl

theorem parseExpr_eq (l : TokenLine) : parseExpr l = readLast l.stop .expr l.tokens := by
  rw [parseExpr, readLast, Expr.read]
  rcases Expr.parse l.stop 0 l.tokens with e | ⟨e, rest, h⟩ <;> rfl

/-! The tokens left after the head of a binding are tokens of the line. -/

theorem bindingParams?_suffix {ts rest : List Token} {ps : List Ident}
    (h : bindingParams? ts = some (ps, rest)) : rest <:+ ts := by
  fun_induction bindingParams? ts generalizing ps rest with
  | case1 | case4 | case5 | case6 | case7 => cases h
  | case2 p c ts hp hc ih =>
    obtain ⟨⟨ps', rest'⟩, hps, heq⟩ := Option.map_eq_some_iff.1 h
    cases heq
    exact (ih hps).trans (List.suffix_append [p, c] ts)
  | case3 p c hp hc hclose e rest' he =>
    cases h
    exact List.suffix_append [p, c, e] rest'

theorem bindingHead?_suffix {ts rest : List Token} {name : Ident} {params : Option (List Ident)}
    (h : bindingHead? ts = some (name, params, rest)) : rest <:+ ts := by
  revert h
  fun_cases bindingHead? ts with
  | case1 | case4 | case6 | case7 | case8 => nofun
  | case2 n t ts =>
    intro h
    cases h
    exact List.suffix_append [n, t] rest
  | case3 n t hn ht hopen c e rest' =>
    intro h
    cases h
    exact List.suffix_append [n, t, c, e] rest
  | case5 n t hn ht hopen c e rest' hc =>
    intro h
    obtain ⟨⟨ps, rest''⟩, hps, heq⟩ := Option.map_eq_some_iff.1 h
    cases heq
    exact (bindingParams?_suffix hps).trans (List.suffix_append [n, t] _)

end Line

theorem Expr.ofLines_cons (l : TokenLine) (ls : List TokenLine) :
    Expr.ofLines (l :: ls) = (Expr.read l.stop 0 l.tokens).bind fun r =>
      if (l.current r.2).kind = .endOfInput then .ok r.1
      else .error (.unexpected (l.current r.2) (.token .endOfInput)) := by
  rw [Expr.ofLines, Expr.read]
  rcases Expr.parse l.stop 0 l.tokens with e | ⟨e, rest, hr⟩ <;> rfl

/-! ### Programs -/

theorem collect_eq_ok {α ε : Type} {rs : List (Except ε α)} {as : List α}
    (h : collect rs = .ok as) :
    ∀ a ∈ as, .ok a ∈ rs := by
  induction rs generalizing as with
  | nil =>
    cases h
    nofun
  | cons r rs ih =>
    cases r with
    | ok a =>
      obtain ⟨as', has', rfl⟩ := map_eq_ok.1 h
      exact List.forall_mem_cons.2 ⟨List.mem_cons_self,
        fun a' ha' => List.mem_cons_of_mem _ (ih has' a' ha')⟩
    | error e =>
      rw [collect] at h
      split at h <;> cases h

theorem collect_eq_error {α ε : Type} {rs : List (Except ε α)} {es : List ε}
    (h : collect rs = .error es) : ∀ e ∈ es, .error e ∈ rs := by
  induction rs generalizing es with
  | nil => cases h
  | cons r rs ih =>
    cases r with
    | ok a => exact fun e he => List.mem_cons_of_mem _ (ih (map_eq_error.1 h) e he)
    | error e =>
      rw [collect] at h
      split at h
      · cases h
        exact List.forall_mem_cons.2 ⟨List.mem_cons_self, nofun⟩
      · rename_i es' hes'
        cases h
        exact List.forall_mem_cons.2 ⟨List.mem_cons_self,
          fun e' he' => List.mem_cons_of_mem _ (ih hes' e' he')⟩

theorem parseProgram_eq_ok {source : String} {lines : List Line}
    (h : parseProgram source = .ok lines) :
    ∀ l ∈ lines, ∃ tl ∈ TokenLine.ofProgram source, Line.parseTokens tl = .ok l :=
  fun l hl => List.mem_map.1 (collect_eq_ok (mapError_eq_ok.1 h) l hl)

end UnitCalc
