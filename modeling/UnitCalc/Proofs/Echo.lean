import UnitCalc.Proofs.Exactness
import UnitCalc.Proofs.Regrouping

/-! What the echo of a printed line says. A line `print e` shows the text of `e` and its value. The
text is always an expression, but what it means is the value of the tree that is read from it: its
products may be regrouped, and its literals are other pairs for the same numbers. Where neither
happens the echo is right. Other pairs do no harm to what is calculated exactly, as long as they fit
the limits: they take more room than those of the source. -/

namespace UnitCalc

namespace Expr

/-! ### Trees that are read as they are -/

mutual
/-- Some literal is read from the text as another pair. -/
def rewrites : Expr → Bool
  | number d _ => d.reread ≠ d
  | name _ => false
  | call _ args _ => rewritesAny args
  | signed _ e _ | unitOf e _ | paren e _ => e.rewrites
  | binary _ l r _ => l.rewrites || r.rewrites

def rewritesAny : List Expr → Bool
  | [] => false
  | e :: es => e.rewrites || rewritesAny es
end

mutual
theorem echoed_eq (e : Expr) (hgroups : e.regroups = false) (hliterals : e.rewrites = false) :
    e.echoed = e := by
  match e with
  | number d s =>
    have hd : d.reread = d := by simpa [rewrites] using hliterals
    rw [echoed, hd]
  | name id => rfl
  | call callee args s => rw [echoed, echoedAll_eq args hgroups hliterals]
  | signed sign e s => rw [echoed, echoed_eq e hgroups hliterals]
  | binary op l r s =>
    simp only [regroups, rewrites, Bool.or_eq_false_iff] at hgroups hliterals
    rw [echoed, echoed_eq l hgroups.1.2 hliterals.1, echoed_eq r hgroups.2 hliterals.2]
    split
    · rename_i hop
      have hmul : r.isMul = false := by simpa [hop] using hgroups.1.1
      rw [attach_eq hmul]
    · rfl
  | unitOf e s => rw [echoed, echoed_eq e hgroups hliterals]
  | paren e s => rw [echoed, echoed_eq e hgroups hliterals]

theorem echoedAll_eq (es : List Expr) (hgroups : regroupsAny es = false)
    (hliterals : rewritesAny es = false) : echoedAll es = es := by
  match es with
  | [] => rfl
  | e :: es =>
    simp only [regroupsAny, rewritesAny, Bool.or_eq_false_iff] at hgroups hliterals
    rw [echoedAll, echoed_eq e hgroups.1 hliterals.1, echoedAll_eq es hgroups.2 hliterals.2]
end

/-! ### Shapes of exact expressions -/

theorem shapes_eq_map (es : List Expr) : shapes es = es.map shape := by
  induction es with
  | nil => rfl
  | cons e es ih => rw [shapes_cons, ih, List.map_cons]

theorem shape_forget (e : Expr) : (e.relocate Span.forget).shape = e.shape := by
  rw [shape, relocate_relocate]
  rfl

/-- Whether an expression is exact is a matter of its shape. -/
theorem Exact.of_shape {e e' : Expr} (he : e.Exact) (h : e'.shape = e.shape) : e'.Exact := by
  induction he generalizing e' with
  | number n span =>
    cases e' with
    | number n' s => exact .number n' s
    | _ => cases h
  | name id =>
    cases e' with
    | name id' => exact .name id'
    | _ => cases h
  | @call callee args span hargs ih =>
    cases e' with
    | call callee' args' s =>
      have hshapes : shapes args' = shapes args := (Ideal.Expr.call.inj h).2.1
      refine .call callee' s fun a' ha' => ?_
      have hmem : a'.shape ∈ args.map shape := by
        rw [← shapes_eq_map, ← hshapes, shapes_eq_map]
        exact List.mem_map_of_mem ha'
      obtain ⟨a, ha, haa'⟩ := List.mem_map.1 hmem
      exact ih a ha haa'.symm
    | _ => cases h
  | signed sign span he ih =>
    cases e' with
    | signed sign' e₂ s => exact .signed sign' s (ih (Ideal.Expr.signed.inj h).2.1)
    | _ => cases h
  | @power base n literal span hbase hn ih =>
    cases e' with
    | binary op l r s =>
      obtain ⟨rfl, hl, hr, -⟩ := Ideal.Expr.binary.inj h
      cases r with
      | number n' s' =>
        have hrat : n'.toRat = n.toRat := (Ideal.Expr.number.inj hr).1
        exact .power s' s (ih hl) (hrat ▸ hn)
      | _ => cases hr
    | _ => cases h
  | binary span hdiv hpow hl hr ihl ihr =>
    cases e' with
    | binary op l r s =>
      obtain ⟨rfl, hl, hr, -⟩ := Ideal.Expr.binary.inj h
      exact .binary s hdiv hpow (ihl hl) (ihr hr)
    | _ => cases h
  | unitOf span he ih =>
    cases e' with
    | unitOf e₂ s => exact .unitOf s (ih (Ideal.Expr.unitOf.inj h).1)
    | _ => cases h
  | paren span he ih =>
    cases e' with
    | paren e₂ s => exact .paren s (ih (Ideal.Expr.paren.inj h).1)
    | _ => cases h

end Expr

namespace State

/-! ### Evaluation -/

/-- Expressions that are equal up to spans have the same value, if any. -/
theorem eval_of_forget {e e' : Expr} (h : e'.relocate Span.forget = e.relocate Span.forget)
    (s : State) (v : Value) : s.eval e' = .ok v ↔ s.eval e = .ok v := by
  have hmoved : ∀ x : Except EvalError Value, movedValue Span.forget x = .ok v ↔ x = .ok v := by
    intro x
    cases x with
    | ok w => exact Iff.rfl
    | error err => exact iff_of_false nofun nofun
  rw [← hmoved, ← eval_relocate, h, eval_relocate, hmoved]

theorem Exact.forget {s : State} (hs : s.Exact) : (s.relocate Span.forget).Exact := by
  intro name g hg
  rw [relocate_functions, Table.find?_map] at hg
  obtain ⟨g', hg', rfl⟩ := Option.map_eq_some_iff.1 hg
  exact (hs name g' hg').of_shape g'.body.shape_forget

/-- In a state whose functions are exact, an exact expression and one of the same shape have values
that are the same, unless a limit stops the other. -/
theorem eval_of_shape {s : State} (hs : s.Exact) {e e' : Expr} (he : e.Exact)
    (h : e'.shape = e.shape) {v : Value} (hv : s.eval e = .ok v) :
    (∃ w, s.eval e' = .ok w ∧ v.same w = true) ∨
      ∃ err, s.eval e' = .error err ∧ err.fault.isLimit = true := by
  -- Without spans the two expressions have one and the same counterpart.
  have hmoved := eval_relocate (f := Span.forget) s e
  have hmoved' := eval_relocate (f := Span.forget) s e'
  have hideal := eval_agrees hs.forget (he.of_shape e.shape_forget)
  have hideal' := eval_agrees hs.forget (he.of_shape (e'.shape_forget.trans h))
  have hcounterpart : (e'.relocate Span.forget).ideal = (e.relocate Span.forget).ideal := h
  rw [hv] at hmoved
  rw [hcounterpart, hideal.value hmoved] at hideal'
  cases hv' : s.eval e' with
  | ok w =>
    rw [hv'] at hmoved'
    have hsame := Except.ok.inj (hideal'.value hmoved')
    exact .inl ⟨w, rfl, (v.same_iff_ideal_eq w).2 hsame⟩
  | error err =>
    rw [hv'] at hmoved'
    cases hlimit : err.fault.isLimit with
    | true => exact .inr ⟨err, rfl, hlimit⟩
    | false =>
      obtain ⟨_, -, hok⟩ := hideal'.fault hmoved' hlimit
      cases hok

end State

/-! ### Lines -/

/-- The text of the expression that a line prints is read as its echo. -/
theorem Line.ofString_print {source : String} {e : Expr} {span : Span}
    (h : Line.ofString source = .ok (.print e span)) :
    ∃ e', Expr.ofString e.text = .ok e' ∧
      e'.relocate Span.forget = e.echoed.relocate Span.forget := by
  have h := mapError_eq_ok.1 h
  cases hsource : TokenLine.ofSource source with
  | nil =>
    rw [hsource] at h
    cases h
  | cons l ls =>
    rw [hsource] at h
    obtain ⟨line, hparse, h⟩ := bind_eq_ok.1 h
    have hprint : line = .print e span := by
      split at h
      · exact Except.ok.inj h
      · cases h
    have hmem : l ∈ TokenLine.ofText 0 source.toList := by
      rw [← TokenLine.ofSource_eq, hsource]
      exact List.mem_cons_self
    obtain ⟨before, xs, -, -, -, hcontent, -⟩ := TokenLine.exists_content hmem
    subst hprint
    cases Line.reads_of_parseTokens hparse with
    | @print t ts _ htokens ht he =>
      have hcontent : Token.content (0 + byteLength before) xs = [t] ++ ts :=
        hcontent.symm.trans htokens
      exact Expr.ofString_text hcontent (by simp [ht]) he

namespace State

/-- The text that a line prints is an expression, and its value in the same state is that of its
echo. If nothing regroups and no literal is rewritten, this is the value that was printed; if
nothing regroups and the calculation is exact, it is the same value unless a limit stops it. -/
theorem print_echo (s : State) {source : String} {e : Expr} {span : Span}
    (hline : Line.ofString source = .ok (.print e span)) {s' : State} {v : Value}
    (hrun : s.runLine (.print e span) = .ok (s', .printed e v)) :
    ∃ e', Expr.ofString e.text = .ok e' ∧
      (∀ w, s.eval e' = .ok w ↔ s.eval e.echoed = .ok w) ∧
      (e.regroups = false → e.rewrites = false → s.eval e' = .ok v) ∧
      (e.regroups = false → s.Exact → e.Exact →
        (∃ w, s.eval e' = .ok w ∧ v.same w = true) ∨
          ∃ err, s.eval e' = .error err ∧ err.fault.isLimit = true) := by
  obtain ⟨e', he', hforget⟩ := Line.ofString_print hline
  have hv : s.eval e = .ok v := by
    obtain ⟨w, hw, h⟩ := bind_eq_ok.1 hrun
    cases h
    exact hw
  refine ⟨e', he', fun w => eval_of_forget hforget s w, fun hgroups hliterals => ?_,
    fun hgroups hs hexact => ?_⟩
  · rw [e.echoed_eq hgroups hliterals] at hforget
    exact (eval_of_forget hforget s v).2 hv
  · have hshape : e'.shape = e.shape := by
      rw [← e.shape_echoed_iff.2 hgroups, Expr.shape, hforget]
      rfl
    exact eval_of_shape hs hexact hshape hv

/-- The expression of the line `print 6 / 2 3`. -/
def printedQuotient : Expr := .quotientByProduct ⟨6, 7⟩ ⟨10, 11⟩ ⟨12, 13⟩

theorem ofString_printedQuotient :
    Line.ofString "print 6 / 2 3" = .ok (.print printedQuotient ⟨0, 13⟩) := by
  rw [Line.ofString_eq (by decide)]
  exact Line.parseTokens_print (t := ⟨.print, "print", ⟨0, 5⟩⟩) rfl
    (Expr.derives_quotientByProduct ⟨6, 7⟩ ⟨8, 9⟩ ⟨10, 11⟩ ⟨12, 13⟩)

/-- A quotient of fifty digits: six by six is printed. -/
theorem runLine_printedQuotient :
    (initial 50).runLine (.print printedQuotient ⟨0, 13⟩) =
      .ok (initial 50, .printed printedQuotient ⟨.number ⟨10 ^ 49, 49⟩, .one⟩) := by
  decide +kernel

/-- The echo is three times the quotient of six by two. -/
theorem eval_echoed_printedQuotient :
    (initial 50).eval printedQuotient.echoed = .ok ⟨.number ⟨9 * 10 ^ 49, 49⟩, .one⟩ := by
  decide +kernel

/-- The text that `print 6 / 2 3` shows beside a one is an expression with the value nine. -/
theorem print_echo_quotient :
    printedQuotient.text = "6 / 2 * 3" ∧
      ∃ e', Expr.ofString printedQuotient.text = .ok e' ∧
        (initial 50).eval e' = .ok ⟨.number ⟨9 * 10 ^ 49, 49⟩, .one⟩ := by
  obtain ⟨e', he', hvalue, -⟩ := print_echo (initial 50) ofString_printedQuotient
    runLine_printedQuotient
  exact ⟨by decide +kernel, e', he', (hvalue _).2 eval_echoed_printedQuotient⟩

/-- Not every echo means what was printed. -/
theorem not_print_echo :
    ¬ ∀ (s s' : State) source e span v, Line.ofString source = .ok (.print e span) →
      s.runLine (.print e span) = .ok (s', .printed e v) →
        ∃ e' w, Expr.ofString e.text = .ok e' ∧ s.eval e' = .ok w ∧ v.same w = true := by
  intro h
  obtain ⟨e', w, he', hw, hsame⟩ :=
    h _ _ _ _ _ _ ofString_printedQuotient runLine_printedQuotient
  obtain ⟨e'', he'', hforget⟩ := Line.ofString_print ofString_printedQuotient
  cases he'.symm.trans he''
  have hnine := (eval_of_forget hforget _ w).1 hw
  rw [eval_echoed_printedQuotient] at hnine
  cases hnine
  exact absurd hsame (by decide +kernel)

end State

end UnitCalc
