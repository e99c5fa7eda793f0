import UnitCalc.Proofs.LineGrammar
import UnitCalc.Proofs.Regrouping

/-! A binding read as an expression. The tokens of a binding are an expression too, the comparison
of the left side with what is on the right. A binding takes all of its right side as one operand,
while comparisons in an expression group to the left; so the expression is the equation that the
binding stands for if the right side is no comparison itself, and otherwise it has the equals sign
inside its left operand. -/

namespace UnitCalc

namespace Expr

/-- The expression is a comparison of two others. -/
def isComparison : Expr → Bool
  | .binary op _ _ _ => op.isComparison
  | _ => false

@[simp] theorem isComparison_relocate (f : Span → Span) (e : Expr) :
    (e.relocate f).isComparison = e.isComparison := by
  cases e <;> rfl

@[simp] theorem isComparison_combine (op : Operator) (lhs rhs : Expr) :
    (combine op lhs rhs).isComparison = op.isComparison := rfl

end Expr

namespace Grammar

open UnitCalc.Expr

theorem Level.isComparison_of_operator? {l : Level} {k : Token.Kind} {op : Operator}
    (h : l.operator? k = some op) : op.isComparison = decide (l = .comparison) := by
  cases l <;> cases k <;> cases h <;> rfl

/-- Only phrases of the loosest level are comparisons. -/
theorem Derives.isComparison_eq_false {l : Level} {ts rest : List Token} {e : Expr}
    (h : Derives l ts e rest) (hl : l ≠ .comparison) : e.isComparison = false := by
  match h with
  | .tighter hl' h =>
    refine h.isComparison_eq_false ?_
    rintro rfl
    cases l <;> cases hl'
  | .binary _ _ hop _ =>
    rw [isComparison_combine, Level.isComparison_of_operator? hop, decide_eq_false hl]
  | .juxtapose _ _ | .sign _ _ | .raise _ _ _ | .number _ _ _ | .name _ _ | .call _ _ _ _
  | .paren _ _ _ | .bracket _ _ _ => rfl

/-- What the expression is that has `lhs`, an equals sign and the tokens of `rhs`: the comparison of
the two, or one whose left operand holds the equals sign. -/
def Equated (lhs rhs e : Expr) : Prop :=
  (rhs.isComparison = false ∧ e = combine .eq lhs rhs) ∨
    (rhs.isComparison = true ∧ ∃ op a r, e = combine op a r ∧ a.isComparison = true)

/-- An equals sign behind an operand goes on with the first operand of the phrase behind it. -/
theorem Derives.equated {l : Level} {ts mid rest : List Token} {equal : Token} {lhs rhs : Expr}
    (hlhs : Derives .primary ts lhs (equal :: mid)) (hequal : equal.kind = .equal)
    (h : Derives l mid rhs rest) (hl : l = .comparison) :
    ∃ e, Derives .comparison ts e rest ∧ e.isComparison = true ∧ Equated lhs rhs e := by
  match h with
  | .tighter hl' hrhs =>
    subst hl
    cases hl'
    have hop : Level.comparison.operator? equal.kind = some .eq := by
      rw [hequal]
      rfl
    refine ⟨combine .eq lhs rhs, .binary rfl (hlhs.loosen (by decide)) hop hrhs, rfl, .inl ?_⟩
    exact ⟨hrhs.isComparison_eq_false (by decide), rfl⟩
  | .binary hl' hfirst hop hrhs =>
    -- the operator after the first operand applies to all that stands before it
    obtain ⟨a, ha, hcomparison, -⟩ := hlhs.equated hequal hfirst hl
    subst hl
    have hop' := Level.isComparison_of_operator? hop
    exact ⟨_, .binary hl' ha hop hrhs, hop', .inr ⟨hop', _, _, _, rfl, hcomparison⟩⟩
  | .juxtapose _ _ | .sign _ _ | .raise _ _ _ | .number _ _ _ | .name _ _ | .call _ _ _ _
  | .paren _ _ _ | .bracket _ _ _ => cases hl

/-- The head of a binding is an operand before the equals sign: the left side of the equation. -/
theorem Head.lhs {ts rest : List Token} {b : Binding} (h : Head ts b.name b.params rest) :
    ∃ lhs equal, Derives .primary ts lhs (equal :: rest) ∧ equal.kind = .equal ∧
      lhs.relocate Span.forget = b.lhs.relocate Span.forget := by
  obtain ⟨name, params, rhs, span⟩ := b
  cases h with
  | name hn hequal => exact ⟨_, _, derives_name hn (by rw [hequal]; decide) rest, hequal, rfl⟩
  | none hn hopening hadj hclose hequal =>
    exact ⟨_, _, .call hn hopening hadj (.done hclose), hequal, rfl⟩
  | some hn hopening hadj hps hequal =>
    obtain ⟨close, hargs⟩ := hps.arguments
    exact ⟨_, _, .call hn hopening hadj hargs, hequal, rfl⟩

end Grammar

open Grammar

theorem Binding.isComparison_lhs (b : Binding) : b.lhs.isComparison = false := by
  rw [Binding.lhs]
  cases b.params <;> rfl

/-- The tokens of a binding are its equation if the right side is no comparison. -/
theorem Grammar.Equated.forget_eq_iff {lhs e : Expr} {b : Binding} (h : Equated lhs b.rhs e)
    (hlhs : lhs.relocate Span.forget = b.lhs.relocate Span.forget) :
    e.relocate Span.forget = (Expr.combine .eq b.lhs b.rhs).relocate Span.forget ↔
      b.rhs.isComparison = false := by
  rcases h with ⟨hrhs, rfl⟩ | ⟨hrhs, op, a, r, rfl, ha⟩
  · rw [forget_combine, forget_combine, hlhs]
    exact iff_of_true rfl hrhs
  · refine iff_of_false (fun heq => ?_) (by simp [hrhs])
    rw [forget_combine, forget_combine] at heq
    injection heq with _ heq
    have hsame := congrArg Expr.isComparison heq
    rw [Expr.isComparison_relocate, Expr.isComparison_relocate, ha, b.isComparison_lhs] at hsame
    cases hsame

/-- A source that is read as a binding is an expression as well, and up to spans it is the equation
that the binding stands for if and only if the right side is no comparison. -/
theorem Line.ofString_binding_asEquation {source : String} {b : Binding}
    (hline : '\n' ∉ source.toList) (h : Line.ofString source = .ok (.binding b)) :
    ∃ e equation, Expr.ofString source = .ok e ∧ b.asEquation = .eval equation ∧
      (e.relocate Span.forget = equation.relocate Span.forget ↔ b.rhs.isComparison = false) := by
  rw [Line.ofString_eq hline, Line.parseTokens_eq_ok_iff (by nofun)] at h
  obtain ⟨us, hhead, -, hrhs, -⟩ := derivesLine_binding.1 h
  obtain ⟨lhs, equal, hphrase, hequal, hlhs⟩ := hhead.lhs
  obtain ⟨e, he, -, hequated⟩ := hphrase.equated hequal hrhs rfl
  exact ⟨e, _, ofString_eq_ok_iff.2 he, rfl, hequated.forget_eq_iff hlhs⟩

/-- What the line `x = a < b` says: as an expression it is `(x = a) < b`. -/
def Binding.testing : Binding :=
  ⟨⟨"x", ⟨0, 1⟩⟩, none, .combine .lt (.name ⟨"a", ⟨4, 5⟩⟩) (.name ⟨"b", ⟨8, 9⟩⟩), ⟨0, 9⟩⟩

theorem Line.ofString_testing : Line.ofString "x = a < b" = .ok (.binding .testing) := by
  let right : List Token := [⟨.identifier, "a", ⟨4, 5⟩⟩, ⟨.less, "<", ⟨6, 7⟩⟩,
    ⟨.identifier, "b", ⟨8, 9⟩⟩]
  have ha : Derives .comparison right (.name ⟨"a", ⟨4, 5⟩⟩) right.tail :=
    (derives_name rfl (by decide) _).loosen (by decide)
  have hb : Derives .sum [⟨.identifier, "b", ⟨8, 9⟩⟩] (.name ⟨"b", ⟨8, 9⟩⟩) [] :=
    Derives.loosen (.name rfl (by rintro ⟨u, us, ⟨⟩, -⟩)) (by decide)
  have hhead : Head (⟨.identifier, "x", ⟨0, 1⟩⟩ :: ⟨.equal, "=", ⟨2, 3⟩⟩ :: right)
      ⟨"x", ⟨0, 1⟩⟩ none right := .name rfl rfl
  have hline : DerivesLine (⟨.identifier, "x", ⟨0, 1⟩⟩ :: ⟨.equal, "=", ⟨2, 3⟩⟩ :: right)
      (.binding .testing) := .binding hhead .nil (.binary rfl ha rfl hb)
  rw [Line.ofString_eq (by decide)]
  exact Line.parseTokens_of_derives hline _

theorem Line.ofString_binding_asEquation_testing :
    '\n' ∉ "x = a < b".toList ∧ Line.ofString "x = a < b" = .ok (.binding .testing) ∧
      ∃ e equation, Expr.ofString "x = a < b" = .ok e ∧
        Binding.testing.asEquation = .eval equation ∧
        e.relocate Span.forget ≠ equation.relocate Span.forget := by
  have hline : '\n' ∉ "x = a < b".toList := by decide
  obtain ⟨e, equation, he, hequation, hsame⟩ :=
    Line.ofString_binding_asEquation hline Line.ofString_testing
  exact ⟨hline, Line.ofString_testing, e, equation, he, hequation, fun h => nomatch hsame.1 h⟩

end UnitCalc
