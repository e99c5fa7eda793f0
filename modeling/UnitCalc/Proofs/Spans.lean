import UnitCalc.Proofs.LineGrammar
import UnitCalc.Proofs.Steps
import UnitCalc.Proofs.StrayErrors

/-! Where spans come from. Every span in an expression or a line is a token's span or merged from
such; every span of an error is a span of the expression evaluated or of the body of a function; and
the bodies of functions come from lines. So a property of spans that merging keeps goes from tokens
to expressions, to states and to errors. -/

namespace UnitCalc

open Grammar

/-! ### Spans of expressions and lines -/

namespace Expr

mutual
/-- The spans of all parts of an expression. -/
def spans : Expr → List Span
  | number _ s => [s]
  | name id => [id.span]
  | call callee args s => s :: callee.span :: spansAll args
  | signed _ e s => s :: e.spans
  | binary _ l r s => s :: (l.spans ++ r.spans)
  | unitOf e s => s :: e.spans
  | paren e s => s :: e.spans

def spansAll : List Expr → List Span
  | [] => []
  | e :: es => e.spans ++ spansAll es
end

theorem span_mem_spans (e : Expr) : e.span ∈ e.spans := by
  cases e <;> exact List.mem_cons_self

end Expr

/-- All spans of an expression have a property. -/
def Expr.Within (P : Span → Prop) (e : Expr) : Prop := ∀ sp ∈ e.spans, P sp

section Properties

variable {P : Span → Prop}

theorem Expr.Within.span {e : Expr} (h : e.Within P) : P e.span := h _ e.span_mem_spans

theorem within_number {d : Decimal} {s : Span} : (Expr.number d s).Within P ↔ P s := by
  simp [Expr.Within, Expr.spans]

theorem within_name {id : Ident} : (Expr.name id).Within P ↔ P id.span := by
  simp [Expr.Within, Expr.spans]

theorem spansAll_within {es : List Expr} :
    (∀ sp ∈ Expr.spansAll es, P sp) ↔ ∀ e ∈ es, e.Within P := by
  induction es with
  | nil => exact ⟨nofun, nofun⟩
  | cons e es ih =>
    rw [List.forall_mem_cons, ← ih]
    simp [Expr.Within, Expr.spansAll, or_imp, forall_and]

theorem within_call {callee : Ident} {args : List Expr} {s : Span} :
    (Expr.call callee args s).Within P ↔ P s ∧ P callee.span ∧ ∀ a ∈ args, a.Within P := by
  rw [← spansAll_within]
  simp [Expr.Within, Expr.spans]

theorem within_signed {sign : Sign} {e : Expr} {s : Span} :
    (Expr.signed sign e s).Within P ↔ P s ∧ e.Within P := by
  simp [Expr.Within, Expr.spans]

theorem within_binary {op : Operator} {l r : Expr} {s : Span} :
    (Expr.binary op l r s).Within P ↔ P s ∧ l.Within P ∧ r.Within P := by
  simp [Expr.Within, Expr.spans, or_imp, forall_and]

theorem within_unitOf {e : Expr} {s : Span} : (Expr.unitOf e s).Within P ↔ P s ∧ e.Within P := by
  simp [Expr.Within, Expr.spans]

theorem within_paren {e : Expr} {s : Span} : (Expr.paren e s).Within P ↔ P s ∧ e.Within P := by
  simp [Expr.Within, Expr.spans]

theorem Expr.Within.part {e part : Expr} (h : e.Within P) (hpart : part ∈ e.parts) :
    part.Within P := by
  cases e with
  | number | name => cases hpart
  | call callee args span => exact (within_call.1 h).2.2 part hpart
  | signed | unitOf | paren =>
    rw [List.mem_singleton.1 hpart]
    exact fun sp hsp => h sp (List.mem_cons_of_mem _ hsp)
  | binary op l r span =>
    obtain ⟨-, hl, hr⟩ := within_binary.1 h
    rcases List.mem_cons.1 hpart with rfl | hpart
    · exact hl
    · rw [List.mem_singleton.1 hpart]
      exact hr

/-! ### From tokens to expressions -/

theorem closed_within (hmerge : ∀ a b, P a → P b → P (a.merge b)) :
    Closed (fun t => P t.span) (Expr.Within P) where
  number ht _ _ _ := within_number.2 ht
  name ht _ := within_name.2 ht
  call ht _ hclose hargs := within_call.2 ⟨hmerge _ _ ht hclose, ht, hargs⟩
  signed ht he := within_signed.2 ⟨hmerge _ _ ht he.span, he⟩
  binary hl hr := within_binary.2 ⟨hmerge _ _ hl.span hr.span, hl, hr⟩
  paren ht hclose he := within_paren.2 ⟨hmerge _ _ ht hclose, he⟩
  unitOf ht hclose he := within_unitOf.2 ⟨hmerge _ _ ht hclose, he⟩

/-! ### From tokens to lines -/

/-- All spans of a binding have a property. -/
structure Binding.Within (P : Span → Prop) (b : Binding) : Prop where
  name : P b.name.span
  params : ∀ p ∈ b.params.getD [], P p.span
  rhs : b.rhs.Within P
  span : P b.span

def Line.Within (P : Span → Prop) : Line → Prop
  | .blank => True
  | .unit name s => P name.span ∧ P s
  | .binding b => b.Within P
  | .print e s => e.Within P ∧ P s
  | .expr e => e.Within P

namespace Line

/-- A property that merging keeps goes from the tokens of a line to the line. -/
theorem parseTokens_within (hmerge : ∀ a b, P a → P b → P (a.merge b)) {l : TokenLine}
    (hstop : l.stop.kind ≠ .identifier) (hl : ∀ t ∈ l.tokens, P t.span) {line : Line}
    (h : parseTokens l = .ok line) : line.Within P := by
  have hclosed := closed_within hmerge
  cases reads_of_parseTokens h with
  | blank => trivial
  | @unit t ts htokens hkind =>
    rw [htokens] at hl
    obtain ⟨ht, hts⟩ := head_tail hl
    have hname : P (l.current ts).span := by
      cases ts with
      | nil => exact absurd hkind hstop
      | cons u ts => exact (head_tail hts).1
    exact ⟨hname, hmerge _ _ ht hname⟩
  | print htokens _ hphrase =>
    rw [htokens] at hl
    obtain ⟨ht, hts⟩ := head_tail hl
    have he := hphrase.closed hclosed hts
    exact ⟨he, hmerge _ _ ht he.span⟩
  | binding hhead hphrase =>
    obtain ⟨hname, hparams⟩ := bindingHead?_within hhead hl
    have he := hphrase.closed hclosed fun t ht => hl t ((bindingHead?_suffix hhead).subset ht)
    exact ⟨hname, hparams, he, hmerge _ _ hname he.span⟩
  | expr hphrase => exact hphrase.closed hclosed hl

/-- The error of a line points at one of its tokens, or at the token that stops it. -/
theorem parseTokens_error {l : TokenLine} (hstop : P l.stop.span) (hl : ∀ t ∈ l.tokens, P t.span)
    {err : ParseError} (h : parseTokens l = .error err) : P err.span :=
  parseTokens_blames (R := fun err => P err.span) (blamed_of_span hstop)
    (fun t ht => blamed_of_span (hl t ht)) h

end Line

end Properties

end UnitCalc
