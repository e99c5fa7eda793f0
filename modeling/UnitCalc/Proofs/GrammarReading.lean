import UnitCalc.Proofs.Except
import UnitCalc.Proofs.Grammar

/-! The readers of expressions accept exactly the phrases of the grammar, with exactly their trees.
That every phrase is read goes by recursion on its derivation; that whatever is read is a phrase
goes along the readers, where the invariant of the loop over operators is that the operand read so
far is a phrase which the next token cannot extend from within. -/

namespace UnitCalc.Grammar

open UnitCalc.Expr

/-! ### Every phrase is read -/

/-- A reader stops before tokens that bind no tighter than its bound. -/
theorem readOperations_stop {stop : Token} {min : Nat} {ts : List Token} (h : pull ts ≤ min)
    (e : Expr) : readOperations stop min e ts = .ok (e, ts) := by
  cases ts with
  | nil => exact readOperations_nil stop min e
  | cons t ts =>
    rw [pull_cons, tightness] at h
    cases hop : Operator.ofKind? t.kind with
    | some op =>
      rw [hop] at h
      rw [readOperations_operator hop, if_pos h]
    | none =>
      rw [hop] at h
      rw [readOperations_operand hop, if_neg]
      rintro ⟨hstart, hmin⟩
      simp only [hstart, if_true] at h
      omega

theorem pull_close {t : Token} (h : t.kind = .closeParen ∨ t.kind = .closeBracket ∨ t.kind = .comma)
    (ts : List Token) : pull (t :: ts) ≤ 0 := by
  rcases h with h | h | h <;> rw [pull_cons, h] <;> decide

mutual
/-- Reading a phrase comes down to going on after it, unless the phrase itself could go on. -/
theorem Derives.read {l : Level} {ts rest : List Token} {e : Expr} (h : Derives l ts e rest)
    (stop : Token) (hrest : pull rest ≤ l.follow) (min : Nat) (hmin : min < l.precedence) :
    Expr.read stop min ts = readOperations stop min e rest := by
  match h with
  | .tighter hl h =>
    exact h.read stop (Nat.le_trans hrest (Level.follow_le_of_tighter hl)) min
      (Nat.lt_of_lt_of_le hmin (Level.precedence_le_of_tighter hl))
  | .binary hl hlhs hop hrhs =>
    obtain ⟨hkind, hprec, hfollow, hright, htight⟩ := Level.operator?_spec hl hop
    have hl₁ := hlhs.read stop (by rw [pull_cons, tightness_operator hkind]; omega) min hmin
    have hr₁ := (hrhs.read stop (Nat.le_trans hrest (Level.follow_le_of_tighter hl)) _ htight).trans
      (readOperations_stop (by omega) _)
    rw [hl₁, readOperations_operator hkind, if_neg (by omega), hright, hr₁]
    rfl
  | @Derives.juxtapose _ mid _ _ _ hlhs hrhs =>
    obtain ⟨t, us, hmid, hstart⟩ := hrhs.head_of_power
    have hpull : pull mid = 4 := by rw [hmid, pull_cons, tightness_of_startsOperand hstart]
    have hl₁ := hlhs.read stop (Nat.le_of_eq hpull) min hmin
    have hr₁ := (hrhs.read stop (Nat.le_trans hrest (by decide)) Operator.juxtaposition
      (by decide)).trans (readOperations_stop hrest _)
    rw [hmid] at hl₁ hr₁
    rw [hl₁, readOperations_operand (ofKind?_of_startsOperand hstart), if_pos ⟨hstart, hmin⟩, hr₁]
    rfl
  | .sign ht h =>
    have h₁ := (h.read stop hrest Operator.signPrecedence (by decide)).trans
      (readOperations_stop hrest _)
    rw [Expr.read_eq, readOperand_sign ht, h₁]
    rfl
  | @Derives.raise t _ _ _ _ _ hbase ht hexponent =>
    have hkind : Operator.ofKind? t.kind = some .pow := by rw [ht]; rfl
    have hb := hbase.read stop (pull_le _) min (Nat.lt_trans hmin (by decide))
    have hx := (hexponent.read stop hrest Operator.pow.rightPrecedence (by decide)).trans
      (readOperations_stop hrest _)
    rw [hb, readOperations_operator hkind, if_neg, hx]
    · rfl
    · exact Nat.not_le.2 hmin
  | .number ht hd hlimit =>
    rw [literalValue?] at hd
    rw [Expr.read_eq, readOperand_literal ht, literal, hd]
    simp only [hlimit, if_true]
    rfl
  | .name ht hname =>
    rw [Expr.read_eq, readOperand_name ht hname]
    rfl
  | .call ht hu hadj hargs =>
    rw [Expr.read_eq, readOperand_call ht hu hadj, hargs.read stop]
    rfl
  | .paren ht h hclose =>
    have hpull := pull_close (.inl hclose) rest
    have h₁ := (h.read stop (Nat.le_trans hpull (by decide)) 0 (by decide)).trans
      (readOperations_stop hpull _)
    rw [Expr.read_eq, readOperand_enclosed (encloses_paren ht), h₁]
    simp only [Except.bind, readClosing_cons, if_pos hclose]
    rfl
  | .bracket ht h hclose =>
    have hpull := pull_close (.inr (.inl hclose)) rest
    have h₁ := (h.read stop (Nat.le_trans hpull (by decide)) 0 (by decide)).trans
      (readOperations_stop hpull _)
    rw [Expr.read_eq, readOperand_enclosed (encloses_bracket ht), h₁]
    simp only [Except.bind, readClosing_cons, if_pos hclose]
    rfl

theorem Arguments.read {ts rest : List Token} {es : List Expr} {close : Token}
    (h : Arguments ts es close rest) (stop : Token) :
    readArguments stop ts = .ok (es, close, rest) := by
  match h with
  | .done hclose => exact readArguments_close hclose stop _
  | .last h hclose =>
    have hpull := pull_close (.inl hclose) rest
    have h₁ := (h.read stop (Nat.le_trans hpull (by decide)) 0 (by decide)).trans
      (readOperations_stop hpull _)
    obtain ⟨t, ts, rfl, ht⟩ := h.head_ne_close
    rw [readArguments_cons ht, h₁]
    simp only [Except.bind, readMore, hclose, reduceCtorEq, if_false, if_true]
  | @Arguments.more _ us _ _ _ _ _ h hcomma hmore =>
    have hpull := pull_close (.inr (.inr hcomma)) us
    have h₁ := (h.read stop (Nat.le_trans hpull (by decide)) 0 (by decide)).trans
      (readOperations_stop hpull _)
    obtain ⟨t, ts, rfl, ht⟩ := h.head_ne_close
    rw [readArguments_cons ht, h₁]
    simp only [Except.bind, readMore, hcomma, if_true, hmore.read stop]
    rfl
end

/-! ### Whatever is read is a phrase -/

/-- A reader leaves tokens that bind no tighter than its bound. -/
def ReadSound (stop : Token) (min : Nat) (ts : List Token) : Prop :=
  min ≤ 5 → ∀ e rest, Expr.read stop min ts = .ok (e, rest) →
    Derives (.above min) ts e rest ∧ pull rest ≤ min

/-- Going on after a phrase `lhs` that starts at `before` gives a phrase that starts there. -/
def OperationsSound (stop : Token) (min : Nat) (lhs : Expr) (ts : List Token) : Prop :=
  min ≤ 5 → ∀ e rest, readOperations stop min lhs ts = .ok (e, rest) →
    ∀ l before, Derives l before lhs ts → pull ts ≤ l.follow → min < l.precedence →
      Derives (.above min) before e rest ∧ pull rest ≤ min

def OperandSound (stop : Token) (ts : List Token) : Prop :=
  ∀ e rest, readOperand stop ts = .ok (e, rest) →
    ∃ l : Level, Derives l ts e rest ∧ pull rest ≤ l.follow ∧ 5 < l.precedence

def ArgumentsSound (stop : Token) (ts : List Token) : Prop :=
  ∀ es close rest, readArguments stop ts = .ok (es, close, rest) → Arguments ts es close rest

theorem operations_sound_of_stop {stop : Token} {min : Nat} {lhs e : Expr} {ts rest : List Token}
    (hpull : pull ts ≤ min) (h : readOperations stop min lhs ts = .ok (e, rest)) {l : Level}
    {before : List Token} (hlhs : Derives l before lhs ts) (hmin : min < l.precedence) :
    Derives (.above min) before e rest ∧ pull rest ≤ min := by
  rw [readOperations_stop hpull] at h
  cases h
  exact ⟨hlhs.loosen (Level.rank_above_le hmin), hpull⟩

theorem operations_sound_operator {stop t : Token} {min : Nat} {lhs : Expr} {ts : List Token}
    {op : Operator} (hop : Operator.ofKind? t.kind = some op)
    (hread : ¬ op.precedence ≤ min → ReadSound stop op.rightPrecedence ts)
    (hgo : ∀ rhs rest, ¬ op.precedence ≤ min →
      Expr.read stop op.rightPrecedence ts = .ok (rhs, rest) →
      OperationsSound stop min (combine op lhs rhs) rest) :
    OperationsSound stop min lhs (t :: ts) := by
  intro hmin e rest h l before hlhs hpull hl
  by_cases hle : op.precedence ≤ min
  · exact operations_sound_of_stop (by rwa [pull_cons, tightness_operator hop]) h hlhs hl
  · rw [readOperations_operator hop, if_neg hle, bind_eq_ok] at h
    obtain ⟨⟨rhs, mid⟩, hr, h⟩ := h
    rw [pull_cons, tightness_operator hop] at hpull
    rcases Level.operator?_above hop with ⟨hcaret, rfl⟩ | ⟨hlevel, htighter, hprec⟩
    · -- `^`: only a primary can stand before it, and the exponent reaches as far as it can.
      obtain ⟨hrhs, hmid⟩ := hread hle (Nat.le_refl 5) rhs mid hr
      have hbase : Derives .primary before lhs (t :: ts) := by
        refine hlhs.loosen ?_
        revert hpull
        cases l <;> decide
      exact hgo rhs mid hle hr hmin e rest h .power before (.raise hbase hcaret hrhs) hmid
        (Nat.lt_of_not_le hle)
    · obtain ⟨-, hp, hf, hright, -⟩ := Level.operator?_spec htighter hlevel
      rw [hright] at hr
      obtain ⟨hrhs, hmid⟩ := (hright ▸ hread hle) (by omega) rhs mid hr
      have hleft := hlhs.loosen (Level.rank_above_le_of_follow hpull (by omega))
      exact hgo rhs mid hle (hright ▸ hr) hmin e rest h _ before
        (.binary htighter hleft hlevel hrhs) (by omega) (by omega)

theorem operations_sound_operand {stop t : Token} {min : Nat} {lhs : Expr} {ts : List Token}
    (hop : Operator.ofKind? t.kind = none)
    (hread : t.kind.startsOperand ∧ min < Operator.juxtaposition →
      ReadSound stop Operator.juxtaposition (t :: ts))
    (hgo : ∀ rhs rest, t.kind.startsOperand ∧ min < Operator.juxtaposition →
      Expr.read stop Operator.juxtaposition (t :: ts) = .ok (rhs, rest) →
      OperationsSound stop min (combine .mul lhs rhs) rest) :
    OperationsSound stop min lhs (t :: ts) := by
  intro hmin e rest h l before hlhs hpull hl
  by_cases hj : t.kind.startsOperand ∧ min < Operator.juxtaposition
  · rw [readOperations_operand hop, if_pos hj, bind_eq_ok] at h
    obtain ⟨⟨rhs, mid⟩, hr, h⟩ := h
    rw [pull_cons, tightness_of_startsOperand hj.1] at hpull
    obtain ⟨hrhs, hmid⟩ := hread hj (by decide) rhs mid hr
    have hleft := hlhs.loosen (Level.rank_above_le_of_follow hpull (Nat.le_refl 4))
    exact hgo rhs mid hj hr hmin e rest h .juxtaposition before
      (.juxtapose hleft (hrhs.power_of_startsOperand hj.1)) hmid hj.2
  · refine operations_sound_of_stop ?_ h hlhs hl
    rw [pull_cons, tightness, hop]
    simp only
    split
    · rename_i hstart
      exact Nat.le_of_not_lt fun hlt => hj ⟨hstart, hlt⟩
    · exact Nat.zero_le _

theorem operand_sound_sign {stop t : Token} {ts : List Token} {sign : Sign}
    (hsign : Sign.ofKind? t.kind = some sign) (hread : ReadSound stop Operator.signPrecedence ts) :
    OperandSound stop (t :: ts) := by
  intro e rest h
  rw [readOperand_sign hsign, map_eq_ok] at h
  obtain ⟨⟨e', rest'⟩, hr, heq⟩ := h
  cases heq
  obtain ⟨h', hpull⟩ := hread (by decide) e' rest' hr
  exact ⟨.signed, .sign hsign h', hpull, by decide⟩

theorem operand_sound_literal {stop t : Token} {ts : List Token}
    (ht : t.kind = .integer ∨ t.kind = .float) : OperandSound stop (t :: ts) := by
  intro e rest h
  rw [readOperand_literal ht, map_eq_ok] at h
  obtain ⟨e', hliteral, heq⟩ := h
  cases heq
  rw [literal] at hliteral
  split at hliteral
  · cases hliteral
  · rename_i d hd
    split at hliteral
    · rename_i hlimit
      cases hliteral
      exact ⟨.primary, .number ht hd hlimit, pull_le _, by decide⟩
    · cases hliteral

theorem operand_sound_call {stop t u : Token} {us : List Token} (ht : t.kind = .identifier)
    (hu : u.kind = .openParen) (hadj : u.span.start = t.span.stop)
    (hargs : ArgumentsSound stop us) : OperandSound stop (t :: u :: us) := by
  intro e rest h
  rw [readOperand_call ht hu hadj, map_eq_ok] at h
  obtain ⟨⟨args, close, rest'⟩, ha, heq⟩ := h
  cases heq
  exact ⟨.primary, .call ht hu hadj (hargs args close rest' ha), pull_le _, by decide⟩

theorem eq_of_readClosing {kind : Token.Kind} {stop close : Token} {ts rest : List Token}
    (h : readClosing kind stop ts = .ok (close, rest)) :
    ts = close :: rest ∧ close.kind = kind := by
  cases ts with
  | nil => cases h
  | cons t ts =>
    rw [readClosing_cons] at h
    split at h
    · rename_i hkind
      cases h
      exact ⟨rfl, hkind⟩
    · cases h

theorem operand_sound_enclosed {stop t : Token} {ts : List Token} {kind : Token.Kind}
    {make : Expr → Span → Expr} (ht : Encloses t.kind kind make) (hread : ReadSound stop 0 ts) :
    OperandSound stop (t :: ts) := by
  intro e rest h
  rw [readOperand_enclosed ht, bind_eq_ok] at h
  obtain ⟨⟨e', mid⟩, hr, h⟩ := h
  obtain ⟨⟨close, rest'⟩, hc, heq⟩ := map_eq_ok.1 h
  cases heq
  obtain ⟨rfl, hclose⟩ := eq_of_readClosing hc
  exact ⟨.primary, .enclosed ht (hread (by decide) e' _ hr).1 hclose, pull_le _, by decide⟩

theorem arguments_sound_cons {stop t : Token} {ts : List Token} (ht : t.kind ≠ .closeParen)
    (hread : ReadSound stop 0 (t :: ts))
    (hargs : ∀ e u us, Expr.read stop 0 (t :: ts) = .ok (e, u :: us) → ArgumentsSound stop us) :
    ArgumentsSound stop (t :: ts) := by
  intro es close rest h
  rw [readArguments_cons ht, bind_eq_ok] at h
  obtain ⟨⟨e, mid⟩, hr, h⟩ := h
  have hphrase := (hread (by decide) e mid hr).1
  cases mid with
  | nil => cases h
  | cons u us =>
    simp only [readMore] at h
    split at h
    · rename_i hcomma
      obtain ⟨⟨es', close', rest'⟩, ha, heq⟩ := map_eq_ok.1 h
      cases heq
      exact .more hphrase hcomma (hargs e u us hr _ _ _ ha)
    · split at h
      · rename_i hclose
        cases h
        exact .last hphrase hclose
      · cases h

/-- Whatever the readers accept is a phrase of the grammar, and goes as far as it can. -/
theorem readers_sound (stop : Token) :
    (∀ min ts, ReadSound stop min ts) ∧ (∀ min lhs ts, OperationsSound stop min lhs ts) ∧
      (∀ ts, OperandSound stop ts) ∧ ∀ ts, ArgumentsSound stop ts := by
  refine readers_induct stop (ReadSound stop) (OperationsSound stop) (OperandSound stop)
    (ArgumentsSound stop) ?read ?operations_nil ?operator ?operand ?nil ?sign ?literal ?name ?call
    ?enclosed ?other ?arguments_nil ?close ?arguments
  case read =>
    intro min ts hoperand hgo hmin e rest h
    rw [read_eq, bind_eq_ok] at h
    obtain ⟨⟨lhs, mid⟩, ho, h⟩ := h
    obtain ⟨l, hlhs, hpull, hl⟩ := hoperand lhs mid ho
    exact hgo lhs mid ho hmin e rest h l ts hlhs hpull (by omega)
  case operations_nil =>
    intro min lhs hmin e rest h l before hlhs _ hl
    exact operations_sound_of_stop (Nat.zero_le _) h hlhs hl
  case operator =>
    intro min lhs t ts op hop hread hgo
    exact operations_sound_operator hop hread hgo
  case operand =>
    intro min lhs t ts hop hread hgo
    exact operations_sound_operand hop hread hgo
  case nil =>
    intro e rest h
    rw [readOperand_nil] at h
    cases h
  case sign =>
    intro t ts sign hsign hread
    exact operand_sound_sign hsign hread
  case literal =>
    intro t ts ht
    exact operand_sound_literal ht
  case name =>
    intro t ts ht hname e rest h
    rw [readOperand_name ht hname] at h
    cases h
    exact ⟨.primary, .name ht hname, pull_le _, by decide⟩
  case call =>
    intro t u us ht hu hadj hargs
    exact operand_sound_call ht hu hadj hargs
  case enclosed =>
    intro t ts kind make ht hread
    exact operand_sound_enclosed ht hread
  case other =>
    intro t ts hsign hstart e rest h
    rw [readOperand_other hsign hstart] at h
    cases h
  case arguments_nil =>
    intro es close rest h
    rw [readArguments_nil] at h
    cases h
  case close =>
    intro t ts ht es close rest h
    rw [readArguments_close ht] at h
    cases h
    exact .done ht
  case arguments =>
    intro t ts ht hread hargs
    exact arguments_sound_cons ht hread hargs

/-- The reader with bound zero reads the longest comparison. -/
theorem read_iff {stop : Token} {ts rest : List Token} {e : Expr} :
    Expr.read stop 0 ts = .ok (e, rest) ↔ Derives .comparison ts e rest ∧ pull rest = 0 := by
  constructor
  · intro h
    obtain ⟨hphrase, hpull⟩ := (readers_sound stop).1 0 ts (by decide) e rest h
    exact ⟨hphrase, Nat.le_zero.1 hpull⟩
  · rintro ⟨hphrase, hpull⟩
    rw [hphrase.read stop (by omega) 0 (by decide), readOperations_stop (by omega)]

end UnitCalc.Grammar
