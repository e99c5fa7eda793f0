import UnitCalc.Proofs.Exactness
import UnitCalc.Proofs.Spelling

/-! A number with a unit reads back as itself. Its text is an expression, a numeral next to powers
of base units, and in the state that the value comes from that expression has the same value. Each
base unit still stands for one of itself, because no variable can hide a unit in use. A negative
power divides at the precision of the state, which leaves a one written with many places: it
changes no value, but each such factor takes room. -/

namespace UnitCalc

/-! ### Units -/

theorem Table.lookup_of_mem {α : Type} {es : List (String × α)}
    (hes : es.Pairwise fun a b => a.1 < b.1) {e : String × α} (h : e ∈ es) :
    es.lookup e.1 = some e.2 := by
  induction es with
  | nil => cases h
  | cons d es ih =>
    obtain ⟨hd, hes⟩ := List.pairwise_cons.1 hes
    rw [lookup_cons]
    rcases List.mem_cons.1 h with rfl | h
    · rw [if_pos rfl]
    · have hne : e.1 ≠ d.1 := fun heq => String.lt_irrefl _ (heq ▸ hd e h)
      rw [if_neg hne, ih hes h]

namespace Dimension

theorem exponent_of_mem {d : Dimension} {e : String × Int} (h : e ∈ d.exponents.entries) :
    d.exponent e.1 = e.2 := by
  rw [exponent, Table.find?, Table.lookup_of_mem d.exponents.ascending h]
  rfl

theorem mem_of_exponent {d : Dimension} {name : String} (h : d.exponent name ≠ 0) :
    (name, d.exponent name) ∈ d.exponents.entries := by
  rw [exponent] at h ⊢
  cases hfind : d.exponents.find? name with
  | none =>
    rw [hfind] at h
    exact absurd rfl h
  | some e => exact Table.mem_of_find? hfind

theorem exponentFits_exponent (d : Dimension) (name : String) :
    exponentFits (d.exponent name) := by
  by_cases h : d.exponent name = 0
  · rw [h]
    decide
  · exact (d.admissible _ (mem_of_exponent h)).2

theorem exists_raise {d : Dimension} {name : String} {k : Int}
    (h : exponentFits (d.exponent name + k)) : ∃ d', d.raise name k = some d' := by
  rw [raise]
  split
  · exact ⟨_, rfl⟩
  · exact ⟨_, rfl⟩

/-- Exponents can be raised one after the other if each of the sums is an exponent. -/
theorem exists_foldlM {f : Int → Int} {es : List (String × Int)}
    (hes : es.Pairwise fun a b => a.1 < b.1) {a : Dimension}
    (h : ∀ e ∈ es, exponentFits (a.exponent e.1 + f e.2)) :
    ∃ d, es.foldlM (fun d e => d.raise e.1 (f e.2)) a = some d := by
  induction es generalizing a with
  | nil => exact ⟨a, rfl⟩
  | cons e es ih =>
    obtain ⟨hfirst, hrest⟩ := List.pairwise_cons.1 hes
    obtain ⟨hfits, hfits'⟩ := List.forall_mem_cons.1 h
    obtain ⟨a', ha'⟩ := exists_raise hfits
    have hkeep : ∀ e' ∈ es, exponentFits (a'.exponent e'.1 + f e'.2) := by
      intro e' he'
      have hne : e'.1 ≠ e.1 := fun heq => String.lt_irrefl _ (heq ▸ hfirst e' he')
      rw [exponent_raise ha', if_neg hne]
      exact hfits' e' he'
    obtain ⟨d, hd⟩ := ih hrest hkeep
    exact ⟨d, by rw [List.foldlM_cons, ha']; exact hd⟩

theorem exists_mul {a b : Dimension}
    (h : ∀ name, exponentFits (a.exponent name + b.exponent name)) :
    ∃ d, a.mul b = some d ∧ d.exponent = a.exponent + b.exponent := by
  have hfits : ∀ e ∈ b.exponents.entries, exponentFits (a.exponent e.1 + id e.2) := by
    intro e he
    rw [id, ← exponent_of_mem he]
    exact h e.1
  obtain ⟨d, hd⟩ := exists_foldlM b.exponents.ascending hfits
  exact ⟨d, hd, exponent_mul hd⟩

theorem exists_pow_base (name : String) {k : Int} (hk : exponentFits k) :
    ∃ d, (base name).pow k = some d ∧ d.exponent = Pi.single name k := by
  have hfits : ∀ e ∈ (base name).exponents.entries, exponentFits (one.exponent e.1 + e.2 * k) := by
    intro e he
    have hone : e.2 = 1 := by
      rcases Table.mem_place he with rfl | he
      · rfl
      · cases he
    rwa [exponent_one, hone, one_mul, zero_add]
  obtain ⟨d, hd⟩ := exists_foldlM (f := (· * k)) (base name).exponents.ascending hfits
  refine ⟨d, hd, ?_⟩
  rw [exponent_pow hd]
  funext other
  rw [Pi.smul_apply, exponent_base, Pi.single_apply]
  split
  · simp
  · simp

end Dimension

/-! ### Powers of one of a unit -/

namespace Decimal

theorem powerLoop_one (e : Nat) : powerLoop 1 1 e = 1 := by
  have hmul : (1 : Decimal).mul 1 = 1 := by decide
  induction e using Nat.strongRecOn with
  | ind e ih =>
    rw [powerLoop]
    split
    · split
      · exact hmul
      · rfl
    · rw [hmul, ite_self]
      exact ih (e / 2) (by omega)

theorem extent_extend_le (d : Decimal) (k : Nat) : (d.extend k).extent ≤ d.extent + 2 * k := by
  have hcount := Digits.count_mul_pow_le d.coefficient.natAbs k
  simp only [extent, digitCount, extend, Int.natAbs_mul, Int.natAbs_natCast, Digits.tenPow_eq]
  omega

/-- A one filled up to `p` digits is still a one. -/
theorem withDigits_one {p : Nat} (hp : 1 ≤ p) :
    ((1 : Decimal).withDigits p).toRat = 1 ∧ ((1 : Decimal).withDigits p).extent < 2 * p := by
  have hcount : (1 : Decimal).digitCount = 1 := by decide
  have hextend : (1 : Decimal).withDigits p = (1 : Decimal).extend (p - 1) := by
    rw [withDigits, hcount, if_pos hp]
  have hextent := extent_extend_le 1 (p - 1)
  have hone : (1 : Decimal).extent = 1 := by decide
  rw [hextend]
  exact ⟨by rw [toRat_extend, toRat_one], by omega⟩

end Decimal

namespace Value

/-- A power of one is a one, which takes room for the digits that are kept. -/
theorem power_one {precision : Nat} (hp : 1 ≤ precision ∧ precision ≤ 100) {e : Int}
    (he : e.natAbs ≤ maxExponent) :
    ∃ u, power precision 1 e = .ok u ∧ u.toRat = 1 ∧ u.extent < 200 := by
  have hextent : (1 : Decimal).extent = 1 := by decide
  have hsmall : ¬ Decimal.maxExtent < (1 : Decimal).extent * e.natAbs := by
    simp only [hextent, Decimal.maxExtent, maxExponent] at he ⊢
    omega
  have hpower : (1 : Decimal).power e.natAbs = 1 := Decimal.powerLoop_one _
  simp only [power, if_neg hsmall, hpower]
  split
  · exact ⟨1, rfl, Decimal.toRat_one, by omega⟩
  · have hdiv : Decimal.div 1 1 = 1 := by decide
    obtain ⟨hvalue, hroom⟩ := Decimal.withDigits_one hp.1
    rw [hdiv]
    exact ⟨_, rfl, hvalue, by omega⟩

theorem limited_eq {n : Decimal} (h : n.extent ≤ Decimal.maxExtent) :
    limited n = .ok (.number n) :=
  if_pos (decide_eq_true h)

theorem integerExponent_eq (lhs : Value) {e : Int} (he : e.natAbs ≤ maxExponent) :
    integerExponent lhs (.ofDecimal ⟨e, 0⟩) = .ok e := by
  have htruncate : (⟨e, 0⟩ : Decimal).truncate = e := mul_one e
  have hmoderate : exponentFits e ∧ wrappedMagnitude e ≤ maxExponent := by
    simp only [exponentFits, wrappedMagnitude, maxExponent] at he ⊢
    split <;> omega
  simp only [integerExponent, ofDecimal, htruncate, if_pos hmoderate]
  rfl

/-- The power of one of a unit is a one of the power of the unit. -/
theorem operate_pow {precision : Nat} (hp : 1 ≤ precision ∧ precision ≤ 100) (name : String)
    {e : Int} (he : e.natAbs ≤ maxExponent) :
    ∃ u d, operate precision .pow (.ofUnit name) (.ofDecimal ⟨e, 0⟩) = .ok ⟨.number u, d⟩ ∧
      u.toRat = 1 ∧ u.extent < 200 ∧ d.exponent = Pi.single name e := by
  obtain ⟨u, hu, hone, hroom⟩ := power_one hp he
  have hfits : exponentFits e := by
    simp only [exponentFits, maxExponent] at he ⊢
    omega
  obtain ⟨d, hd, hexponent⟩ := Dimension.exists_pow_base name hfits
  have hexp := integerExponent_eq (.ofUnit name) he
  have hunit : operationUnit .pow (.ofUnit name) (.ofDecimal ⟨e, 0⟩) = .ok d := by
    have hdone : (ofUnit name).unit.pow e = some d := hd
    simp only [operationUnit, hexp]
    show orOutOfRange ((ofUnit name).unit.pow e) = .ok d
    rw [hdone]
    rfl
  have hkind : operationKind precision .pow (.ofUnit name) (.ofDecimal ⟨e, 0⟩) =
      .ok (.number u) := by
    show (do limited (← power precision 1 (← integerExponent (ofUnit name) (.ofDecimal ⟨e, 0⟩)))) =
      Except.ok (.number u)
    rw [hexp]
    show (do limited (← power precision 1 e)) = Except.ok (.number u)
    rw [hu]
    exact limited_eq (by simp only [Decimal.maxExtent]; omega)
  refine ⟨u, d, ?_, hone, hroom, hexponent⟩
  rw [operate, hunit, hkind]
  rfl

/-- Multiplying by a one of a unit changes the unit alone. -/
theorem operate_mul (precision : Nat) {a u : Decimal} {d g : Dimension}
    (hfits : ∀ name, exponentFits (d.exponent name + g.exponent name)) (hone : u.toRat = 1)
    (hroom : a.extent + u.extent ≤ Decimal.maxExtent) :
    ∃ b d', operate precision .mul ⟨.number a, d⟩ ⟨.number u, g⟩ = .ok ⟨.number b, d'⟩ ∧
      b.toRat = a.toRat ∧ b.extent ≤ a.extent + u.extent ∧
      d'.exponent = d.exponent + g.exponent := by
  obtain ⟨d', hd', hexponent⟩ := Dimension.exists_mul hfits
  have hextent := a.extent_mul_le u
  refine ⟨a.mul u, d', ?_, by rw [Decimal.toRat_mul, hone, mul_one], hextent, hexponent⟩
  have hlimited : limited (a.mul u) = .ok (.number (a.mul u)) := limited_eq (by omega)
  simp only [operate, operationUnit, operationKind, numberOperation, hd', hlimited]
  rfl

end Value

/-! ### Phrases -/

open Grammar
open Token (word signWords)

/-- A numeral with the sign of `z` is a signed phrase, and has the value that it writes. -/
theorem derives_signed {kind : Token.Kind} {cs : List Char} {d : Decimal}
    (hcs : Numeral kind cs d) (hlimit : d.withinLimit = true) (z : Int) {ts : List Token}
    (hts : ts.map word = signWords z ++ [(kind, String.ofList cs)]) (rest : List Token) :
    ∃ e, Derives .signed (ts ++ rest) e rest ∧
      ∀ s : State, s.eval e = .ok (.ofDecimal (if z < 0 then d.neg else d)) := by
  have hliteral : ∀ t : Token, word t = (kind, String.ofList cs) →
      Derives .primary (t :: rest) (.number d t.span) rest := by
    intro t ht
    obtain ⟨hkind, hlexeme⟩ := Prod.mk.inj ht
    refine .number ?_ (hlexeme ▸ hcs.literalValue? hlimit) hlimit
    rw [hkind]
    cases hcs with
    | integer => exact .inl rfl
    | float => exact .inr rfl
  rw [signWords] at hts
  split at hts
  · rename_i hneg
    obtain ⟨m, us, rfl, hm, hus⟩ := List.map_eq_cons_iff.1 hts
    obtain ⟨t, vs, rfl, ht, hvs⟩ := List.map_eq_cons_iff.1 hus
    rw [List.map_eq_nil_iff.1 hvs]
    have hsign : Sign.ofKind? m.kind = some .minus := by rw [(Prod.mk.inj hm).1]; rfl
    refine ⟨_, .sign hsign ((hliteral t ht).loosen (by decide)), fun s => ?_⟩
    rw [if_pos hneg, State.eval, State.evalAt_signed, State.evalAt_number]
    rfl
  · rename_i hnonneg
    obtain ⟨t, vs, rfl, ht, hvs⟩ := List.map_eq_cons_iff.1 hts
    rw [List.map_eq_nil_iff.1 hvs]
    refine ⟨_, (hliteral t ht).loosen (by decide), fun s => ?_⟩
    rw [if_neg hnonneg, State.eval, State.evalAt_number]

namespace State

/-- A base unit stands for one of itself. -/
theorem IsBase.eval {s : State} {name : String} (h : s.IsBase name) (span : Span) :
    s.eval (.name ⟨name, span⟩) = .ok (.ofUnit name) := by
  have hvars : s.vars.find? name = none := by
    have hfree := h.2
    rwa [Table.contains, Option.isSome_eq_false_iff, Option.isNone_iff_eq_none] at hfree
  have hlookup : s.lookupIn [] name = some (.ofUnit name) := by
    rw [lookupIn, List.lookup_nil, Option.none_or, lookup, hvars]
    exact if_pos h.1
  rw [State.eval, evalAt_name, evalName, hlookup]
  rfl

/-- What the words of a power of a base unit are and have as their value. -/
theorem derives_factor {f : String × Int} (hf : f.2.natAbs ≤ Value.maxExponent) {ts : List Token}
    (hts : ts.map word = Dimension.factorWords f) {rest : List Token}
    (hrest : ∀ t ∈ rest.head?, t.kind ≠ .openParen) :
    ∃ e, Derives .power (ts ++ rest) e rest ∧
      ∀ s : State, s.IsBase f.1 → (1 ≤ s.precision ∧ s.precision ≤ 100) →
        ∃ u d, s.eval e = .ok ⟨.number u, d⟩ ∧ u.toRat = 1 ∧ u.extent < 200 ∧
          d.exponent = Pi.single f.1 f.2 := by
  obtain ⟨name, e⟩ := f
  obtain ⟨t, us, rfl, ht, hus⟩ := List.map_eq_cons_iff.1 hts
  obtain ⟨hkind, rfl⟩ := Prod.mk.inj ht
  split at hus
  · rename_i hone
    rw [List.map_eq_nil_iff.1 hus]
    have hbare : ¬ Expr.OpensCall t rest := by
      rintro ⟨u, us, rfl, hopen, -⟩
      exact hrest u rfl hopen
    refine ⟨.name t.ident, .tighter rfl (.name hkind hbare), fun s hbase _ => ?_⟩
    refine ⟨1, .base t.lexeme, hbase.eval t.span, Decimal.toRat_one, by decide, ?_⟩
    funext other
    rw [Dimension.exponent_base, Pi.single_apply]
    simp only at hone
    rw [hone]
  · obtain ⟨c, vs, rfl, hc, hvs⟩ := List.map_eq_cons_iff.1 hus
    have hnumeral : Numeral .integer e.natAbs.repr.toList ⟨e.natAbs, 0⟩ :=
      .integer (Digits.writes_repr _)
    have hlimit : (⟨e.natAbs, 0⟩ : Decimal).withinLimit = true := by
      have hcount : Digits.count e.natAbs ≤ 6 := by
        rw [Digits.count_le_iff (by decide)]
        simp only [Value.maxExponent] at hf
        omega
      refine decide_eq_true ?_
      simp only [Decimal.extent, Decimal.digitCount, Decimal.maxExtent, Int.natAbs_natCast,
        Int.natAbs_zero]
      omega
    have hsigned : (if e < 0 then Decimal.neg ⟨e.natAbs, 0⟩ else ⟨e.natAbs, 0⟩) = ⟨e, 0⟩ := by
      split <;> simp only [Decimal.neg, Decimal.mk.injEq, and_true] <;> omega
    rw [← String.ofList_toList (s := e.natAbs.repr)] at hvs
    obtain ⟨exponent, hexponent, hvalue⟩ := derives_signed hnumeral hlimit e hvs rest
    have hcaret : c.kind = .caret := (Prod.mk.inj hc).1
    have hbare : ¬ Expr.OpensCall t (c :: (vs ++ rest)) := by
      rintro ⟨u, us, heq, hopen, -⟩
      cases heq
      rw [hcaret] at hopen
      cases hopen
    refine ⟨_, .raise (.name hkind hbare) hcaret hexponent, fun s hbase hp => ?_⟩
    have heval : s.eval (.combine .pow (.name t.ident) exponent) =
        locate ((Expr.name t.ident).span.merge exponent.span)
          (Value.operate s.precision .pow (.ofUnit t.lexeme) (.ofDecimal ⟨e, 0⟩)) := by
      have hname := hbase.eval t.span
      have hexp := hvalue s
      rw [hsigned] at hexp
      rw [State.eval] at hname hexp ⊢
      rw [Expr.combine, evalAt_binary, Token.ident, hname, hexp]
      rfl
    obtain ⟨u, d, hoperate, hpower⟩ := Value.operate_pow hp t.lexeme hf
    exact ⟨u, d, by rw [heval, hoperate]; rfl, hpower⟩

/-- No parenthesis follows where the words of base units do. -/
theorem head_factors {fs : List (String × Int)} {ts : List Token}
    (hts : ts.map word = fs.flatMap Dimension.factorWords) :
    ∀ t ∈ ts.head?, t.kind ≠ .openParen := by
  cases fs with
  | nil =>
    rw [List.map_eq_nil_iff.1 hts]
    nofun
  | cons f fs =>
    obtain ⟨u, us, rfl, hu, -⟩ := List.map_eq_cons_iff.1 hts
    rintro _ ⟨⟩
    rw [(Prod.mk.inj hu).1]
    nofun

/-- The words of powers of base units after a number are read as a product, and the product has the
number and the exponents that they write. -/
theorem derives_factors {s : State} (hp : 1 ≤ s.precision ∧ s.precision ≤ 100)
    {fs : List (String × Int)} (hbases : ∀ f ∈ fs, s.IsBase f.1)
    (hsmall : ∀ f ∈ fs, f.2.natAbs ≤ Value.maxExponent)
    (hdistinct : fs.Pairwise fun f g => f.1 ≠ g.1)
    {all ts : List Token} (hts : ts.map word = fs.flatMap Dimension.factorWords) {lhs : Expr}
    (hlhs : Derives .juxtaposition all lhs ts) {a : Decimal} {d : Dimension}
    (hvalue : s.eval lhs = .ok ⟨.number a, d⟩) (hnew : ∀ f ∈ fs, d.exponent f.1 = 0)
    (hroom : a.extent + 200 * fs.length ≤ Decimal.maxExtent) :
    ∃ e b d', Derives .juxtaposition all e [] ∧ s.eval e = .ok ⟨.number b, d'⟩ ∧
      b.toRat = a.toRat ∧ (∀ f ∈ fs, d'.exponent f.1 = f.2) ∧
      ∀ name, (∀ f ∈ fs, f.1 ≠ name) → d'.exponent name = d.exponent name := by
  induction fs generalizing ts lhs a d with
  | nil =>
    rw [List.map_eq_nil_iff.1 hts] at hlhs
    exact ⟨lhs, a, d, hlhs, hvalue, rfl, nofun, fun _ _ => rfl⟩
  | cons f fs ih =>
    obtain ⟨hbase, hbases⟩ := List.forall_mem_cons.1 hbases
    obtain ⟨hf, hsmall⟩ := List.forall_mem_cons.1 hsmall
    obtain ⟨hother, hdistinct⟩ := List.pairwise_cons.1 hdistinct
    obtain ⟨hfnew, hnew⟩ := List.forall_mem_cons.1 hnew
    rw [List.flatMap_cons] at hts
    obtain ⟨ts₁, ts₂, rfl, hts₁, hts₂⟩ := List.map_eq_append_iff.1 hts
    obtain ⟨factor, hfactor, heval⟩ := derives_factor hf hts₁ (head_factors hts₂)
    obtain ⟨u, g, hg, hone, hsize, hexponent⟩ := heval s hbase hp
    have hfits : ∀ name, exponentFits (d.exponent name + g.exponent name) := by
      intro name
      rw [hexponent, Pi.single_apply]
      split
      · rename_i hname
        rw [hname, hfnew]
        simp only [exponentFits, Value.maxExponent] at hf ⊢
        omega
      · rw [add_zero]
        exact d.exponentFits_exponent name
    rw [List.length_cons] at hroom
    have hfit : a.extent + u.extent ≤ Decimal.maxExtent := by omega
    obtain ⟨b, d₁, hoperate, hb, hbsize, hd₁⟩ :=
      Value.operate_mul s.precision hfits hone hfit
    have hproduct : s.eval (.combine .mul lhs factor) = .ok ⟨.number b, d₁⟩ := by
      rw [State.eval] at hvalue hg ⊢
      rw [Expr.combine, evalAt_binary, hvalue, hg]
      show locate _ (Value.operate s.precision .mul ⟨.number a, d⟩ ⟨.number u, g⟩) = _
      rw [hoperate]
      rfl
    have hadd : ∀ name, d₁.exponent name = d.exponent name + if name = f.1 then f.2 else 0 := by
      intro name
      rw [hd₁, Pi.add_apply, hexponent, Pi.single_apply]
    have hnew' : ∀ f' ∈ fs, d₁.exponent f'.1 = 0 := by
      intro f' hf'
      rw [hadd, hnew f' hf', if_neg (hother f' hf').symm, add_zero]
    obtain ⟨e, b', d', he, hval, hb', hin, hout⟩ :=
      ih hbases hsmall hdistinct hts₂ (.juxtapose hlhs hfactor) hproduct hnew' (by omega)
    refine ⟨e, b', d', he, hval, hb'.trans hb, List.forall_mem_cons.2 ⟨?_, hin⟩, ?_⟩
    · rw [hout f.1 fun f' hf' => (hother f' hf').symm, hadd, hfnew, if_pos rfl, zero_add]
    · intro name hname
      obtain ⟨hne, hname⟩ := List.forall_mem_cons.1 hname
      rw [hout name hname, hadd, if_neg hne.symm, add_zero]

end State

/-! ### Texts -/

theorem Dimension.factors_distinct (d : Dimension) :
    d.factors.Pairwise fun f g => f.1 ≠ g.1 := by
  have hentries : d.exponents.entries.Pairwise fun f g => f.1 ≠ g.1 := by
    refine d.exponents.ascending.imp fun {f g} hlt heq => ?_
    rw [heq] at hlt
    exact String.lt_irrefl _ hlt
  refine List.pairwise_append.2 ⟨hentries.filter _, hentries.filter _, fun f hf g hg heq => ?_⟩
  obtain ⟨hf, hpos⟩ := List.mem_filter.1 hf
  obtain ⟨hg, hneg⟩ := List.mem_filter.1 hg
  have hexponent : f.2 = g.2 := by rw [← exponent_of_mem hf, heq, exponent_of_mem hg]
  simp only [decide_eq_true_eq] at hpos hneg
  omega

theorem Dimension.length_factors (d : Dimension) :
    d.factors.length = d.exponents.entries.length := by
  have hnegative : d.exponents.entries.filter (·.2 < 0) =
      d.exponents.entries.filter (fun f => !decide (0 < f.2)) := by
    refine List.filter_congr fun f hf => ?_
    have hne := (d.admissible f hf).1
    rw [← decide_not, decide_eq_decide]
    omega
  rw [factors, List.length_append, hnegative, ← List.length_eq_length_filter_add]

namespace State

/-- The text of a number is an expression with the value that it writes. -/
theorem WellFormed.eval_text {s : State} (hs : s.WellFormed) (hnames : s.UnitsNamed) {v : Value}
    (hv : v.WellFormed s) {n : Decimal} (hn : v.kind = .number n)
    (hsmall : ∀ f ∈ v.unit.exponents.entries, f.2.natAbs ≤ Value.maxExponent)
    (hroom : n.extent + 200 * v.unit.exponents.entries.length ≤ Decimal.maxExtent) :
    ∃ e w, Expr.ofString v.text = .ok e ∧ s.eval e = .ok w ∧ v.same w = true := by
  obtain ⟨kind, hnumeral⟩ := n.normalize.positional_numeral
  have hd := Decimal.toRat_placed ⟨n.normalize.coefficient.natAbs, n.normalize.scale⟩
  have hsize := Decimal.extent_placed_le ⟨n.normalize.coefficient.natAbs, n.normalize.scale⟩
  rw [Decimal.extent_natAbs] at hsize
  generalize Decimal.placed ⟨n.normalize.coefficient.natAbs, n.normalize.scale⟩ = d
    at hnumeral hd hsize
  have hsize' := n.extent_normalize_le
  have hlimit : d.withinLimit = true := decide_eq_true (by omega)
  have hspelled := Value.spells_text hn (hv.bases.mono fun name h => hnames name h.1) hnumeral 0
  rw [List.append_cons] at hspelled
  obtain ⟨ts₁, ts₂, hcontent, hts₁, hts₂⟩ := List.map_eq_append_iff.1 hspelled
  obtain ⟨lhs, hlhs, hvalue⟩ := derives_signed hnumeral hlimit _ hts₁ ts₂
  rw [← hcontent] at hlhs
  obtain ⟨hrat, hextent⟩ := Decimal.signed_eq hd
  rw [Decimal.toRat_normalize] at hrat
  have hfactors : ∀ f ∈ v.unit.factors, f ∈ v.unit.exponents.entries := fun f hf =>
    Dimension.mem_factors.1 hf
  obtain ⟨e, b, unit, he, heval, hb, hin, hout⟩ := derives_factors hs.precision
    (fun f hf => hv.bases f (hfactors f hf)) (fun f hf => hsmall f (hfactors f hf))
    v.unit.factors_distinct hts₂ (hlhs.loosen (by decide)) (hvalue s) (fun f _ => rfl)
    (by rw [v.unit.length_factors]; omega)
  have hunit : unit = v.unit := by
    refine Dimension.ext_exponent fun name => ?_
    by_cases hzero : v.unit.exponent name = 0
    · rw [hzero]
      refine hout name fun f hf hname => ?_
      have hne := (v.unit.admissible f (hfactors f hf)).1
      rw [← Dimension.exponent_of_mem (hfactors f hf), hname] at hne
      exact hne hzero
    · exact hin _ (Dimension.mem_factors.2 (Dimension.mem_of_exponent hzero))
  refine ⟨e, _, ofString_eq_ok_iff.2 (he.loosen (by decide)), heval, ?_⟩
  rw [Value.same, hn, hunit]
  simp [Value.Kind.same, Decimal.same_iff, hb, hrat]

/-- A number that a session keeps in a variable or gives as a value reads back as itself in the
state that it has reached, if the exponents of its unit are moderate and there is room for the
digits of its powers. -/
theorem session_text_reads_back (precision : Nat) (sources : List String) {v : Value} {n : Decimal}
    (hv : (∃ name, (session precision sources).vars.find? name = some v) ∨
      ∃ e, (session precision sources).eval e = .ok v)
    (hn : v.kind = .number n) (hsmall : ∀ name, (v.unit.exponent name).natAbs ≤ 100000)
    (hroom : n.extent + 200 * v.unit.exponents.entries.length ≤ 1000000) :
    ∃ e w, Expr.ofString v.text = .ok e ∧ (session precision sources).eval e = .ok w ∧
      v.same w = true := by
  have hs := session_wellFormed precision sources
  have hwell : v.WellFormed (session precision sources) := by
    rcases hv with ⟨name, hname⟩ | ⟨e, he⟩
    · exact hs.vars name v hname
    · exact (hs.eval e).ok he
  refine hs.eval_text (session_unitsNamed precision sources) hwell hn (fun f hf => ?_) hroom
  have := hsmall f.1
  rwa [Dimension.exponent_of_mem hf] at this

/-- The expression `-12.50 / m`. -/
def quotientByMetre : Expr :=
  .binary .div (.signed .minus (.number ⟨1250, 2⟩ ⟨1, 6⟩) ⟨0, 6⟩) (.name ⟨"m", ⟨9, 10⟩⟩) ⟨0, 10⟩

/-- Its value at a precision of fifty digits, which fill it up with zeros. -/
def perMetre : Value := ⟨.number ⟨-1250 * 10 ^ 46, 48⟩, ⟨Table.empty.insert "m" (-1), by decide⟩⟩

/-- A negative quotient per metre is written with a negative exponent and read back. -/
theorem session_text_reads_back_perMetre :
    perMetre.text = "-12.5 m^-1" ∧
      (session 50 ["unit m"]).eval quotientByMetre = .ok perMetre ∧
      ∃ e w, Expr.ofString perMetre.text = .ok e ∧ (session 50 ["unit m"]).eval e = .ok w ∧
        perMetre.same w = true := by
  have heval : (session 50 ["unit m"]).eval quotientByMetre = .ok perMetre := by decide +kernel
  have hsmall : ∀ name, (perMetre.unit.exponent name).natAbs ≤ 100000 := by
    intro name
    rw [perMetre, Dimension.exponent, Table.find?_insert, Table.find?_empty]
    split <;> decide
  exact ⟨by decide +kernel, heval,
    session_text_reads_back 50 ["unit m"] (.inr ⟨_, heval⟩) rfl hsmall (by decide +kernel)⟩

end State

end UnitCalc
