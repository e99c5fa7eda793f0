import UnitCalc.Proofs.Numerals
import UnitCalc.Proofs.Pieces
import UnitCalc.Proofs.Reachable
import UnitCalc.Proofs.Reports
import UnitCalc.Value.Basic

/-! How a value is spelled. The text of a number with a unit is scanned into the words that it was
put together from: a numeral, maybe with a sign before it, and for each base unit its name and
maybe a caret and an exponent. The names of units come back as names because a unit is declared by
an identifier of a text without stray characters, where a keyword would have been told from it. -/

namespace UnitCalc

/-- A numeral within the limit is the literal of its decimal. -/
theorem Numeral.literalValue? {kind : Token.Kind} {cs : List Char} {d : Decimal}
    (h : Numeral kind cs d) (hlimit : d.withinLimit = true) :
    Grammar.literalValue? (String.ofList cs) = some d := by
  have hfilter : cs.filter (· ≠ '_') = cs := by
    refine List.filter_eq_self.2 fun c hc => decide_eq_true ?_
    rcases h.mem c hc with hdigit | rfl
    · exact Decimal.digit_ne hdigit (by decide)
    · decide
  have hscale : Decimal.scaleFits d.scale = true := by
    have hextent : d.extent ≤ 1000000 := of_decide_eq_true hlimit
    rw [Decimal.extent] at hextent
    simp only [Decimal.scaleFits, Bool.and_eq_true, decide_eq_true_eq]
    omega
  rw [Grammar.literalValue?, String.toList_ofList, hfilter, h.ofString?_eq hscale]

namespace Token

/-! ### Words -/

/-- The characters that stand behind a word in the text of a value or an expression. -/
def wordEnds : List Char := [' ', '^', '(', ')', ']', ',']

/-- A word is over: at the end of a text or before one of the characters that stand behind words. -/
def Ends (r : List Char) : Prop := ∀ c ∈ r.head?, c ∈ wordEnds

theorem ends_nil : Ends [] := nofun

theorem ends_cons {c : Char} (hc : c ∈ wordEnds) (r : List Char) : Ends (c :: r) := by
  rintro _ ⟨⟩
  exact hc

/-- What goes on with none of the characters behind a word ends there. -/
theorem Ends.head {r : List Char} (h : Ends r) {p : Char → Bool}
    (hp : wordEnds.any p = false) : ∀ c ∈ r.head?, p c = false :=
  fun c hc => Bool.eq_false_iff.2 (List.any_eq_false.1 hp c (h c hc))

/-- The names that are scanned as identifiers: those that are no keywords. -/
structure IsName (cs : List Char) : Prop where
  parts : ∃ c ds, cs = c :: ds ∧ isIdentifierStart c = true ∧ ∀ d ∈ ds, isIdentifierPart d = true
  ne_unit : cs ≠ "unit".toList
  ne_print : cs ≠ "print".toList

theorem le_of_contains {b : Nat} {bs : List Nat} {c : Char}
    (h : (⟨b :: bs⟩ : CodeSet).contains c = true) : b ≤ c.toNat := by
  rw [CodeSet.contains, CodeSet.oddUpTo, Bool.and_eq_true, decide_eq_true_iff] at h
  exact h.1

theorem not_isDigit_of_isIdentifierStart {c : Char} (h : isIdentifierStart c = true) :
    c.isDigit = false := by
  by_contra hdigit
  rw [Bool.not_eq_false, Char.isDigit, Bool.and_eq_true, decide_eq_true_iff,
    decide_eq_true_iff] at hdigit
  have hle : c.toNat ≤ 57 := UInt32.le_iff_toNat_le.1 hdigit.2
  simp only [isIdentifierStart, Bool.or_eq_true, decide_eq_true_eq] at h
  rcases h with (halpha | rfl) | hxid
  · rcases Bool.or_eq_true_iff.1 halpha with hupper | hlower
    · have hbounds : c.val ≥ 'A'.val ∧ c.val ≤ 'Z'.val := of_decide_eq_true hupper
      have hge : 65 ≤ c.toNat := UInt32.le_iff_toNat_le.1 hbounds.1
      omega
    · have hbounds : (decide (c.val ≥ 'a'.val) && decide (c.val ≤ 'z'.val)) = true := hlower
      have hge : 97 ≤ c.toNat :=
        UInt32.le_iff_toNat_le.1 (of_decide_eq_true (Bool.and_eq_true_iff.1 hbounds).1)
      omega
  · exact absurd hdigit.2 (by decide)
  · have := le_of_contains hxid
    omega

theorem digitsLength_of_not_isDigit {c : Char} (h : c.isDigit = false) (cs : List Char) :
    digitsLength (c :: cs) = 0 := by
  rw [digitsLength, h]
  rfl

theorem munch_name {cs r : List Char} (h : IsName cs) (hr : Ends r) :
    munch (cs ++ r) = (.identifier, cs.length) := by
  obtain ⟨c, ds, rfl, hstart, hparts⟩ := h.parts
  have hnumber : number? (c :: ds ++ r) = none := by
    rw [List.cons_append]
    simp [number?, digitsLength_of_not_isDigit (not_isDigit_of_isIdentifierStart hstart)]
  have hlength : identifierLength (c :: ds ++ r) = (c :: ds).length := by
    have hrun := (span_run hparts (hr.head rfl)).1
    rw [List.cons_append, identifierLength, if_pos hstart, hrun, List.length_cons, Nat.add_comm]
  have hends : endsKeyword r = true := by
    cases r with
    | nil => rfl
    | cons d r =>
      have hascii := hr.head (p := fun c => !decide (c.toNat < 0x80)) rfl d rfl
      rw [Bool.not_eq_false'] at hascii
      rw [endsKeyword, hascii, Bool.true_or]
  have hkind : keywordOrIdentifier (c :: ds) = .identifier := by
    rw [keywordOrIdentifier, if_neg h.ne_unit, if_neg h.ne_print]
  have hword : word? (c :: ds ++ r) = some (.identifier, (c :: ds).length) := by
    simp only [word?, hlength, List.drop_left, List.take_left, hends, hkind]
    simp
  rw [munch, munch?, hnumber, hword]
  rfl

theorem munch_symbol {c : Char} {kind : Kind} {n : Nat} {r : List Char}
    (hdigit : c.isDigit = false) (hstart : isIdentifierStart c = false)
    (h : symbol? (c :: r) = some (kind, n)) : munch (c :: r) = (kind, n) := by
  have hnumber : number? (c :: r) = none := by
    simp [number?, digitsLength_of_not_isDigit hdigit]
  have hword : word? (c :: r) = none := by simp [word?, identifierLength, hstart]
  rw [munch, munch?, hnumber, hword, h]
  rfl

theorem digitsLength_run {ds r : List Char} {n : Nat} (h : Digits.Writes ds n)
    (hr : ∀ c ∈ r.head?, isDigitPart c = false) : digitsLength (ds ++ r) = ds.length := by
  cases ds with
  | nil => exact absurd rfl h.ne_nil
  | cons c ds =>
    have hparts : ∀ d ∈ ds, isDigitPart d = true := by
      intro d hd
      rw [isDigitPart, h.isDigit d (List.mem_cons_of_mem c hd), Bool.true_or]
    rw [List.cons_append, digitsLength, if_pos (h.isDigit c List.mem_cons_self),
      (span_run hparts hr).1, List.length_cons, Nat.add_comm]

theorem munch_numeral {kind : Kind} {cs r : List Char} {d : Decimal} (h : Numeral kind cs d)
    (hr : Ends r) : munch (cs ++ r) = (kind, cs.length) := by
  have hdigits := hr.head (p := isDigitPart) rfl
  have hrest : fractionLength r = 0 ∧ exponentLength r = 0 := by
    cases r with
    | nil => exact ⟨rfl, rfl⟩
    | cons c r =>
      have hpoint := hr.head (p := (· == '.')) rfl c rfl
      have he := hr.head (p := fun c => c == 'e' || c == 'E') rfl c rfl
      rw [beq_eq_false_iff_ne] at hpoint
      simp only [Bool.or_eq_false_iff, beq_eq_false_iff_ne] at he
      simp [fractionLength, exponentLength, hpoint, he.1, he.2]
  have hnumber : number? (cs ++ r) = some (kind, cs.length) := by
    cases h with
    | integer hds =>
      have hwhole := digitsLength_run hds hdigits
      have hpos := List.length_pos_of_ne_nil hds.ne_nil
      simp only [number?, hwhole, List.drop_left, hrest.1, Nat.add_zero, hrest.2]
      rw [if_neg (by omega), if_pos trivial]
    | @float whole places m n hwhole hplaces =>
      have hpoint : ∀ c ∈ ('.' :: (places ++ r)).head?, isDigitPart c = false := by
        rintro c ⟨⟩
        rfl
      have hlength := digitsLength_run hwhole hpoint
      have hpos := List.length_pos_of_ne_nil hwhole.ne_nil
      have hpos' := List.length_pos_of_ne_nil hplaces.ne_nil
      have hfraction : fractionLength ('.' :: (places ++ r)) = 1 + places.length := by
        rw [fractionLength, digitsLength_run hplaces hdigits, if_neg (by omega)]
      have hdrop : (whole ++ '.' :: (places ++ r)).drop (whole.length + (1 + places.length)) =
          r := by
        rw [← List.drop_drop, List.drop_left, Nat.add_comm 1, List.drop_succ_cons, List.drop_left]
      rw [List.append_assoc, List.cons_append]
      simp only [number?, hlength, List.drop_left, hfraction, hdrop, hrest.2]
      rw [if_neg (by omega), if_neg (by omega), List.length_append, List.length_cons]
      simp only [Nat.add_zero, Nat.add_comm 1]
  rw [munch, munch?, hnumber]
  rfl

/-! ### Tokens of words -/

theorem content_nil (offset : Nat) : content offset [] = [] := by
  rw [content, lexemes_nil]
  rfl

theorem content_blank (offset : Nat) (cs : List Char) :
    content offset (' ' :: cs) = content (offset + ' '.utf8Size) cs := by
  rw [content, lexemes_cons]
  rfl

/-- The longest lexeme is the first token. -/
theorem content_cons {w r : List Char} {kind : Kind} (hmunch : munch (w ++ r) = (kind, w.length))
    (hw : w ≠ []) (hblank : ∀ c ∈ w.head?, isBlank c = false) (hkind : kind ≠ .comment)
    (offset : Nat) :
    content offset (w ++ r) =
      ⟨kind, String.ofList w, ⟨offset, offset + byteLength w⟩⟩ ::
        content (offset + byteLength w) r := by
  obtain ⟨c, cs, rfl⟩ := List.exists_cons_of_ne_nil hw
  have hhead : ofHead offset (c :: (cs ++ r)) =
      ⟨kind, String.ofList (c :: cs), ⟨offset, offset + byteLength (c :: cs)⟩⟩ := by
    rw [List.cons_append] at hmunch
    rw [ofHead, hmunch, ← List.cons_append, List.take_left]
  rw [List.cons_append] at hmunch
  rw [content, List.cons_append, lexemes_cons, if_neg (by simp [hblank c rfl]), hhead, hmunch,
    List.length_cons, Nat.add_sub_cancel, lexemes_skip, List.drop_left, List.take_left,
    List.filter_cons_of_pos (by simpa using hkind), Nat.add_assoc]
  rfl

/-- A property that no blank has tells a character from the blanks. -/
theorem isBlank_eq_false {p : Char → Bool} {c : Char} (hc : p c = true) (hspace : p ' ' = false)
    (htab : p '\t' = false) (hreturn : p '\r' = false) : isBlank c = false := by
  rw [Bool.eq_false_iff]
  intro hblank
  simp only [isBlank, Bool.or_eq_true, decide_eq_true_eq] at hblank
  rcases hblank with (rfl | rfl) | rfl
  · exact Bool.false_ne_true (hspace.symm.trans hc)
  · exact Bool.false_ne_true (htab.symm.trans hc)
  · exact Bool.false_ne_true (hreturn.symm.trans hc)

theorem content_name {name : String} {r : List Char} (hname : IsName name.toList) (hr : Ends r)
    (offset : Nat) :
    content offset (name.toList ++ r) =
      ⟨.identifier, name, ⟨offset, offset + byteLength name.toList⟩⟩ ::
        content (offset + byteLength name.toList) r := by
  obtain ⟨c, ds, hcs, hstart, -⟩ := hname.parts
  have hblank : ∀ c ∈ name.toList.head?, isBlank c = false := by
    rw [hcs]
    rintro _ ⟨⟩
    exact isBlank_eq_false hstart (by decide) (by decide) (by decide)
  have hne : name.toList ≠ [] := by
    rw [hcs]
    exact List.cons_ne_nil c ds
  rw [content_cons (munch_name hname hr) hne hblank nofun, String.ofList_toList]

theorem content_numeral {kind : Kind} {cs r : List Char} {d : Decimal} (hcs : Numeral kind cs d)
    (hr : Ends r) (offset : Nat) :
    content offset (cs ++ r) =
      ⟨kind, String.ofList cs, ⟨offset, offset + byteLength cs⟩⟩ ::
        content (offset + byteLength cs) r := by
  refine content_cons (munch_numeral hcs hr) hcs.ne_nil ?_ ?_ offset
  · intro c hc
    rcases hcs.mem c (List.mem_of_head? hc) with hdigit | rfl
    · exact isBlank_eq_false hdigit (by decide) (by decide) (by decide)
    · rfl
  · cases hcs <;> nofun

/-- A character with which neither a number nor a name begins. -/
def isMark (c : Char) : Bool := !isBlank c && !c.isDigit && !isIdentifierStart c

theorem content_symbol {c : Char} {w r : List Char} {kind : Kind} (hc : isMark c = true)
    (h : symbol? (c :: w ++ r) = some (kind, w.length + 1)) (hkind : kind ≠ .comment)
    (offset : Nat) :
    content offset (c :: w ++ r) =
      ⟨kind, String.ofList (c :: w), ⟨offset, offset + byteLength (c :: w)⟩⟩ ::
        content (offset + byteLength (c :: w)) r := by
  simp only [isMark, Bool.and_eq_true, Bool.not_eq_true'] at hc
  obtain ⟨⟨hblank, hdigit⟩, hstart⟩ := hc
  refine content_cons (munch_symbol hdigit hstart h) (List.cons_ne_nil c w) ?_ hkind offset
  rintro _ ⟨⟩
  exact hblank

/-! ### Spelling -/

/-- What a token says, without the place where it stands. -/
def word (t : Token) : Kind × String := (t.kind, t.lexeme)

/-- A text is scanned into words, wherever it starts. -/
def Spells (cs : List Char) (ws : List (Kind × String)) : Prop :=
  ∀ offset, (content offset cs).map word = ws

theorem spells_nil : Spells [] [] := fun offset => by rw [content_nil, List.map_nil]

theorem Spells.blank {cs : List Char} {ws : List (Kind × String)} (h : Spells cs ws) :
    Spells (' ' :: cs) ws := by
  intro offset
  rw [content_blank, h]

theorem Spells.name {name : String} {r : List Char} {ws : List (Kind × String)} (h : Spells r ws)
    (hname : IsName name.toList) (hr : Ends r) :
    Spells (name.toList ++ r) ((.identifier, name) :: ws) := by
  intro offset
  rw [content_name hname hr, List.map_cons, h]
  rfl

theorem Spells.numeral {kind : Kind} {cs r : List Char} {d : Decimal} {ws : List (Kind × String)}
    (h : Spells r ws) (hcs : Numeral kind cs d) (hr : Ends r) :
    Spells (cs ++ r) ((kind, String.ofList cs) :: ws) := by
  intro offset
  rw [content_numeral hcs hr, List.map_cons, h]
  rfl

theorem Spells.caret {r : List Char} {ws : List (Kind × String)} (h : Spells r ws) :
    Spells ('^' :: r) ((.caret, "^") :: ws) := by
  intro offset
  have hcaret := content_symbol (c := '^') (w := []) (r := r) (by decide) rfl nofun offset
  rw [List.singleton_append] at hcaret
  rw [hcaret, List.map_cons, h]
  rfl

theorem Spells.minus {r : List Char} {ws : List (Kind × String)} (h : Spells r ws) :
    Spells ('-' :: r) ((.minus, "-") :: ws) := by
  intro offset
  have hminus := content_symbol (c := '-') (w := []) (r := r) (by decide) rfl nofun offset
  rw [List.singleton_append] at hminus
  rw [hminus, List.map_cons, h]
  rfl

/-- The sign of a number, if it has one. -/
def signWords (z : Int) : List (Kind × String) := if z < 0 then [(.minus, "-")] else []

theorem Spells.signed {kind : Kind} {cs r : List Char} {d : Decimal} {ws : List (Kind × String)}
    (h : Spells r ws) (hcs : Numeral kind cs d) (hr : Ends r) (z : Int) :
    Spells ((if z < 0 then '-' :: cs else cs) ++ r)
      (signWords z ++ (kind, String.ofList cs) :: ws) := by
  rw [signWords]
  split
  · exact (h.numeral hcs hr).minus
  · exact h.numeral hcs hr

end Token

/-! ### Texts of values -/

open Token (Spells IsName Ends signWords)

namespace Dimension

/-- The base units with their exponents, in the order in which they are written. -/
def factors (d : Dimension) : List (String × Int) :=
  d.exponents.entries.filter (0 < ·.2) ++ d.exponents.entries.filter (·.2 < 0)

theorem mem_factors {d : Dimension} {f : String × Int} :
    f ∈ d.factors ↔ f ∈ d.exponents.entries := by
  rw [factors, List.mem_append, List.mem_filter, List.mem_filter, ← and_or_left]
  refine ⟨And.left, fun hf => ⟨hf, ?_⟩⟩
  have hne := (d.admissible f hf).1
  simp only [decide_eq_true_eq]
  omega

/-- The words of a power of a base unit. -/
def factorWords (f : String × Int) : List (Token.Kind × String) :=
  (.identifier, f.1) ::
    if f.2 = 1 then [] else (.caret, "^") :: (signWords f.2 ++ [(.integer, f.2.natAbs.repr)])

theorem factorText_toList (name : String) (e : Int) :
    (factorText name e).toList = name.toList ++
      if e = 1 then []
      else '^' :: if e < 0 then '-' :: e.natAbs.repr.toList else e.natAbs.repr.toList := by
  rw [factorText]
  split
  · rw [List.append_nil]
  · have htext : (toString e).toList =
        if e < 0 then '-' :: e.natAbs.repr.toList else e.natAbs.repr.toList := by
      cases e with
      | ofNat n => rfl
      | negSucc n =>
        rw [if_pos (Int.negSucc_lt_zero n)]
        exact String.toList_append
    simp only [toString, String.toList_append] at htext ⊢
    rw [htext, List.append_assoc]
    rfl

theorem spells_factor {f : String × Int} (hname : IsName f.1.toList) {r : List Char}
    {ws : List (Token.Kind × String)} (h : Spells r ws) (hr : Ends r) :
    Spells ((factorText f.1 f.2).toList ++ r) (factorWords f ++ ws) := by
  rw [factorText_toList, factorWords, List.append_assoc, List.cons_append]
  split
  · exact h.name hname hr
  · have hnumeral : Numeral .integer f.2.natAbs.repr.toList ⟨f.2.natAbs, 0⟩ :=
      .integer (Digits.writes_repr _)
    have hexponent := h.signed hnumeral hr f.2
    rw [String.ofList_toList] at hexponent
    have hcaret := hexponent.caret.name hname (Token.ends_cons (by decide) _)
    simpa only [List.cons_append, List.append_assoc, List.nil_append] using hcaret

theorem ends_factors (fs : List (String × Int)) :
    Ends (fs.flatMap fun f => ' ' :: (factorText f.1 f.2).toList) := by
  cases fs with
  | nil => exact Token.ends_nil
  | cons f fs => exact Token.ends_cons (by decide) _

theorem spells_factors {fs : List (String × Int)} (hfs : ∀ f ∈ fs, IsName f.1.toList) :
    Spells (fs.flatMap fun f => ' ' :: (factorText f.1 f.2).toList) (fs.flatMap factorWords) := by
  induction fs with
  | nil => exact Token.spells_nil
  | cons f fs ih =>
    obtain ⟨hf, hfs⟩ := List.forall_mem_cons.1 hfs
    rw [List.flatMap_cons, List.flatMap_cons, List.cons_append]
    exact (spells_factor hf (ih hfs) (ends_factors fs)).blank

end Dimension

theorem intercalate_blank (x : List Char) (xs : List (List Char)) :
    [' '].intercalate (x :: xs) = x ++ xs.flatMap (' ' :: ·) := by
  induction xs generalizing x with
  | nil => simp
  | cons y ys ih =>
    rw [List.intercalate_cons_cons, ih, List.flatMap_cons, List.append_assoc]
    rfl

/-- A unit that is not that of pure numbers is written as its factors with blanks between them. -/
theorem Dimension.exists_factors {d : Dimension} (h : d.isOne = false) :
    ∃ f fs, d.factors = f :: fs ∧ d.text.toList = (factorText f.1 f.2).toList ++
      fs.flatMap fun f => ' ' :: (factorText f.1 f.2).toList := by
  have hone := ne_true_of_eq_false h
  have hne : d.factors ≠ [] := by
    obtain ⟨f, hf⟩ := List.exists_mem_of_ne_nil _ (mt List.isEmpty_iff.2 hone)
    exact List.ne_nil_of_mem (mem_factors.2 hf)
  have htext : d.text = " ".intercalate (d.factors.map fun f => factorText f.1 f.2) := by
    rw [text, if_neg hone]
    rfl
  obtain ⟨f, fs, hfs⟩ := List.exists_cons_of_ne_nil hne
  have hblank : " ".toList = [' '] := rfl
  refine ⟨f, fs, hfs, ?_⟩
  rw [htext, hfs, String.toList_intercalate, List.map_map, List.map_cons, hblank,
    intercalate_blank, List.flatMap_map]
  rfl

namespace Value

/-- A value is written as its kind and then the powers of its base units, with a blank before
each. -/
theorem text_toList (v : Value) :
    v.text.toList = v.kind.text.toList ++
      v.unit.factors.flatMap fun f => ' ' :: (Dimension.factorText f.1 f.2).toList := by
  rw [text]
  split
  · rename_i hone
    have hnil : v.unit.exponents.entries = [] := List.isEmpty_iff.1 hone
    rw [Dimension.factors, hnil]
    simp
  · rename_i hone
    obtain ⟨f, fs, hfs, htext⟩ := Dimension.exists_factors (Bool.eq_false_iff.2 hone)
    rw [String.toList_append, String.toList_append, htext, hfs, List.flatMap_cons,
      List.append_assoc]
    rfl

/-- The text of a number is scanned into its sign, its numeral and the words of its unit. -/
theorem spells_text {v : Value} {n : Decimal} (hn : v.kind = .number n)
    (hnames : v.unit.Over fun name => IsName name.toList) {kind : Token.Kind} {d : Decimal}
    (hd : Numeral kind n.normalize.positional d) :
    Spells v.text.toList (signWords n.normalize.coefficient ++
      (kind, String.ofList n.normalize.positional) ::
        v.unit.factors.flatMap Dimension.factorWords) := by
  have hfactors : ∀ f ∈ v.unit.factors, IsName f.1.toList := fun f hf =>
    hnames f (Dimension.mem_factors.1 hf)
  rw [text_toList, hn]
  have hsigned := (Dimension.spells_factors hfactors).signed hd (Dimension.ends_factors _)
    n.normalize.coefficient
  simpa only [Kind.text, Decimal.plain, Decimal.signed, String.toList_ofList] using hsigned

end Value

/-! ### Names of units -/

namespace Token

theorem word?_of_munch {cs : List Char} (h : (munch cs).1 = .identifier) :
    word? cs = some (.identifier, (munch cs).2) := by
  rw [munch, munch?] at h ⊢
  cases hnumber : number? cs with
  | some r =>
    rw [hnumber] at h
    simp only [number?] at hnumber
    split at hnumber
    · cases hnumber
    · split at hnumber <;> cases hnumber <;> cases h
  | none =>
    rw [hnumber] at h
    cases hword : word? cs with
    | some r =>
      rw [hword] at h
      exact congrArg some (Prod.ext h rfl)
    | none =>
      rw [hword, symbol?.eq_def] at h
      split at h
      case h_20 =>
        simp only [comment?] at h
        split at h <;> cases h
      all_goals cases h

theorem word?_eq_some {cs : List Char} {kind : Kind} {n : Nat} (h : word? cs = some (kind, n)) :
    0 < n ∧ n = identifierLength cs ∧
      (endsKeyword (cs.drop n) = true → kind = keywordOrIdentifier (cs.take n)) := by
  simp only [word?] at h
  split at h
  · cases h
  · rename_i hpos
    split at h
    · cases h
      exact ⟨Nat.pos_of_ne_zero hpos, rfl, fun _ => rfl⟩
    · rename_i hends
      cases h
      exact ⟨Nat.pos_of_ne_zero hpos, rfl, fun h => absurd h hends⟩

/-- An identifier is scanned as far as its characters go. -/
theorem split_of_munch {c : Char} {cs : List Char} (h : (munch (c :: cs)).1 = .identifier) :
    isIdentifierStart c = true ∧
      (c :: cs).take (munch (c :: cs)).2 = c :: cs.takeWhile isIdentifierPart ∧
      (c :: cs).drop (munch (c :: cs)).2 = cs.dropWhile isIdentifierPart := by
  obtain ⟨hpos, hn, -⟩ := word?_eq_some (word?_of_munch h)
  rw [identifierLength] at hn
  split at hn
  · rename_i hstart
    have hcs : cs.takeWhile isIdentifierPart ++ cs.dropWhile isIdentifierPart = cs :=
      List.takeWhile_append_dropWhile
    rw [hn, Nat.add_comm, List.take_succ_cons, List.drop_succ_cons]
    refine ⟨hstart, congrArg _ ?_, ?_⟩
    · conv_lhs => arg 2; rw [← hcs]
      exact List.take_left
    · conv_lhs => arg 2; rw [← hcs]
      exact List.drop_left
  · omega

/-- An identifier at a place where a keyword ends is a name. -/
theorem isName_of_munch {c : Char} {cs : List Char} (h : (munch (c :: cs)).1 = .identifier)
    (hends : endsKeyword ((c :: cs).drop (munch (c :: cs)).2) = true) :
    IsName ((c :: cs).take (munch (c :: cs)).2) := by
  have hkind := (word?_eq_some (word?_of_munch h)).2.2 hends
  obtain ⟨hstart, htake, -⟩ := split_of_munch h
  refine ⟨⟨c, cs.takeWhile isIdentifierPart, htake, hstart, fun d hd => ?_⟩, ?_, ?_⟩
  · exact List.mem_takeWhile_imp hd
  · intro hunit
    rw [hunit] at hkind
    exact absurd hkind (by decide)
  · intro hprint
    rw [hprint] at hkind
    exact absurd hkind (by decide)

theorem word?_kind {cs : List Char} {k : Kind} {n : Nat} (h : word? cs = some (k, n)) :
    k ≠ .integer ∧ k ≠ .float := by
  simp only [word?, keywordOrIdentifier] at h
  split_ifs at h <;> cases h <;> decide

/-- A number begins with a digit. -/
theorem digit_of_munch {c : Char} {cs : List Char}
    (h : (munch (c :: cs)).1 = .integer ∨ (munch (c :: cs)).1 = .float) : c.isDigit = true := by
  by_contra hdigit
  have hnumber : number? (c :: cs) = none := by
    simp [number?, digitsLength_of_not_isDigit (Bool.not_eq_true _ ▸ hdigit)]
  rw [munch, munch?, hnumber, Option.none_or] at h
  cases hword : word? (c :: cs) with
  | some r =>
    rw [hword] at h
    obtain ⟨hinteger, hfloat⟩ := word?_kind hword
    exact h.elim hinteger hfloat
  | none =>
    rw [hword, Option.none_or, symbol?.eq_def] at h
    split at h
    case h_20 =>
      simp only [comment?] at h
      split at h <;> rcases h with h | h <;> cases h
    all_goals rcases h with h | h <;> cases h

/-- A character beyond ASCII that is no part of an identifier is a stray token. -/
theorem munch_stray {c : Char} (hwide : ¬ c.toNat < 0x80) (hpart : isIdentifierPart c = false)
    (cs : List Char) : (munch (c :: cs)).1 = .stray := by
  simp only [isIdentifierPart, Bool.or_eq_false_iff] at hpart
  have hnumber : number? (c :: cs) = none := by
    simp [number?, digitsLength_of_not_isDigit hpart.1.2]
  have hword : word? (c :: cs) = none := by simp [word?, identifierLength, hpart.1.1]
  have hsymbol : symbol? (c :: cs) = none := by
    rw [symbol?.eq_def]
    split
    case h_20 => rfl
    all_goals
      rename_i heq
      cases heq
      exact absurd (by decide) hwide
  have hcomment : comment? (c :: cs) = none := by
    have hsharp : c ≠ '#' := by
      rintro rfl
      exact hwide (by decide)
    simp [comment?, commentLength, hsharp]
  rw [munch, munch?, hnumber, hword, hsymbol, hcomment]
  rfl

/-- Every token is the longest lexeme at some place of the text, and what is scanned behind it is
among the tokens too. -/
theorem mem_lexemes {skip offset : Nat} {cs : List Char} {t : Token}
    (h : t ∈ lexemes skip offset cs) :
    ∃ start c ds, t = ofHead start (c :: ds) ∧
      ∃ next, lexemes 0 next ((c :: ds).drop (munch (c :: ds)).2) ⊆ lexemes skip offset cs := by
  induction cs generalizing skip offset with
  | nil => simp at h
  | cons c cs ih =>
    cases skip with
    | succ skip => exact ih h
    | zero =>
      rw [lexemes_cons] at h ⊢
      split at h
      · rename_i hblank
        rw [if_pos hblank]
        exact ih h
      · rename_i hblank
        rw [if_neg hblank]
        rcases List.mem_cons.1 h with rfl | h
        · have hdrop : (c :: cs).drop (munch (c :: cs)).2 = cs.drop ((munch (c :: cs)).2 - 1) := by
            rw [← Nat.sub_add_cancel (munch_fits c cs).pos, List.drop_succ_cons,
              Nat.add_sub_cancel]
          refine ⟨offset, c, cs, rfl,
            offset + c.utf8Size + byteLength (cs.take ((munch (c :: cs)).2 - 1)), ?_⟩
          rw [hdrop, ← lexemes_skip]
          exact List.subset_cons_self _ _
        · obtain ⟨start, d, ds, rfl, next, hnext⟩ := ih h
          exact ⟨start, d, ds, rfl, next, List.subset_cons_of_subset _ hnext⟩

/-- Among tokens of which none is stray, every identifier is a name: a character that turns a
keyword into an identifier is a token of its own. -/
theorem isName_of_mem {offset : Nat} {cs : List Char}
    (hstray : ∀ u ∈ content offset cs, u.kind ≠ .stray) {t : Token} (h : t ∈ content offset cs)
    (ht : t.kind = .identifier) : IsName t.lexeme.toList := by
  obtain ⟨start, c, ds, rfl, next, hnext⟩ := mem_lexemes (List.mem_filter.1 h).1
  have hends : endsKeyword ((c :: ds).drop (munch (c :: ds)).2) = true := by
    have hpart := List.head?_dropWhile_not isIdentifierPart ds
    rw [(split_of_munch ht).2.2] at hnext ⊢
    cases hrest : ds.dropWhile isIdentifierPart with
    | nil => rfl
    | cons d rest =>
      rw [hrest] at hpart hnext
      have hpart : isIdentifierPart d = false := by simpa using hpart
      by_contra hascii
      have hwide : ¬ d.toNat < 0x80 := by
        intro hlt
        rw [endsKeyword, decide_eq_true hlt, Bool.true_or] at hascii
        exact hascii rfl
      have hblank : isBlank d = false :=
        isBlank_eq_false (p := fun c => decide (¬ c.toNat < 0x80)) (decide_eq_true hwide)
          rfl rfl rfl
      have hkind := munch_stray hwide hpart rest
      rw [lexemes_cons, if_neg (by simp [hblank])] at hnext
      have hmem := hnext List.mem_cons_self
      exact hstray _ (List.mem_filter.2 ⟨hmem, by simp [ofHead, hkind]⟩) hkind
  rw [ofHead, String.toList_ofList]
  exact isName_of_munch ht hends

end Token

/-- The lines of a source are the contents of pieces of its text without newlines. -/
theorem TokenLine.exists_content {offset : Nat} {cs : List Char} {l : TokenLine}
    (h : l ∈ ofText offset cs) :
    ∃ before xs after, cs = before ++ xs ++ after ∧ '\n' ∉ xs ∧
      l.tokens = Token.content (offset + byteLength before) xs ∧ l.stop.kind.endsLine = true := by
  induction cs using Piece.text_induct generalizing offset with
  | last xs hxs =>
    rw [ofText_single hxs, List.mem_singleton] at h
    exact ⟨[], xs, [], (List.append_nil xs).symm, hxs, by rw [h]; rfl, by rw [h]; rfl⟩
  | line xs ys hxs ih =>
    rw [ofText_line hxs] at h
    rcases List.mem_cons.1 h with rfl | h
    · exact ⟨[], xs, '\n' :: ys, rfl, hxs, rfl, rfl⟩
    · obtain ⟨before, zs, after, rfl, hzs, htokens, hstop⟩ := ih h
      refine ⟨xs ++ '\n' :: before, zs, after, by simp, hzs, ?_, hstop⟩
      rw [htokens, byteLength_append, byteLength_cons, Nat.add_assoc offset, Nat.add_assoc,
        Nat.add_assoc]
      rfl

/-- A unit that a line declares has a name. -/
def Line.UnitNamed : Line → Prop
  | .unit name _ => IsName name.name.toList
  | .blank | .binding _ | .print _ _ | .expr _ => True

theorem Line.unitNamed_of_derives {source : String} {l : TokenLine}
    (hl : l ∈ TokenLine.ofSource source) {line : Line} (h : Grammar.DerivesLine l.tokens line) :
    line.UnitNamed := by
  rw [TokenLine.ofSource_eq] at hl
  obtain ⟨before, xs, -, -, -, htokens, -⟩ := TokenLine.exists_content hl
  cases line with
  | blank | binding | print | expr => trivial
  | unit name span =>
    obtain ⟨t, u, htu, -, hkind, rfl, -⟩ := Grammar.derivesLine_unit.1 h
    rw [htokens] at h
    exact Token.isName_of_mem h.not_stray (htokens ▸ htu ▸ by simp) hkind

namespace State

/-- All units that are declared have names. -/
def UnitsNamed (s : State) : Prop := ∀ name, s.units.contains name = true → IsName name.toList

theorem keeps_unitsNamed : Keeps Line.UnitNamed UnitsNamed (fun _ => True) fun _ => True where
  ok hs hl h := by
    refine ⟨?_, trivial⟩
    rcases runLine_eq_ok h with ⟨rfl, -⟩ | ⟨statement, hresolve, hexec⟩
    · exact hs
    · cases hexec with
      | declareVariable | declareFunction | print | eval => exact hs
      | declareUnit name span =>
        rw [resolve_declareUnit hresolve] at hl
        intro other hother
        rw [Table.contains_insert, Bool.or_eq_true, decide_eq_true_iff] at hother
        rcases hother with rfl | hother
        · exact hl
        · exact hs other hother
  error _ _ _ := trivial

theorem runProgram_unitsNamed {s : State} (hs : s.UnitsNamed) (source : String) :
    (s.runProgram source).1.UnitsNamed := by
  refine (keeps_unitsNamed.runProgram (fun lines hparse l hl => ?_) hs).1
  obtain ⟨tl, hmem, hline⟩ := parseProgram_derives hparse l hl
  exact Line.unitNamed_of_derives hmem hline

theorem session_unitsNamed (precision : Nat) (sources : List String) :
    (session precision sources).UnitsNamed := by
  have hinitial : (initial precision).UnitsNamed := by
    intro name h
    rw [initial, Table.contains, Table.find?_empty] at h
    cases h
  have hstep : ∀ s source, UnitsNamed s → UnitsNamed (s.runProgram source).1 :=
    fun s source hs => runProgram_unitsNamed hs source
  exact afterSources_induct hstep hinitial sources

end State

end UnitCalc
