import UnitCalc.Token.Lexer

/-! What the scan does with a text. Every lexeme lies inside the text, the last token and no other
marks the end of the input, and lines are scanned apart from each other: no lexeme reaches over a
newline, and no lexeme depends on what stands behind one. -/

namespace UnitCalc

theorem byteLength_pos {cs : List Char} (h : cs ≠ []) : 0 < byteLength cs := by
  cases cs with
  | nil => contradiction
  | cons c cs =>
    have hpos := c.utf8Size_pos
    rw [byteLength_cons]
    omega

namespace Token

/-! ### Lengths of lexemes -/

theorem length_takeWhile_le {p : Char → Bool} (cs : List Char) :
    (cs.takeWhile p).length ≤ cs.length :=
  (List.takeWhile_prefix p).length_le

theorem digitsLength_le (cs : List Char) : digitsLength cs ≤ cs.length := by
  cases cs with
  | nil => exact Nat.le_refl 0
  | cons c cs =>
    have h := length_takeWhile_le (p := isDigitPart) cs
    simp only [digitsLength, List.length_cons]
    split <;> omega

theorem exponentLength_le (cs : List Char) : exponentLength cs ≤ cs.length := by
  cases cs with
  | nil => exact Nat.le_refl 0
  | cons e cs =>
    rw [exponentLength.eq_def]
    simp only [List.length_cons]
    split
    · split
      · rename_i ds
        have h := digitsLength_le ds
        simp only [List.length_cons]
        split <;> omega
      · rename_i ds
        have h := digitsLength_le ds
        simp only [List.length_cons]
        split <;> omega
      · have h := digitsLength_le cs
        split <;> omega
    · exact Nat.zero_le _

theorem fractionLength_le (cs : List Char) : fractionLength cs ≤ cs.length := by
  rw [fractionLength.eq_def]
  split
  · rename_i ds
    have h := digitsLength_le ds
    simp only [List.length_cons]
    split <;> omega
  · exact Nat.zero_le _

theorem identifierLength_le (cs : List Char) : identifierLength cs ≤ cs.length := by
  cases cs with
  | nil => exact Nat.le_refl 0
  | cons c cs =>
    have h := length_takeWhile_le (p := isIdentifierPart) cs
    simp only [identifierLength, List.length_cons]
    split <;> omega

theorem commentLength_le (cs : List Char) : commentLength cs ≤ cs.length := by
  rw [commentLength.eq_def]
  split
  · rename_i cs
    have h := length_takeWhile_le (p := (· ≠ '\n')) cs
    simp only [List.length_cons]
    omega
  · exact Nat.zero_le _

/-! ### Lexemes -/

/-- What holds of any lexeme at the head of a text: it is not empty, it lies inside the text, and it
is a newline only where a newline stands. -/
structure Fits (cs : List Char) (kind : Kind) (n : Nat) : Prop where
  pos : 0 < n
  le : n ≤ cs.length
  kind_ne : kind ≠ .endOfInput
  newline : kind = .newline → cs.head? = some '\n'

theorem number?_fits {cs : List Char} {k : Kind} {n : Nat} (h : number? cs = some (k, n)) :
    Fits cs k n := by
  have hw := digitsLength_le cs
  have hf := fractionLength_le (cs.drop (digitsLength cs))
  have he := exponentLength_le
    (cs.drop (digitsLength cs + fractionLength (cs.drop (digitsLength cs))))
  rw [List.length_drop] at hf he
  simp only [number?] at h
  split at h
  · cases h
  · split at h
    all_goals
      cases h
      exact ⟨by omega, by omega, by decide, nofun⟩

theorem word?_fits {cs : List Char} {k : Kind} {n : Nat} (h : word? cs = some (k, n)) :
    Fits cs k n := by
  have hn := identifierLength_le cs
  have hkind : ∀ lexeme, keywordOrIdentifier lexeme = .unit ∨ keywordOrIdentifier lexeme = .print ∨
      keywordOrIdentifier lexeme = .identifier := by
    intro lexeme
    simp only [keywordOrIdentifier]
    split
    · exact .inl rfl
    · split
      · exact .inr (.inl rfl)
      · exact .inr (.inr rfl)
  simp only [word?] at h
  split at h
  · cases h
  · split at h
    · cases h
      rcases hkind (cs.take (identifierLength cs)) with hk | hk | hk <;> rw [hk]
      all_goals exact ⟨by omega, hn, by decide, nofun⟩
    · cases h
      exact ⟨by omega, hn, by decide, nofun⟩

theorem symbol?_fits {cs : List Char} {k : Kind} {n : Nat} (h : symbol? cs = some (k, n)) :
    Fits cs k n := by
  rw [symbol?.eq_def] at h
  split at h
  all_goals cases h
  case h_19 => exact ⟨by decide, by simp only [List.length_cons]; omega, by decide, fun _ => rfl⟩
  all_goals exact ⟨by decide, by simp only [List.length_cons]; omega, by decide, nofun⟩

theorem comment?_fits {cs : List Char} {k : Kind} {n : Nat} (h : comment? cs = some (k, n)) :
    Fits cs k n := by
  have hn := commentLength_le cs
  simp only [comment?] at h
  split at h
  · cases h
  · cases h
    exact ⟨by omega, hn, by decide, nofun⟩

theorem munch?_fits {cs : List Char} {k : Kind} {n : Nat} (h : munch? cs = some (k, n)) :
    Fits cs k n := by
  simp only [munch?, Option.or_eq_some_iff] at h
  rcases h with h | ⟨-, h | ⟨-, h | ⟨-, h⟩⟩⟩
  · exact number?_fits h
  · exact word?_fits h
  · exact symbol?_fits h
  · exact comment?_fits h

/-- The lexeme taken at a place that holds no blank; a stray character is one of its own. -/
def munch (cs : List Char) : Kind × Nat := (munch? cs).getD (.stray, 1)

theorem munch_fits (c : Char) (cs : List Char) :
    Fits (c :: cs) (munch (c :: cs)).1 (munch (c :: cs)).2 := by
  rw [munch]
  cases h : munch? (c :: cs) with
  | none =>
    exact ⟨by decide, by simp only [List.length_cons, Option.getD_none]; omega, by decide, nofun⟩
  | some kn => exact munch?_fits h

/-! ### Where lexemes end -/

/-- A character with which no lexeme but a comment goes on. -/
structure Breaks (d : Char) : Prop where
  digit : isDigitPart d = false
  part : isIdentifierPart d = false
  point : d ≠ '.'
  sign : ¬ (d = '+' ∨ d = '-')
  equal : d ≠ '='
  ascii : d.toNat < 0x80

theorem breaks_newline : Breaks '\n' := by constructor <;> decide

theorem breaks_closeParen : Breaks ')' := by constructor <;> decide

theorem Breaks.not_isDigit {d : Char} (hd : Breaks d) : d.isDigit = false :=
  (Bool.or_eq_false_iff.1 hd.digit).1

theorem Breaks.not_isIdentifierStart {d : Char} (hd : Breaks d) : isIdentifierStart d = false := by
  have hpart := hd.part
  simp only [isIdentifierPart, Bool.or_eq_false_iff] at hpart
  exact hpart.1.1

theorem takeWhile_break {p : Char → Bool} {d : Char} (hp : p d = false) (xs ys : List Char) :
    (xs ++ d :: ys).takeWhile p = xs.takeWhile p := by
  induction xs with
  | nil => simp [hp]
  | cons c xs ih =>
    rw [List.cons_append, List.takeWhile_cons, List.takeWhile_cons, ih]

theorem digitsLength_break {d : Char} (hd : Breaks d) (xs ys : List Char) :
    digitsLength (xs ++ d :: ys) = digitsLength xs := by
  cases xs with
  | nil => simp [digitsLength, hd.not_isDigit]
  | cons c xs => rw [List.cons_append, digitsLength, digitsLength, takeWhile_break hd.digit]

/-- The digits after the mark and the sign of an exponent. -/
theorem exponentLength_cons (e c : Char) (ds : List Char) :
    exponentLength (e :: c :: ds) =
      if e = 'e' || e = 'E' then
        if c = '+' ∨ c = '-' then if digitsLength ds = 0 then 0 else 2 + digitsLength ds
        else if digitsLength (c :: ds) = 0 then 0 else 1 + digitsLength (c :: ds)
      else 0 := by
  rw [exponentLength.eq_def]
  simp only
  split
  · split
    · rename_i heq
      cases heq
      rfl
    · rename_i heq
      cases heq
      rfl
    · rename_i hplus hminus
      have hsign : ¬ (c = '+' ∨ c = '-') := by
        rintro (rfl | rfl)
        · exact hplus ds rfl
        · exact hminus ds rfl
      rw [if_neg hsign]
  · rfl

theorem exponentLength_break {d : Char} (hd : Breaks d) (xs ys : List Char) :
    exponentLength (xs ++ d :: ys) = exponentLength xs := by
  have hnone : digitsLength (d :: ys) = 0 := by simp [digitsLength, hd.not_isDigit]
  match xs with
  | [] =>
    have hmark : (d = 'e' || d = 'E') = false := by
      rw [Bool.eq_false_iff]
      intro h
      have hpart := hd.part
      simp only [Bool.or_eq_true, decide_eq_true_eq] at h
      rcases h with rfl | rfl <;> exact absurd hpart (by decide)
    simp [exponentLength, hmark]
  | [e] =>
    rw [List.singleton_append, exponentLength_cons, if_neg hd.sign, hnone]
    simp [exponentLength, digitsLength]
  | e :: c :: ds =>
    have hcds := digitsLength_break hd (c :: ds) ys
    rw [List.cons_append] at hcds
    rw [List.cons_append, List.cons_append, exponentLength_cons, exponentLength_cons,
      digitsLength_break hd ds ys, hcds]

/-- Only a point begins a fraction. -/
theorem fractionLength_of_ne {c : Char} (hc : c ≠ '.') (cs : List Char) :
    fractionLength (c :: cs) = 0 := by
  rw [fractionLength.eq_def]
  split
  · rename_i heq
    exact absurd (List.cons.inj heq).1 hc
  · rfl

theorem fractionLength_break {d : Char} (hd : Breaks d) (xs ys : List Char) :
    fractionLength (xs ++ d :: ys) = fractionLength xs := by
  cases xs with
  | nil => exact fractionLength_of_ne hd.point ys
  | cons c ds =>
    rw [List.cons_append]
    by_cases hc : c = '.'
    · subst hc
      simp only [fractionLength, digitsLength_break hd ds ys]
    · rw [fractionLength_of_ne hc, fractionLength_of_ne hc]

theorem identifierLength_break {d : Char} (hd : Breaks d) (xs ys : List Char) :
    identifierLength (xs ++ d :: ys) = identifierLength xs := by
  cases xs with
  | nil => simp [identifierLength, hd.not_isIdentifierStart]
  | cons c xs =>
    rw [List.cons_append, identifierLength, identifierLength, takeWhile_break hd.part]

/-- Only a sharp begins a comment. -/
theorem commentLength_of_ne {c : Char} (hc : c ≠ '#') (cs : List Char) :
    commentLength (c :: cs) = 0 := by
  rw [commentLength.eq_def]
  split
  · rename_i heq
    exact absurd (List.cons.inj heq).1 hc
  · rfl

/-- A comment goes on with everything but a newline. -/
theorem commentLength_break {c d : Char} (h : c ≠ '#' ∨ d = '\n') (xs ys : List Char) :
    commentLength (c :: (xs ++ d :: ys)) = commentLength (c :: xs) := by
  by_cases hc : c = '#'
  · have hd : d = '\n' := h.resolve_left (not_not_intro hc)
    subst hc hd
    simp only [commentLength, takeWhile_break (p := (· ≠ '\n')) (d := '\n') (by decide)]
  · rw [commentLength_of_ne hc, commentLength_of_ne hc]

theorem drop_line {n : Nat} {xs : List Char} (h : n ≤ xs.length) (ys : List Char) :
    (xs ++ ys).drop n = xs.drop n ++ ys :=
  List.drop_append_of_le_length h

theorem number?_break {d : Char} (hd : Breaks d) (xs ys : List Char) :
    number? (xs ++ d :: ys) = number? xs := by
  have hw := digitsLength_le xs
  have hf := fractionLength_le (xs.drop (digitsLength xs))
  rw [List.length_drop] at hf
  simp only [number?, digitsLength_break hd]
  rw [drop_line hw, fractionLength_break hd, drop_line (by omega), exponentLength_break hd]

theorem word?_break {d : Char} (hd : Breaks d) (xs ys : List Char) :
    word? (xs ++ d :: ys) = word? xs := by
  have hn := identifierLength_le xs
  have hends : endsKeyword (xs.drop (identifierLength xs) ++ d :: ys) =
      endsKeyword (xs.drop (identifierLength xs)) := by
    cases xs.drop (identifierLength xs) with
    | nil => simp [endsKeyword, hd.ascii]
    | cons c cs => rfl
  simp only [word?, identifierLength_break hd]
  rw [drop_line hn, hends, List.take_append_of_le_length hn]

/-- Behind a character and an equals sign nothing counts. -/
theorem symbol?_double (c : Char) (cs ds : List Char) :
    symbol? (c :: '=' :: cs) = symbol? (c :: '=' :: ds) := by
  rw [symbol?.eq_def]
  split
  case h_20 =>
    refine (symbol?.eq_20 _ ?_ ?_ ?_ ?_ ?_ ?_ ?_ ?_ ?_ ?_ ?_ ?_ ?_ ?_ ?_ ?_ ?_ ?_ ?_).symm
    all_goals
      intro tail heq
      cases heq
      solve_by_elim
  all_goals
    rename_i heq
    cases heq
    solve_by_elim

/-- The characters that are a symbol together with an equals sign behind them. -/
def doubles : List Char := ['=', '!', '<', '>']

/-- Behind a character nothing counts but an equals sign that is a part of the symbol. -/
theorem symbol?_single {c : Char} {cs : List Char} (h : c ∈ doubles → ∀ tail, cs ≠ '=' :: tail) :
    symbol? (c :: cs) = symbol? [c] := by
  rw [symbol?.eq_def]
  split
  case h_1 | h_2 | h_3 | h_4 =>
    rename_i heq
    cases heq
    exact absurd rfl (h (by decide) _)
  case h_20 =>
    refine (symbol?.eq_20 _ ?_ ?_ ?_ ?_ ?_ ?_ ?_ ?_ ?_ ?_ ?_ ?_ ?_ ?_ ?_ ?_ ?_ ?_ ?_).symm
    case refine_1 | refine_2 | refine_3 | refine_4 => nofun
    all_goals
      intro tail heq
      cases heq
      solve_by_elim
  all_goals
    rename_i heq
    cases heq
    rfl

theorem symbol?_break {d : Char} (hd : Breaks d) (c : Char) (xs ys : List Char) :
    symbol? (c :: (xs ++ d :: ys)) = symbol? (c :: xs) := by
  have hne : ∀ {b : Char}, b ≠ '=' → ∀ ds tail : List Char, b :: ds ≠ '=' :: tail :=
    fun hb ds tail h => hb (List.cons.inj h).1
  cases xs with
  | nil => exact symbol?_single fun _ => hne hd.equal _
  | cons b xs =>
    rw [List.cons_append]
    by_cases hb : b = '='
    · subst hb
      exact symbol?_double c _ _
    · rw [symbol?_single fun _ => hne hb _, symbol?_single fun _ => hne hb _]

/-- A lexeme does not depend on what stands from a breaking character on. -/
theorem munch_break {c d : Char} (hd : Breaks d) (h : c ≠ '#' ∨ d = '\n') (xs ys : List Char) :
    munch (c :: (xs ++ d :: ys)) = munch (c :: xs) := by
  have hnumber := number?_break hd (c :: xs) ys
  have hword := word?_break hd (c :: xs) ys
  rw [List.cons_append] at hnumber hword
  rw [munch, munch, munch?, munch?, hnumber, hword, symbol?_break hd, comment?, comment?,
    commentLength_break h]

theorem munch_line (c : Char) (xs ys : List Char) :
    munch (c :: (xs ++ '\n' :: ys)) = munch (c :: xs) :=
  munch_break breaks_newline (.inr rfl) xs ys

theorem munch_newline (ys : List Char) : munch ('\n' :: ys) = (.newline, 1) := by
  have hnumber := number?_break breaks_newline [] ys
  have hword := word?_break breaks_newline [] ys
  rw [List.nil_append] at hnumber hword
  rw [munch, munch?, hnumber, hword]
  rfl

/-! ### The lexemes of a text -/

/-- The token that marks the end of a text. -/
def endToken (offset : Nat) : Token := ⟨.endOfInput, "", ⟨offset, offset⟩⟩

def newlineToken (offset : Nat) : Token := ⟨.newline, "\n", ⟨offset, offset + 1⟩⟩

/-- The token of the lexeme at the head of a text. -/
def ofHead (offset : Nat) (cs : List Char) : Token :=
  ⟨(munch cs).1, String.ofList (cs.take (munch cs).2),
    ⟨offset, offset + byteLength (cs.take (munch cs).2)⟩⟩

/-- What the scan finds before the end of the text. -/
def lexemes (skip offset : Nat) (cs : List Char) : List Token := (scan skip offset cs).1.dropLast

theorem scan_cons (offset : Nat) (c : Char) (cs : List Char) :
    (scan 0 offset (c :: cs)).1 =
      if isBlank c then (scan 0 (offset + c.utf8Size) cs).1
      else
        ofHead offset (c :: cs) ::
          (scan ((munch (c :: cs)).2 - 1) (offset + c.utf8Size) cs).1 := by
  rw [scan, ofHead, munch]
  split
  · rfl
  · cases munch? (c :: cs) <;> rfl

/-- The last token marks the end of the text. -/
theorem scan_eq (skip offset : Nat) (cs : List Char) :
    (scan skip offset cs).1 = lexemes skip offset cs ++ [endToken (offset + byteLength cs)] := by
  have hlast : (scan skip offset cs).1.getLast? = some (endToken (offset + byteLength cs)) := by
    induction cs generalizing skip offset with
    | nil => rfl
    | cons c cs ih =>
      rw [byteLength_cons, ← Nat.add_assoc]
      cases skip with
      | succ skip => exact ih skip _
      | zero =>
        rw [scan_cons]
        split
        · exact ih 0 _
        · rw [List.getLast?_cons, ih]
          rfl
  obtain ⟨ts, hts⟩ := List.getLast?_eq_some_iff.1 hlast
  rw [lexemes, hts, List.dropLast_concat]

@[simp] theorem lexemes_nil (skip offset : Nat) : lexemes skip offset [] = [] := by
  cases skip <;> rfl

theorem lexemes_cons (offset : Nat) (c : Char) (cs : List Char) :
    lexemes 0 offset (c :: cs) =
      if isBlank c then lexemes 0 (offset + c.utf8Size) cs
      else
        ofHead offset (c :: cs) :: lexemes ((munch (c :: cs)).2 - 1) (offset + c.utf8Size) cs := by
  rw [lexemes, scan_cons]
  split
  · rfl
  · rw [scan_eq, ← List.cons_append, List.dropLast_concat]

/-- Skipping characters is looking for lexemes behind them. -/
theorem lexemes_skip (skip offset : Nat) (cs : List Char) :
    lexemes skip offset cs = lexemes 0 (offset + byteLength (cs.take skip)) (cs.drop skip) := by
  rw [lexemes, scan_skip]
  rfl

/-- Where a lexeme stands: between two pieces of the text, and it is not empty. -/
def Stands (offset : Nat) (cs : List Char) (t : Token) : Prop :=
  ∃ before lexeme after, cs = before ++ lexeme ++ after ∧ lexeme ≠ [] ∧
    t.lexeme = String.ofList lexeme ∧
    t.span = ⟨offset + byteLength before, offset + byteLength before + byteLength lexeme⟩

theorem Stands.cons {offset : Nat} {cs : List Char} {t : Token} {c : Char}
    (h : Stands (offset + c.utf8Size) cs t) : Stands offset (c :: cs) t := by
  obtain ⟨before, lexeme, after, rfl, hne, hlexeme, hspan⟩ := h
  refine ⟨c :: before, lexeme, after, rfl, hne, hlexeme, ?_⟩
  rw [hspan, byteLength_cons, Nat.add_assoc offset]

theorem ofHead_stands (offset : Nat) (c : Char) (cs : List Char) :
    Stands offset (c :: cs) (ofHead offset (c :: cs)) := by
  have hfits := munch_fits c cs
  refine ⟨[], (c :: cs).take (munch (c :: cs)).2, (c :: cs).drop (munch (c :: cs)).2, ?_, ?_, rfl,
    rfl⟩
  · rw [List.nil_append, List.take_append_drop]
  · intro hnil
    have hlength := congrArg List.length hnil
    have hpos := hfits.pos
    rw [List.length_take, List.length_cons, List.length_nil] at hlength
    omega

/-- What holds of every lexeme: it stands in the text, no lexeme marks the end of the input, and
only a text with a newline has a lexeme that is one. -/
theorem lexemes_spec {skip offset : Nat} {cs : List Char} {t : Token}
    (h : t ∈ lexemes skip offset cs) :
    Stands offset cs t ∧ t.kind ≠ .endOfInput ∧ (t.kind = .newline → '\n' ∈ cs) := by
  induction cs generalizing skip offset with
  | nil => simp at h
  | cons c cs ih =>
    have hlater : ∀ {skip}, t ∈ lexemes skip (offset + c.utf8Size) cs →
        Stands offset (c :: cs) t ∧ t.kind ≠ .endOfInput ∧ (t.kind = .newline → '\n' ∈ c :: cs) :=
      fun ht => ⟨(ih ht).1.cons, (ih ht).2.1, fun hk => List.mem_cons_of_mem c ((ih ht).2.2 hk)⟩
    cases skip with
    | succ skip => exact hlater h
    | zero =>
      rw [lexemes_cons] at h
      split at h
      · exact hlater h
      · rcases List.mem_cons.1 h with rfl | h
        · have hfits := munch_fits c cs
          refine ⟨ofHead_stands offset c cs, hfits.kind_ne, fun hk => ?_⟩
          exact List.mem_of_head? (hfits.newline hk)
        · exact hlater h

/-- Lines are scanned apart from each other. -/
theorem lexemes_line {skip : Nat} {xs : List Char} (hskip : skip ≤ xs.length) (offset : Nat)
    (ys : List Char) :
    lexemes skip offset (xs ++ '\n' :: ys) =
      lexemes skip offset xs ++ newlineToken (offset + byteLength xs) ::
        lexemes 0 (offset + byteLength xs + 1) ys := by
  induction xs generalizing skip offset with
  | nil =>
    cases Nat.le_zero.1 hskip
    have hhead : ofHead offset ('\n' :: ys) = newlineToken offset := by
      rw [ofHead, munch_newline]
      rfl
    rw [List.nil_append, lexemes_cons, hhead, munch_newline]
    rfl
  | cons c xs ih =>
    rw [byteLength_cons, ← Nat.add_assoc]
    cases skip with
    | succ skip => exact ih (Nat.le_of_succ_le_succ hskip) _
    | zero =>
      have hle := (munch_fits c xs).le
      have hhead : ofHead offset (c :: (xs ++ '\n' :: ys)) = ofHead offset (c :: xs) := by
        rw [ofHead, munch_line, ← List.cons_append, List.take_append_of_le_length hle]
        rfl
      rw [List.cons_append, lexemes_cons, lexemes_cons, munch_line, hhead]
      rw [List.length_cons] at hle
      split
      · exact ih (Nat.zero_le _) _
      · rw [ih (by omega), List.cons_append]

end Token

end UnitCalc
