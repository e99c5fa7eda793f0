import Mathlib.Computability.Language
import UnitCalc.Proofs.Excerpts

/-! The rules of the tokens. Every kind of token has a rule, the language of the texts that it may
be, and a token is the longest text at its place that any rule allows. The letters of a keyword are
allowed by the rule of identifiers too. They are a keyword at the end of the source and in front of
a byte with which no identifier goes on, and an identifier in front of all other characters, even of
such as stand in no identifier. -/

namespace UnitCalc

namespace Token

open scoped Computability

/-! ### Rules -/

/-- The texts of a single character of a class. -/
def single (p : Char → Bool) : Language Char := {w | ∃ c, p c = true ∧ w = [c]}

/-- A digit, and then digits and underscores. -/
def digitsRule : Language Char := single Char.isDigit * (single isDigitPart)∗

/-- The mark of an exponent, a sign if there is one, and digits. -/
def exponentRule : Language Char :=
  single (fun c => c = 'e' || c = 'E') * (1 + single fun c => c = '+' || c = '-') * digitsRule

/-- The texts that a token of some kind may be. A number with a point or an exponent has one of two
forms, and neither the end of the input nor a stray character has a rule. -/
def rule : Kind → Language Char
  | .unit => {"unit".toList} | .print => {"print".toList}
  | .integer => digitsRule
  | .float => digitsRule * {['.']} * digitsRule * (1 + exponentRule) + digitsRule * exponentRule
  | .identifier => single isIdentifierStart * (single isIdentifierPart)∗
  | .plus => {['+']} | .minus => {['-']} | .star => {['*']} | .slash => {['/']}
  | .percent => {['%']} | .caret => {['^']}
  | .equal => {['=']} | .doubleEqual => {['=', '=']} | .notEqual => {['!', '=']}
  | .less => {['<']} | .greater => {['>']} | .lessEqual => {['<', '=']}
  | .greaterEqual => {['>', '=']}
  | .openParen => {['(']} | .closeParen => {[')']} | .openBracket => {['[']}
  | .closeBracket => {[']']} | .comma => {[',']}
  | .comment => {['#']} * (single (· ≠ '\n'))∗
  | .newline => {['\n']}
  | .endOfInput | .stray => 0

theorem mem_text {w v : List Char} : w ∈ ({v} : Language Char) ↔ w = v := Iff.rfl

theorem mem_star_single {p : Char → Bool} {w : List Char} :
    w ∈ (single p)∗ ↔ ∀ c ∈ w, p c = true := by
  rw [Language.mem_kstar]
  constructor
  · rintro ⟨ws, rfl, hws⟩ c hc
    obtain ⟨v, hv, hcv⟩ := List.mem_flatten.1 hc
    obtain ⟨d, hd, rfl⟩ := hws v hv
    rwa [List.mem_singleton.1 hcv]
  · intro hw
    refine ⟨w.map fun c => [c], (List.flatMap_singleton' w).symm, fun v hv => ?_⟩
    obtain ⟨c, hc, rfl⟩ := List.mem_map.1 hv
    exact ⟨c, hw c hc, rfl⟩

/-- A first character of one class and then characters of another. -/
theorem mem_run {p q : Char → Bool} {w : List Char} :
    w ∈ single p * (single q)∗ ↔ ∃ c cs, w = c :: cs ∧ p c = true ∧ ∀ d ∈ cs, q d = true := by
  rw [Language.mem_mul]
  constructor
  · rintro ⟨_, ⟨c, hc, rfl⟩, cs, hcs, rfl⟩
    exact ⟨c, cs, rfl, hc, mem_star_single.1 hcs⟩
  · rintro ⟨c, cs, rfl, hc, hcs⟩
    exact ⟨[c], ⟨c, hc, rfl⟩, cs, mem_star_single.2 hcs, rfl⟩

theorem mem_comment {w : List Char} :
    w ∈ rule .comment ↔ ∃ cs, w = '#' :: cs ∧ ∀ d ∈ cs, decide (d ≠ '\n') = true := by
  rw [rule, Language.mem_mul]
  constructor
  · rintro ⟨_, rfl, cs, hcs, rfl⟩
    exact ⟨cs, rfl, mem_star_single.1 hcs⟩
  · rintro ⟨cs, rfl, hcs⟩
    exact ⟨['#'], rfl, cs, mem_star_single.2 hcs, rfl⟩

/-- The forms of an exponent. -/
theorem mem_exponent {w : List Char} :
    w ∈ exponentRule ↔ ∃ e ds, (e = 'e' ∨ e = 'E') ∧ ds ∈ digitsRule ∧
      (w = e :: ds ∨ ∃ sign, (sign = '+' ∨ sign = '-') ∧ w = e :: sign :: ds) := by
  simp only [exponentRule, Language.mem_mul]
  constructor
  · rintro ⟨_, ⟨_, ⟨e, he, rfl⟩, _, hsign | ⟨sign, hsign, rfl⟩, rfl⟩, ds, hds, rfl⟩
    · cases hsign
      exact ⟨e, ds, by simpa using he, hds, .inl rfl⟩
    · exact ⟨e, ds, by simpa using he, hds, .inr ⟨sign, by simpa using hsign, rfl⟩⟩
  · rintro ⟨e, ds, he, hds, rfl | ⟨sign, hsign, rfl⟩⟩
    · exact ⟨[e], ⟨[e], ⟨e, by simpa using he, rfl⟩, [], .inl rfl, rfl⟩, ds, hds, rfl⟩
    · exact ⟨[e, sign], ⟨[e], ⟨e, by simpa using he, rfl⟩, [sign],
        .inr ⟨sign, by simpa using hsign, rfl⟩, rfl⟩, ds, hds, rfl⟩

/-- The forms of a number that is not an integer. -/
theorem mem_float {w : List Char} :
    w ∈ rule .float ↔ ∃ ds ∈ digitsRule,
      (∃ fs ∈ digitsRule, ∃ x, (x = [] ∨ x ∈ exponentRule) ∧ w = ds ++ '.' :: (fs ++ x)) ∨
        ∃ x ∈ exponentRule, w = ds ++ x := by
  rw [rule, Language.mem_add]
  constructor
  · rintro (⟨_, ⟨_, ⟨ds, hds, _, rfl, rfl⟩, fs, hfs, rfl⟩, x, hx, rfl⟩ | ⟨ds, hds, x, hx, rfl⟩)
    · exact ⟨ds, hds, .inl ⟨fs, hfs, x, hx, by simp⟩⟩
    · exact ⟨ds, hds, .inr ⟨x, hx, rfl⟩⟩
  · rintro ⟨ds, hds, ⟨fs, hfs, x, hx, rfl⟩ | ⟨x, hx, rfl⟩⟩
    · exact .inl ⟨_, ⟨_, ⟨ds, hds, ['.'], rfl, rfl⟩, fs, hfs, rfl⟩, x, hx, by simp⟩
    · exact .inr ⟨ds, hds, x, hx, rfl⟩

/-! ### A lexeme is in its rule -/

theorem takeWhile_eq_take {q : Char → Bool} (cs : List Char) :
    cs.take (cs.takeWhile q).length = cs.takeWhile q :=
  (List.prefix_iff_eq_take.1 (List.takeWhile_prefix q)).symm

theorem take_run {p q : Char → Bool} {c : Char} (hc : p c = true) (cs : List Char) :
    (c :: cs).take (1 + (cs.takeWhile q).length) ∈ single p * (single q)∗ := by
  rw [Nat.add_comm, List.take_succ_cons, takeWhile_eq_take]
  exact mem_run.2 ⟨c, _, rfl, hc, fun d hd => List.mem_takeWhile_imp hd⟩

theorem take_digitsLength {cs : List Char} (h : digitsLength cs ≠ 0) :
    cs.take (digitsLength cs) ∈ digitsRule := by
  cases cs with
  | nil => exact absurd rfl h
  | cons c cs =>
    rw [digitsLength] at h ⊢
    split at h
    · rename_i hc
      rw [if_pos hc]
      exact take_run hc cs
    · exact absurd rfl h

theorem take_fractionLength (cs : List Char) (h : fractionLength cs ≠ 0) :
    ∃ ds ∈ digitsRule, cs.take (fractionLength cs) = '.' :: ds := by
  cases cs with
  | nil => exact absurd rfl h
  | cons c cs =>
    by_cases hc : c = '.'
    · subst hc
      rw [fractionLength] at h ⊢
      split at h
      · exact absurd rfl h
      · rename_i hdigits
        refine ⟨_, take_digitsLength hdigits, ?_⟩
        rw [if_neg hdigits, Nat.add_comm, List.take_succ_cons]
    · exact absurd (fractionLength_of_ne hc cs) h

theorem take_exponentLength (cs : List Char) (h : exponentLength cs ≠ 0) :
    cs.take (exponentLength cs) ∈ exponentRule := by
  match cs with
  | [] => exact absurd rfl h
  | [e] => simp [exponentLength, digitsLength] at h
  | e :: c :: ds =>
    rw [exponentLength_cons] at h ⊢
    split at h
    · rename_i he
      rw [if_pos he]
      have he : e = 'e' ∨ e = 'E' := by simpa using he
      split at h
      · rename_i hsign
        rw [if_pos hsign]
        split at h
        · exact absurd rfl h
        · rename_i hdigits
          rw [if_neg hdigits, Nat.add_comm 2]
          exact mem_exponent.2 ⟨e, _, he, take_digitsLength hdigits, .inr ⟨c, hsign, rfl⟩⟩
      · rename_i hsign
        rw [if_neg hsign]
        split at h
        · exact absurd rfl h
        · rename_i hdigits
          rw [if_neg hdigits, Nat.add_comm 1, List.take_succ_cons]
          exact mem_exponent.2 ⟨e, _, he, take_digitsLength hdigits, .inl rfl⟩
    · exact absurd rfl h

theorem number?_mem_rule {cs : List Char} {k : Kind} {n : Nat} (h : number? cs = some (k, n)) :
    cs.take n ∈ rule k := by
  simp only [number?] at h
  split at h
  · cases h
  · rename_i hwhole
    have hdigits := take_digitsLength hwhole
    generalize digitsLength cs = whole at h hdigits
    have hfraction := take_fractionLength (cs.drop whole)
    generalize fractionLength (cs.drop whole) = fraction at h hfraction
    have hexponent := take_exponentLength (cs.drop (whole + fraction))
    generalize exponentLength (cs.drop (whole + fraction)) = exponent at h hexponent
    split at h
    · cases h
      exact hdigits
    · rename_i hsome
      cases h
      rw [List.take_add, List.take_add]
      by_cases hpoint : fraction = 0
      · subst hpoint
        refine mem_float.2 ⟨_, hdigits, .inr ⟨_, hexponent (by omega), ?_⟩⟩
        rw [List.take_zero, List.append_nil]
      · obtain ⟨ds, hds, htake⟩ := hfraction hpoint
        refine mem_float.2 ⟨_, hdigits, .inl ⟨ds, hds, (cs.drop (whole + fraction)).take exponent,
          ?_, ?_⟩⟩
        · by_cases hnone : exponent = 0
          · exact .inl (by rw [hnone, List.take_zero])
          · exact .inr (hexponent hnone)
        · rw [htake, List.append_assoc, List.cons_append]

/-- The kind of a keyword or an identifier, by what stands behind it. -/
theorem word?_mem_rule {cs : List Char} {k : Kind} {n : Nat} (h : word? cs = some (k, n)) :
    cs.take n ∈ rule .identifier ∧
      k = if endsKeyword (cs.drop n) then keywordOrIdentifier (cs.take n) else .identifier := by
  simp only [word?] at h
  split at h
  · cases h
  · rename_i hlength
    have hrule : cs.take (identifierLength cs) ∈ rule .identifier := by
      cases cs with
      | nil => exact absurd rfl hlength
      | cons c cs =>
        rw [identifierLength] at hlength ⊢
        split at hlength
        · rename_i hc
          rw [if_pos hc]
          exact take_run hc cs
        · exact absurd rfl hlength
    split at h
    · rename_i hends
      cases h
      exact ⟨hrule, (if_pos hends).symm⟩
    · rename_i hends
      cases h
      exact ⟨hrule, (if_neg hends).symm⟩

theorem mem_rule_keywordOrIdentifier {w : List Char} (h : w ∈ rule .identifier) :
    w ∈ rule (keywordOrIdentifier w) := by
  rw [keywordOrIdentifier]
  split
  · assumption
  · split
    · assumption
    · exact h

theorem symbol?_mem_rule {cs : List Char} {k : Kind} {n : Nat} (h : symbol? cs = some (k, n)) :
    cs.take n ∈ rule k := by
  rw [symbol?.eq_def] at h
  split at h
  case h_20 => cases h
  all_goals
    cases h
    rfl

theorem comment?_mem_rule {cs : List Char} {k : Kind} {n : Nat} (h : comment? cs = some (k, n)) :
    cs.take n ∈ rule k := by
  simp only [comment?] at h
  split at h
  · cases h
  · rename_i hlength
    cases h
    cases cs with
    | nil => exact absurd rfl hlength
    | cons c cs =>
      by_cases hc : c = '#'
      · subst hc
        rw [commentLength, Nat.add_comm, List.take_succ_cons, takeWhile_eq_take]
        exact mem_comment.2 ⟨_, rfl, fun d => List.mem_takeWhile_imp (p := (· ≠ '\n'))⟩
      · exact absurd (commentLength_of_ne hc cs) hlength

theorem munch?_mem_rule {cs : List Char} {k : Kind} {n : Nat} (h : munch? cs = some (k, n)) :
    cs.take n ∈ rule k := by
  simp only [munch?, Option.or_eq_some_iff] at h
  rcases h with h | ⟨-, h | ⟨-, h | ⟨-, h⟩⟩⟩
  · exact number?_mem_rule h
  · obtain ⟨hrule, rfl⟩ := word?_mem_rule h
    split
    · exact mem_rule_keywordOrIdentifier hrule
    · exact hrule
  · exact symbol?_mem_rule h
  · exact comment?_mem_rule h

/-! ### A text of a rule is a lexeme by itself -/

theorem digitsLength_mem {ds r : List Char} (hds : ds ∈ digitsRule)
    (hr : ∀ c ∈ r.head?, isDigitPart c = false) : digitsLength (ds ++ r) = ds.length := by
  obtain ⟨c, cs, rfl, hc, hcs⟩ := mem_run.1 hds
  rw [List.cons_append, digitsLength, if_pos hc, (span_run hcs hr).1, List.length_cons,
    Nat.add_comm]

theorem digitsLength_self {ds : List Char} (hds : ds ∈ digitsRule) :
    digitsLength ds = ds.length := by
  have hlength := digitsLength_mem (r := []) hds nofun
  rwa [List.append_nil] at hlength

theorem length_digits_ne_zero {ds : List Char} (hds : ds ∈ digitsRule) : ds.length ≠ 0 := by
  obtain ⟨c, cs, rfl, -⟩ := mem_run.1 hds
  exact Nat.succ_ne_zero _

theorem exponentLength_mem {x : List Char} (hx : x ∈ exponentRule) :
    exponentLength x = x.length := by
  obtain ⟨e, ds, he, hds, rfl | ⟨sign, hsign, rfl⟩⟩ := mem_exponent.1 hx
  · have hpos := length_digits_ne_zero hds
    have hlength := digitsLength_self hds
    obtain ⟨c, cs, rfl, hc, -⟩ := mem_run.1 hds
    have hsign : ¬ (c = '+' ∨ c = '-') := by
      rintro (rfl | rfl) <;> exact absurd hc (by decide)
    rw [exponentLength_cons, if_pos (by simpa using he), if_neg hsign, hlength, if_neg hpos,
      List.length_cons (a := e), Nat.add_comm]
  · rw [exponentLength_cons, if_pos (by simpa using he), if_pos hsign, digitsLength_self hds,
      if_neg (length_digits_ne_zero hds), List.length_cons, List.length_cons, Nat.add_comm]

/-- Neither digits nor a fraction go on with an exponent. -/
theorem head_exponent {x : List Char} (hx : x = [] ∨ x ∈ exponentRule) :
    ∀ c ∈ x.head?, isDigitPart c = false ∧ c ≠ '.' := by
  rcases hx with rfl | hx
  · nofun
  · obtain ⟨e, ds, he, -, rfl | ⟨sign, -, rfl⟩⟩ := mem_exponent.1 hx
    all_goals
      rintro _ ⟨⟩
      rcases he with rfl | rfl <;> decide

/-- A number is scanned part by part: the digits, the fraction `fs` and the exponent `x`. -/
theorem number?_append {ds : List Char} (fs x : List Char) (hds : ds ∈ digitsRule)
    (hhead : ∀ c ∈ (fs ++ x).head?, isDigitPart c = false)
    (hfs : fractionLength (fs ++ x) = fs.length) (hx : exponentLength x = x.length) :
    ∃ kind, number? (ds ++ (fs ++ x)) = some (kind, (ds ++ (fs ++ x)).length) := by
  simp only [number?, digitsLength_mem hds hhead, List.drop_left, hfs, ← List.drop_drop, hx,
    if_neg (length_digits_ne_zero hds), List.length_append]
  split
  · exact ⟨_, by rw [show fs.length + x.length = 0 by assumption, Nat.add_zero]⟩
  · exact ⟨_, by rw [Nat.add_assoc]⟩

theorem number?_of_integer {v : List Char} (hv : v ∈ rule .integer) :
    ∃ kind, number? v = some (kind, v.length) := by
  have hnumber := number?_append [] [] hv nofun rfl rfl
  rwa [List.append_nil, List.append_nil] at hnumber

theorem number?_of_float {v : List Char} (hv : v ∈ rule .float) :
    ∃ kind, number? v = some (kind, v.length) := by
  obtain ⟨ds, hds, ⟨fs, hfs, x, hx, rfl⟩ | ⟨x, hx, rfl⟩⟩ := mem_float.1 hv
  · have hfraction : fractionLength ('.' :: (fs ++ x)) = 1 + fs.length := by
      rw [fractionLength, digitsLength_mem hfs fun c hc => (head_exponent hx c hc).1,
        if_neg (length_digits_ne_zero hfs)]
    have hexponent : exponentLength x = x.length := by
      rcases hx with rfl | hx
      · rfl
      · exact exponentLength_mem hx
    refine number?_append ('.' :: fs) x hds ?_ ?_ hexponent
    · rintro _ ⟨⟩
      rfl
    · rw [List.cons_append, hfraction, List.length_cons, Nat.add_comm]
  · have hhead := head_exponent (.inr hx)
    refine number?_append [] x hds (fun c hc => (hhead c hc).1) ?_ (exponentLength_mem hx)
    rw [List.nil_append, List.length_nil]
    cases x with
    | nil => rfl
    | cons c x => exact fractionLength_of_ne (hhead c rfl).2 x

theorem munch?_of_isIdentifierStart {c : Char} (hc : isIdentifierStart c = true)
    (cs : List Char) : munch? (c :: cs) = word? (c :: cs) := by
  have hnumber : number? (c :: cs) = none := by
    simp [number?, digitsLength_of_not_isDigit (not_isDigit_of_isIdentifierStart hc)]
  have hlength : identifierLength (c :: cs) ≠ 0 := by
    rw [identifierLength, if_pos hc]
    omega
  rw [munch?, hnumber, Option.none_or]
  simp only [word?, if_neg hlength]
  split <;> rfl

theorem munch?_of_identifier {v : List Char} (hv : v ∈ rule .identifier) :
    ∃ kind, munch? v = some (kind, v.length) := by
  obtain ⟨c, cs, rfl, hc, hcs⟩ := mem_run.1 hv
  have hlength : identifierLength (c :: cs) = cs.length + 1 := by
    rw [identifierLength, if_pos hc, List.takeWhile_eq_self_iff.2 hcs, Nat.add_comm]
  rw [munch?_of_isIdentifierStart hc, word?]
  simp only [hlength, if_neg (Nat.succ_ne_zero cs.length), List.length_cons]
  split
  · exact ⟨_, rfl⟩
  · exact ⟨_, rfl⟩

theorem munch?_of_comment {v : List Char} (hv : v ∈ rule .comment) :
    ∃ kind, munch? v = some (kind, v.length) := by
  obtain ⟨cs, rfl, hcs⟩ := mem_comment.1 hv
  have hlength : commentLength ('#' :: cs) = ('#' :: cs).length := by
    rw [commentLength, List.takeWhile_eq_self_iff.2 hcs, List.length_cons, Nat.add_comm]
  refine ⟨.comment, ?_⟩
  rw [munch?, comment?, hlength]
  rfl

theorem munch?_of_mem_rule {k : Kind} {v : List Char} (hv : v ∈ rule k) :
    ∃ kind, munch? v = some (kind, v.length) := by
  cases k with
  | integer =>
    obtain ⟨kind, hnumber⟩ := number?_of_integer hv
    exact ⟨kind, by rw [munch?, hnumber, Option.some_or]⟩
  | float =>
    obtain ⟨kind, hnumber⟩ := number?_of_float hv
    exact ⟨kind, by rw [munch?, hnumber, Option.some_or]⟩
  | identifier => exact munch?_of_identifier hv
  | comment => exact munch?_of_comment hv
  | endOfInput | stray => exact absurd hv (Language.notMem_zero v)
  | _ =>
    rw [mem_text.1 hv]
    exact ⟨_, rfl⟩

/-- No rule allows a longer text than the lexeme taken: if one did, the lexeme would be the same in
that text alone, which is a lexeme as a whole. -/
theorem length_le_munch? {k : Kind} {v : List Char} (hv : v ∈ rule k) (r : List Char) :
    ∃ kind n, munch? (v ++ r) = some (kind, n) ∧ v.length ≤ n := by
  obtain ⟨kind, hmunch⟩ := munch?_of_mem_rule hv
  by_contra hnone
  have hshort : ∀ m ∈ munch? (v ++ r), m.2 < v.length := by
    intro m hm
    by_contra hle
    exact hnone ⟨m.1, m.2, hm, Nat.le_of_not_lt hle⟩
  have hlocal : LocalAt munch? v r := by
    cases v with
    | nil => exact absurd (munch?_fits hmunch).pos (Nat.lt_irrefl 0)
    | cons c w => exact munch?_local fun hsame => absurd (hshort _ hsame) (Nat.lt_irrefl _)
  have hsame := hlocal fun m hm => Nat.le_of_lt (hshort m hm)
  exact hnone ⟨kind, v.length, hsame.symm.trans hmunch, Nat.le_refl _⟩

/-! ### Tokens -/

/-- Every token is the lexeme taken where it starts. -/
theorem Tiles.munched {offset : Nat} {cs : List Char} {ts : List Token} (h : Tiles offset cs ts) :
    ∀ t ∈ ts, ∃ before c rest, cs = before ++ c :: rest ∧
      t = ofHead (offset + byteLength before) (c :: rest) := by
  induction h with
  | done => nofun
  | @blank offset c cs ts _ _ ih =>
    intro t ht
    obtain ⟨before, d, rest, rfl, rfl⟩ := ih t ht
    exact ⟨c :: before, d, rest, rfl, by rw [byteLength_cons, Nat.add_assoc]⟩
  | @lexeme offset kind c w cs ts _ hmunch _ ih =>
    refine List.forall_mem_cons.2 ⟨⟨[], c, w ++ cs, rfl, ?_⟩, fun t ht => ?_⟩
    · rw [List.cons_append] at hmunch
      rw [ofHead, hmunch, ← List.cons_append, ← List.length_cons (a := c), List.take_left]
      rfl
    · obtain ⟨before, d, rest, rfl, rfl⟩ := ih t ht
      exact ⟨c :: w ++ before, d, rest, (List.append_assoc ..).symm,
        by rw [byteLength_append, Nat.add_assoc]⟩

/-- At the head of a text stands `w`, which the rule of `k` allows, and no rule allows more. -/
structure LongestMatch (rest : List Char) (k : Kind) (w : List Char) : Prop where
  starts : w <+: rest
  allowed : w ∈ rule k
  longest : ∀ k' v, v ∈ rule k' → v <+: rest → v.length ≤ w.length

/-- No rule allows any text at the head of this one. -/
def Unmatched (rest : List Char) : Prop := ∀ k v, v ≠ [] → v <+: rest → v ∉ rule k

theorem munch?_longest {cs : List Char} {k : Kind} {n : Nat} (h : munch? cs = some (k, n)) :
    LongestMatch cs k (cs.take n) where
  starts := List.take_prefix n cs
  allowed := munch?_mem_rule h
  longest := by
    rintro k' v hv ⟨r, rfl⟩
    obtain ⟨kind, n', hmunch, hle⟩ := length_le_munch? hv r
    cases h.symm.trans hmunch
    rw [List.length_take]
    exact Nat.le_min.2 ⟨hle, by rw [List.length_append]; omega⟩

theorem munch?_eq_none {cs : List Char} (h : munch? cs = none) : Unmatched cs := by
  rintro k v - ⟨r, rfl⟩ hv
  obtain ⟨kind, n, hmunch, -⟩ := length_le_munch? hv r
  cases h.symm.trans hmunch

/-- A keyword is taken for one by what stands behind it. -/
theorem munch?_keyword {cs : List Char} {k keyword : Kind} {n : Nat}
    (h : munch? cs = some (k, n)) (hkeyword : keyword = .unit ∨ keyword = .print)
    (hn : cs.take n ∈ rule keyword) :
    k = if endsKeyword (cs.drop n) then keyword else .identifier := by
  have hword : munch? cs = word? cs := by
    rw [← List.take_append_drop n cs]
    rcases hkeyword with rfl | rfl
    all_goals
      rw [mem_text.1 hn]
      exact munch?_of_isIdentifierStart (by decide) _
  have hkind : keywordOrIdentifier (cs.take n) = keyword := by
    rcases hkeyword with rfl | rfl
    all_goals
      rw [mem_text.1 hn]
      rfl
  rw [hword] at h
  rw [(word?_mem_rule h).2, hkind]

end Token

/-- Every token is the longest text at its place that any rule allows, and is of the kind of such a
rule; a keyword is told from an identifier by what stands behind it. It is stray where no rule
allows anything, and only the last token stands where nothing is left of the source. -/
theorem tokenize_longest (source : String) :
    ∀ t ∈ tokenize source, ∃ before rest, source.toList = before ++ rest ∧
      t.span.start = byteLength before ∧ (t.kind = .endOfInput ↔ rest = []) ∧
      (t.kind ≠ .endOfInput → t.kind ≠ .stray →
        Token.LongestMatch rest t.kind t.lexeme.toList ∧
        ∀ keyword, keyword = .unit ∨ keyword = .print → t.lexeme.toList ∈ Token.rule keyword →
          t.kind = if Token.endsKeyword (rest.drop t.lexeme.toList.length) then keyword
            else .identifier) ∧
      (t.kind ≠ .endOfInput → (t.kind = .stray ↔ Token.Unmatched rest)) := by
  intro t ht
  have htiles := Token.tiles_lexemes 0 source.toList
  rw [tokenize, Token.scan_eq, Nat.zero_add] at ht
  rcases List.mem_append.1 ht with ht | ht
  · obtain ⟨before, c, rest, hsource, rfl⟩ := htiles.munched t ht
    refine ⟨before, c :: rest, hsource, Nat.zero_add _,
      iff_of_false (Token.munch_fits c rest).kind_ne (List.cons_ne_nil c rest), ?_⟩
    cases hmunch : Token.munch? (c :: rest) with
    | none =>
      have hkind : (Token.ofHead (0 + byteLength before) (c :: rest)).kind = .stray := by
        rw [Token.ofHead, Token.munch, hmunch]
        rfl
      exact ⟨fun _ hne => absurd hkind hne,
        fun _ => iff_of_true hkind (Token.munch?_eq_none hmunch)⟩
    | some m =>
      obtain ⟨k, n⟩ := m
      have hhead : Token.ofHead (0 + byteLength before) (c :: rest) = ⟨k, String.ofList
          ((c :: rest).take n), ⟨0 + byteLength before,
            0 + byteLength before + byteLength ((c :: rest).take n)⟩⟩ := by
        rw [Token.ofHead, Token.munch, hmunch]
        rfl
      have hlength : ((c :: rest).take n).length = n :=
        List.length_take_of_le (Token.munch?_fits hmunch).le
      have hstray : k ≠ .stray := by
        rintro rfl
        exact Token.munch?_ne_stray _ n hmunch
      rw [hhead]
      simp only [String.toList_ofList, hlength]
      refine ⟨fun _ _ => ⟨Token.munch?_longest hmunch, fun keyword hkeyword hrule =>
        Token.munch?_keyword hmunch hkeyword hrule⟩, fun _ => iff_of_false hstray fun hnone => ?_⟩
      have hallowed := Token.munch?_mem_rule hmunch
      refine hnone k _ ?_ (List.take_prefix n _) hallowed
      exact List.ne_nil_of_length_pos (by rw [hlength]; exact (Token.munch?_fits hmunch).pos)
  · rw [List.mem_singleton.1 ht]
    exact ⟨source.toList, [], (List.append_nil _).symm, rfl, iff_of_true rfl rfl,
      fun h => absurd rfl h, fun h => absurd rfl h⟩

/-- The number `2.5` is not read on into the exponent that is not there in full. -/
theorem tokenize_longest_fraction :
    ∃ before rest, "2.5e+x".toList = before ++ rest ∧ byteLength before = 0 ∧
      Token.LongestMatch rest .float "2.5".toList := by
  have hmem : (⟨.float, "2.5", ⟨0, 3⟩⟩ : Token) ∈ tokenize "2.5e+x" := by decide +kernel
  obtain ⟨before, rest, hsource, hstart, -, hlongest, -⟩ := tokenize_longest "2.5e+x" _ hmem
  exact ⟨before, rest, hsource, hstart.symm, (hlongest nofun nofun).1⟩

/-- A keyword does not always go before an identifier of the same length. -/
theorem not_keyword_preferred :
    ¬ ∀ source, ∀ t ∈ tokenize source, ∀ keyword, keyword = .unit ∨ keyword = .print →
      t.lexeme.toList ∈ Token.rule keyword → t.kind = keyword := by
  intro h
  have hmem : (⟨.identifier, "unit", ⟨0, 4⟩⟩ : Token) ∈ tokenize "unit€" := by decide +kernel
  have hkind := h "unit€" _ hmem .unit (.inl rfl) rfl
  cases hkind

end UnitCalc
