import UnitCalc.Proofs.Spelling
import UnitCalc.Proofs.Tiling

/-! Excerpts of a text. A lexeme is the same in every piece of the text that holds it whole, so the
piece from the start of one token to the end of a later one has the tokens from the one to the
other, and no more. Only a keyword is told by what stands behind it, and the tokens of an excerpt
therefore have to be such that every identifier among them is a name. -/

namespace UnitCalc

namespace Token

/-! ### Lexemes in a piece of the text -/

/-- A length that ends inside a piece of the text is the length in that piece. -/
def Local (length : List Char → Nat) : Prop :=
  ∀ xs ys, length (xs ++ ys) ≤ xs.length → length xs = length (xs ++ ys)

theorem takeWhile_local {p : Char → Bool} {xs ys : List Char}
    (h : ((xs ++ ys).takeWhile p).length ≤ xs.length) :
    (xs.takeWhile p).length = ((xs ++ ys).takeWhile p).length := by
  rw [List.takeWhile_append] at h ⊢
  split at h
  · rename_i hall
    rw [if_pos hall, hall]
    rw [List.length_append] at h ⊢
    omega
  · rename_i hall
    rw [if_neg hall]

/-- A first character of one kind and then characters of another. -/
theorem local_of_run {length : List Char → Nat} {q : Char → Prop} [DecidablePred q]
    {p : Char → Bool} (hnil : length [] = 0)
    (hcons : ∀ c cs, length (c :: cs) = if q c then 1 + (cs.takeWhile p).length else 0) :
    Local length := by
  intro xs ys h
  cases xs with
  | nil => exact hnil.trans (Nat.le_zero.1 h).symm
  | cons c cs =>
    rw [List.cons_append, hcons] at h ⊢
    rw [hcons]
    split
    · rename_i hc
      rw [if_pos hc, List.length_cons] at h
      have hle : ((cs ++ ys).takeWhile p).length ≤ cs.length := by omega
      rw [takeWhile_local hle]
    · rfl

theorem digitsLength_local : Local digitsLength := local_of_run rfl fun _ _ => rfl

theorem identifierLength_local : Local identifierLength := local_of_run rfl fun _ _ => rfl

theorem commentLength_local : Local commentLength := by
  refine local_of_run (q := (· = '#')) (p := (· ≠ '\n')) rfl fun c cs => ?_
  split
  · rename_i hc
    rw [hc, commentLength]
  · rename_i hc
    exact commentLength_of_ne hc cs

theorem fractionLength_local : Local fractionLength := by
  intro xs ys h
  cases xs with
  | nil => exact (Nat.le_zero.1 h).symm
  | cons c cs =>
    have hcs := digitsLength_local cs ys
    rw [List.cons_append] at h ⊢
    by_cases hc : c = '.'
    · subst hc
      simp only [fractionLength, List.length_cons] at h ⊢
      split at h
      · rename_i hnone
        rw [hcs (by omega), if_pos hnone]
      · rename_i hsome
        rw [hcs (by omega), if_neg hsome]
    · rw [fractionLength_of_ne hc, fractionLength_of_ne hc]

/-- An exponent has a mark and at least one digit. -/
theorem exponentLength_ne_one (cs : List Char) : exponentLength cs ≠ 1 := by
  rw [exponentLength.eq_def]
  split
  · decide
  · split
    · split <;> split <;> omega
    · decide

theorem exponentLength_local : Local exponentLength := by
  intro xs ys h
  match xs with
  | [] => exact (Nat.le_zero.1 h).symm
  | [e] =>
    have hone := exponentLength_ne_one ([e] ++ ys)
    have hzero : exponentLength ([e] ++ ys) = 0 := by
      rw [List.length_singleton] at h
      omega
    rw [hzero]
    simp [exponentLength, digitsLength]
  | e :: c :: ds =>
    have hds := digitsLength_local ds ys
    have hcds := digitsLength_local (c :: ds) ys
    simp only [List.cons_append, exponentLength_cons, List.length_cons] at h hcds ⊢
    split
    · rename_i he
      rw [if_pos he] at h
      split
      · rename_i hsign
        rw [if_pos hsign] at h
        rw [hds (by split at h <;> omega)]
      · rename_i hsign
        rw [if_neg hsign] at h
        rw [hcds (by split at h <;> omega)]
    · rfl

/-- A lexeme that ends inside a piece of the text is the lexeme in that piece. -/
def LocalAt (lexeme? : List Char → Option (Kind × Nat)) (xs ys : List Char) : Prop :=
  (∀ r ∈ lexeme? (xs ++ ys), r.2 ≤ xs.length) → lexeme? xs = lexeme? (xs ++ ys)

theorem number?_local (xs ys : List Char) : LocalAt number? xs ys := by
  intro h
  have hwhole := digitsLength_local xs ys
  simp only [number?] at h ⊢
  split at h
  · rename_i hnone
    rw [hwhole (by omega), if_pos hnone, if_pos hnone]
  · rename_i hsome
    have hlength : digitsLength (xs ++ ys) + fractionLength ((xs ++ ys).drop
          (digitsLength (xs ++ ys))) + exponentLength ((xs ++ ys).drop (digitsLength (xs ++ ys) +
          fractionLength ((xs ++ ys).drop (digitsLength (xs ++ ys))))) ≤ xs.length := by
      split at h
      · have hle := h _ rfl
        simp only at hle
        omega
      · exact h _ rfl
    have hw := hwhole (by omega)
    rw [← hw] at hlength ⊢
    rw [drop_line (n := digitsLength xs) (by omega)] at hlength ⊢
    have hfraction := fractionLength_local (xs.drop (digitsLength xs)) ys
      (by rw [List.length_drop]; omega)
    rw [← hfraction] at hlength ⊢
    rw [drop_line (by omega)] at hlength ⊢
    have hexponent := exponentLength_local (xs.drop (digitsLength xs + fractionLength
      (xs.drop (digitsLength xs)))) ys (by rw [List.length_drop]; omega)
    rw [← hexponent]

/-- A keyword that ends with a piece of the text is one in it, so an identifier there is no
keyword. -/
theorem word?_local {xs ys : List Char}
    (hname : word? (xs ++ ys) = some (.identifier, xs.length) →
      keywordOrIdentifier xs = .identifier) : LocalAt word? xs ys := by
  intro h
  have hlength := identifierLength_local xs ys
  simp only [word?] at h hname ⊢
  split at h
  · rename_i hnone
    rw [hlength (by omega), if_pos hnone, if_pos hnone]
  · rename_i hsome
    have hle : identifierLength (xs ++ ys) ≤ xs.length := by
      split at h <;> exact h _ rfl
    rw [if_neg hsome] at hname
    rw [hlength hle, if_neg hsome, if_neg hsome]
    generalize identifierLength (xs ++ ys) = n at hle hname ⊢
    rw [List.take_append_of_le_length hle, drop_line hle] at hname ⊢
    cases hrest : xs.drop n with
    | nil =>
      have hn : n = xs.length := Nat.le_antisymm hle (List.drop_eq_nil_iff.1 hrest)
      subst hn
      rw [hrest, List.nil_append, List.take_length] at hname
      rw [List.nil_append, List.take_length, endsKeyword, if_pos rfl]
      split
      · rfl
      · rename_i hends
        rw [hname (if_neg hends)]
    | cons d ds => rfl

theorem symbol?_local (c : Char) (xs ys : List Char) : LocalAt symbol? (c :: xs) ys := by
  have hne : ∀ {b : Char}, b ≠ '=' → ∀ ds tail : List Char, b :: ds ≠ '=' :: tail :=
    fun hb ds tail h => hb (List.cons.inj h).1
  intro h
  match xs, ys with
  | [], [] => rfl
  | [], b :: ys =>
    rw [List.singleton_append] at h ⊢
    by_cases hb : c ∈ doubles ∧ b = '='
    · -- Of a symbol of two characters the piece would hold only one.
      obtain ⟨hc, rfl⟩ := hb
      have hdouble : ∃ kind, symbol? (c :: '=' :: ys) = some (kind, 2) := by
        simp only [doubles, List.mem_cons, List.not_mem_nil, or_false] at hc
        rcases hc with rfl | rfl | rfl | rfl <;> exact ⟨_, rfl⟩
      obtain ⟨kind, hdouble⟩ := hdouble
      exact absurd (h _ hdouble) (Nat.not_succ_le_self 1)
    · refine (symbol?_single fun hc tail heq => hb ⟨hc, ?_⟩).symm
      exact (List.cons.inj heq).1
  | b :: xs, ys =>
    rw [List.cons_append, List.cons_append]
    by_cases hb : b = '='
    · subst hb
      exact symbol?_double c _ _
    · rw [symbol?_single fun _ => hne hb _, symbol?_single fun _ => hne hb _]

theorem comment?_local (xs ys : List Char) : LocalAt comment? xs ys := by
  intro h
  have hlength := commentLength_local xs ys
  simp only [comment?] at h ⊢
  split at h
  · rw [hlength (by omega)]
  · rw [hlength (h _ rfl)]

/-- Of two kinds of lexemes the second counts only where the first is absent. -/
theorem LocalAt.or {lexeme? other? : List Char → Option (Kind × Nat)} {xs ys : List Char}
    (h : LocalAt lexeme? xs ys) (hother : lexeme? (xs ++ ys) = none → LocalAt other? xs ys) :
    LocalAt (fun cs => (lexeme? cs).or (other? cs)) xs ys := by
  intro hwithin
  simp only at hwithin ⊢
  cases hfirst : lexeme? (xs ++ ys) with
  | some r =>
    rw [h fun r hr => hwithin r (by rw [hr]; rfl), hfirst]
    rfl
  | none =>
    rw [hfirst, Option.none_or] at hwithin
    rw [h fun r hr => (by cases hfirst.symm.trans hr), hfirst, Option.none_or, Option.none_or]
    exact hother hfirst hwithin

theorem munch?_local {c : Char} {xs ys : List Char}
    (hname : munch? (c :: xs ++ ys) = some (.identifier, (c :: xs).length) →
      keywordOrIdentifier (c :: xs) = .identifier) : LocalAt munch? (c :: xs) ys := by
  refine (number?_local _ ys).or fun hnumber => ?_
  refine (word?_local fun hword => hname ?_).or fun _ => ?_
  · rw [munch?, hnumber, hword]
    rfl
  · exact (symbol?_local c xs ys).or fun _ => comment?_local _ ys

/-- A lexeme is the same in every piece of the text that holds it whole, if it is not an identifier
that is no name. -/
theorem munch_local {c : Char} {w xs ys : List Char} {kind : Kind}
    (h : munch (c :: w ++ xs ++ ys) = (kind, w.length + 1))
    (hname : kind = .identifier → IsName (c :: w)) :
    munch (c :: w ++ xs) = (kind, w.length + 1) := by
  have hlocal : LocalAt munch? (c :: (w ++ xs)) ys := by
    refine munch?_local fun hmunch => ?_
    rw [munch, List.cons_append, hmunch] at h
    obtain ⟨rfl, hlength⟩ := Prod.mk.inj h
    rw [List.length_cons, List.length_append] at hlength
    have hxs : xs = [] := List.length_eq_zero_iff.1 (by omega)
    rw [hxs, List.append_nil, keywordOrIdentifier, if_neg (hname rfl).ne_unit,
      if_neg (hname rfl).ne_print]
  rw [munch, List.cons_append, hlocal]
  · exact h
  · intro r hr
    rw [munch, List.cons_append, hr, Option.getD_some] at h
    rw [h]
    simp

/-! ### Tokens of a piece of the text -/

/-- Some tokens reach from the start of the first of them to the end of the last. -/
structure Reaches (ts : List Token) (sp : Span) : Prop where
  start : ts.head?.map (·.span.start) = some sp.start
  stop : ts.getLast?.map (·.span.stop) = some sp.stop

theorem Reaches.unique {ts : List Token} {a b : Span} (ha : Reaches ts a) (hb : Reaches ts b) :
    a = b := by
  have hstart := Option.some.inj (ha.start.symm.trans hb.start)
  have hstop := Option.some.inj (ha.stop.symm.trans hb.stop)
  cases a
  cases b
  exact congrArg₂ Span.mk hstart hstop

/-- The tokens from some token on are those of the text from its start on. -/
theorem Tiles.drop {offset : Nat} {cs : List Char} {ts us : List Token}
    (h : Tiles offset cs (ts ++ us)) (hus : us ≠ []) :
    ∃ before rest, cs = before ++ rest ∧ Tiles (offset + byteLength before) rest us ∧
      us.head?.map (·.span.start) = some (offset + byteLength before) := by
  generalize hall : ts ++ us = all at h
  induction h generalizing ts with
  | done =>
    exact absurd (List.append_eq_nil_iff.1 hall).2 hus
  | @blank offset c cs all hc h ih =>
    obtain ⟨before, rest, rfl, hrest, hstart⟩ := ih hall
    refine ⟨c :: before, rest, rfl, ?_, ?_⟩
    all_goals rwa [byteLength_cons, ← Nat.add_assoc]
  | @lexeme offset kind c w cs all hc hmunch h ih =>
    cases ts with
    | nil =>
      rw [List.nil_append] at hall
      subst hall
      exact ⟨[], c :: w ++ cs, rfl, .lexeme hc hmunch h, rfl⟩
    | cons t ts =>
      obtain ⟨before, rest, rfl, hrest, hstart⟩ := ih (List.cons.inj hall).2
      refine ⟨c :: w ++ before, rest, (List.append_assoc ..).symm, ?_, ?_⟩
      all_goals rwa [byteLength_append, ← Nat.add_assoc]

/-- The tokens up to some token are those of the text up to its end, if every identifier among them
is a name. -/
theorem Tiles.take {offset : Nat} {cs : List Char} {ts us : List Token}
    (h : Tiles offset cs (ts ++ us)) (hts : ts ≠ [])
    (hnames : ∀ t ∈ ts, t.kind = .identifier → IsName t.lexeme.toList) :
    ∃ text after, cs = text ++ after ∧ Tiles offset text ts ∧
      ts.getLast?.map (·.span.stop) = some (offset + byteLength text) := by
  generalize hall : ts ++ us = all at h
  induction h generalizing ts with
  | done => exact absurd (List.append_eq_nil_iff.1 hall).1 hts
  | @blank offset c cs all hc h ih =>
    obtain ⟨text, after, rfl, htext, hstop⟩ := ih hts hnames hall
    refine ⟨c :: text, after, rfl, .blank hc htext, ?_⟩
    rwa [byteLength_cons, ← Nat.add_assoc]
  | @lexeme offset kind c w cs all hc hmunch h ih =>
    obtain ⟨t, ts, rfl⟩ := List.exists_cons_of_ne_nil hts
    obtain ⟨rfl, hrest⟩ := List.cons.inj hall
    obtain ⟨hname, hnames⟩ := List.forall_mem_cons.1 hnames
    simp only [String.toList_ofList] at hname
    cases ts with
    | nil =>
      rw [← List.append_nil (c :: w)] at hmunch
      have htiles := @Tiles.lexeme offset kind c w [] [] hc (munch_local hmunch hname) (.done _)
      rw [List.append_nil] at htiles
      exact ⟨c :: w, cs, rfl, htiles, rfl⟩
    | cons u ts =>
      obtain ⟨text, after, rfl, htext, hstop⟩ := ih (List.cons_ne_nil u ts) hnames hrest
      rw [← List.append_assoc] at hmunch
      refine ⟨c :: w ++ text, after, (List.append_assoc ..).symm,
        .lexeme hc (munch_local hmunch hname) htext, ?_⟩
      rwa [List.getLast?_cons_cons, byteLength_append, ← Nat.add_assoc]

/-- Tokens of which every identifier is a name are those of the piece of the text that they reach
over. -/
theorem Tiles.excerpt {offset : Nat} {cs : List Char} {before ts after : List Token}
    (h : Tiles offset cs (before ++ ts ++ after)) (hts : ts ≠ [])
    (hnames : ∀ t ∈ ts, t.kind = .identifier → IsName t.lexeme.toList) :
    ∃ xs text ys, cs = xs ++ text ++ ys ∧ Tiles (offset + byteLength xs) text ts ∧
      Reaches ts ⟨offset + byteLength xs, offset + byteLength xs + byteLength text⟩ := by
  rw [List.append_assoc] at h
  obtain ⟨xs, rest, rfl, hrest, hstart⟩ := h.drop (by simp [hts])
  obtain ⟨text, ys, rfl, htext, hstop⟩ := hrest.take hts hnames
  rw [List.head?_append_of_ne_nil _ hts] at hstart
  exact ⟨xs, text, ys, (List.append_assoc ..).symm, htext, hstart, hstop⟩

/-- Comments stand behind all other tokens of a line. -/
theorem Tiles.comments {offset : Nat} {cs : List Char} {ts : List Token} (h : Tiles offset cs ts)
    (hcs : '\n' ∉ cs) :
    ∃ us, ts = ts.filter (·.kind ≠ .comment) ++ us ∧ us.filter (·.kind ≠ .comment) = [] := by
  induction h with
  | done => exact ⟨[], rfl, rfl⟩
  | blank _ _ ih => exact ih fun hmem => hcs (List.mem_cons_of_mem _ hmem)
  | @lexeme offset kind c w cs ts hc hmunch h ih =>
    rw [List.cons_append] at hcs hmunch
    obtain ⟨-, htail⟩ := List.ne_and_not_mem_of_not_mem_cons hcs
    by_cases hkind : kind = .comment
    · -- A comment takes up the rest of the line.
      subst hkind
      have hsharp := head_of_munch_comment (congrArg Prod.fst hmunch)
      rw [hsharp, munch_comment_line htail, List.length_append] at hmunch
      have hlength := (Prod.mk.inj hmunch).2
      have hnil : cs = [] := List.length_eq_zero_iff.1 (by omega)
      subst hnil
      cases h
      exact ⟨_, rfl, rfl⟩
    · obtain ⟨us, hts, hus⟩ := ih fun hmem => htail (List.mem_append_right w hmem)
      refine ⟨us, ?_, hus⟩
      rw [List.filter_cons_of_pos (by simpa using hkind), List.cons_append, ← hts]

theorem tiles_content (offset : Nat) {cs : List Char} (hcs : '\n' ∉ cs) :
    ∃ us, Tiles offset cs (content offset cs ++ us) ∧ us.filter (·.kind ≠ .comment) = [] := by
  obtain ⟨us, hts, hus⟩ := (tiles_lexemes offset cs).comments hcs
  refine ⟨us, ?_, hus⟩
  rw [content, ← hts]
  exact tiles_lexemes offset cs

/-- The last tokens of a line are all tokens of the last piece of its text. -/
theorem content_drop {offset : Nat} {cs : List Char} (hcs : '\n' ∉ cs) {ts us : List Token}
    (h : content offset cs = ts ++ us) (hus : us ≠ []) :
    ∃ before rest, cs = before ++ rest ∧ content (offset + byteLength before) rest = us := by
  obtain ⟨vs, htiles, hvs⟩ := tiles_content offset hcs
  rw [h, List.append_assoc] at htiles
  obtain ⟨before, rest, rfl, hrest, -⟩ := htiles.drop (by simp [hus])
  have hkept : us.filter (·.kind ≠ .comment) = us := by
    refine List.filter_eq_self.2 fun t ht => ?_
    have hmem : t ∈ content offset (before ++ rest) := h ▸ List.mem_append_right ts ht
    exact (List.mem_filter.1 hmem).2
  exact ⟨before, rest, rfl, by rw [content, hrest.lexemes_eq, List.filter_append, hvs, hkept,
    List.append_nil]⟩

end Token

end UnitCalc
