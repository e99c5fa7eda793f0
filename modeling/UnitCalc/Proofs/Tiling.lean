import UnitCalc.Proofs.Scan

/-! The scan loses nothing of a text. A text is cut into blanks and lexemes, which lie one behind
the other without gaps, and its tokens are those of the lexemes. So the spans of the tokens are in
order and apart, and every character is a blank or belongs to a token. The errors of the scan are
those of its stray tokens, one for each, and the span of a token tells which one is its own. -/

namespace UnitCalc

namespace Token

/-- A text that starts at byte `offset` is cut into blanks and lexemes, of which each is the longest
at its place, and `ts` are the tokens of the lexemes. -/
inductive Tiles : Nat → List Char → List Token → Prop where
  | done (offset : Nat) : Tiles offset [] []
  | blank {offset : Nat} {c : Char} {cs : List Char} {ts : List Token} (hc : isBlank c = true)
      (h : Tiles (offset + c.utf8Size) cs ts) : Tiles offset (c :: cs) ts
  | lexeme {offset : Nat} {kind : Kind} {c : Char} {w cs : List Char} {ts : List Token}
      (hc : isBlank c = false) (hmunch : munch (c :: w ++ cs) = (kind, w.length + 1))
      (h : Tiles (offset + byteLength (c :: w)) cs ts) :
      Tiles offset (c :: w ++ cs)
        (⟨kind, String.ofList (c :: w), ⟨offset, offset + byteLength (c :: w)⟩⟩ :: ts)

theorem tiles_lexemes (offset : Nat) (cs : List Char) : Tiles offset cs (lexemes 0 offset cs) := by
  induction hn : cs.length using Nat.strongRecOn generalizing cs offset with
  | ind n ih =>
    cases cs with
    | nil =>
      rw [lexemes_nil]
      exact .done offset
    | cons c cs =>
      rw [List.length_cons] at hn
      rw [lexemes_cons]
      split
      · rename_i hblank
        exact .blank hblank (ih cs.length (by omega) _ cs rfl)
      · rename_i hblank
        obtain ⟨m, hm⟩ := Nat.exists_eq_add_of_lt (munch_fits c cs).pos
        have hle := (munch_fits c cs).le
        rw [Nat.zero_add] at hm
        rw [hm, List.length_cons] at hle
        have hrest := ih (cs.drop m).length (by rw [List.length_drop]; omega)
          (offset + byteLength (c :: cs.take m)) (cs.drop m) rfl
        have hmunch : munch (c :: cs.take m ++ cs.drop m) =
            ((munch (c :: cs)).1, (cs.take m).length + 1) := by
          rw [List.cons_append, List.take_append_drop, List.length_take, Nat.min_eq_left (by omega),
            ← hm]
        have htiles := Tiles.lexeme (Bool.eq_false_iff.2 hblank) hmunch hrest
        rw [List.cons_append, List.take_append_drop] at htiles
        rw [ofHead, hm, List.take_succ_cons, Nat.add_sub_cancel, lexemes_skip, Nat.add_assoc]
        exact htiles

/-- There is one way to cut a text. -/
theorem Tiles.lexemes_eq {offset : Nat} {cs : List Char} {ts : List Token}
    (h : Tiles offset cs ts) : lexemes 0 offset cs = ts := by
  induction h with
  | done offset => exact lexemes_nil 0 offset
  | blank hc _ ih => rw [lexemes_cons, if_pos hc, ih]
  | @lexeme offset kind c w cs ts hc hmunch _ ih =>
    rw [List.cons_append] at hmunch
    rw [List.cons_append, lexemes_cons, if_neg (by simp [hc]), ofHead, hmunch, Nat.add_sub_cancel,
      lexemes_skip, ← List.cons_append, List.drop_left, List.take_left, Nat.add_assoc]
    rw [byteLength_cons] at ih
    rw [ih]
    exact congrArg (· :: ts) (by rw [← List.length_cons (a := c), List.take_left])

/-! ### Order and coverage -/

theorem Tiles.bounds {offset : Nat} {cs : List Char} {ts : List Token} (h : Tiles offset cs ts) :
    ∀ t ∈ ts, offset ≤ t.span.start ∧ t.span.start < t.span.stop ∧
      t.span.stop ≤ offset + byteLength cs := by
  induction h with
  | done => nofun
  | blank _ _ ih =>
    intro t ht
    have hbounds := ih t ht
    rw [byteLength_cons]
    omega
  | @lexeme offset kind c w cs ts _ _ _ ih =>
    have hpos := byteLength_pos (List.cons_ne_nil c w)
    rw [byteLength_append]
    refine List.forall_mem_cons.2 ⟨⟨Nat.le_refl _, by simp only; omega, by simp only; omega⟩, ?_⟩
    intro t ht
    have hbounds := ih t ht
    omega

/-- The spans of the tokens are in order, and none reaches into the next. -/
theorem Tiles.ordered {offset : Nat} {cs : List Char} {ts : List Token} (h : Tiles offset cs ts) :
    ts.Pairwise fun t u => t.span.stop ≤ u.span.start := by
  induction h with
  | done => exact .nil
  | blank _ _ ih => exact ih
  | lexeme _ _ h ih => exact .cons (fun u hu => (h.bounds u hu).1) ih

/-- Every character is a blank or lies in the span of a token. -/
theorem Tiles.covers {offset : Nat} {cs : List Char} {ts : List Token} (h : Tiles offset cs ts)
    {before after : List Char} {c : Char} (hcs : cs = before ++ c :: after) :
    isBlank c = true ∨ ∃ t ∈ ts, t.span.start ≤ offset + byteLength before ∧
      offset + byteLength before + c.utf8Size ≤ t.span.stop := by
  induction h generalizing before with
  | done => simp at hcs
  | @blank offset d cs ts hd _ ih =>
    cases before with
    | nil =>
      cases hcs
      exact .inl hd
    | cons b before =>
      obtain ⟨rfl, htail⟩ := List.cons.inj hcs
      simpa only [byteLength_cons, Nat.add_assoc] using ih htail
  | @lexeme offset kind d w cs ts _ _ _ ih =>
    rcases List.append_eq_append_iff.1 hcs with ⟨as, rfl, hrest⟩ | ⟨bs, hw, hrest⟩
    · -- The character stands behind the lexeme.
      rcases ih hrest with hblank | ⟨t, ht, hstart, hstop⟩
      · exact .inl hblank
      · refine .inr ⟨t, List.mem_cons_of_mem _ ht, ?_⟩
        rw [byteLength_append, ← Nat.add_assoc]
        exact ⟨hstart, hstop⟩
    · cases bs with
      | nil =>
        rw [List.append_nil] at hw
        rcases @ih [] hrest.symm with hblank | ⟨t, ht, hstart, hstop⟩
        · exact .inl hblank
        · refine .inr ⟨t, List.mem_cons_of_mem _ ht, ?_⟩
          rw [← hw]
          exact ⟨hstart, hstop⟩
      | cons b bs =>
        obtain ⟨rfl, -⟩ := List.cons.inj hrest
        refine .inr ⟨_, List.mem_cons_self, Nat.le_add_right _ _, ?_⟩
        simp only [hw, byteLength_append, byteLength_cons]
        omega

/-! ### Stray characters -/

theorem munch?_ne_stray (cs : List Char) (n : Nat) : munch? cs ≠ some (.stray, n) := by
  intro h
  simp only [munch?, Option.or_eq_some_iff] at h
  rcases h with h | ⟨-, h | ⟨-, h | ⟨-, h⟩⟩⟩
  · simp only [number?] at h
    split at h
    · cases h
    · split at h <;> cases h
  · simp only [word?, keywordOrIdentifier] at h
    split at h
    · cases h
    · repeat' split at h
      all_goals cases h
  · rw [symbol?.eq_def] at h
    split at h <;> cases h
  · simp only [comment?] at h
    split at h <;> cases h

/-- The errors of a scan stand for its stray tokens, in order, and each for a single character. -/
theorem scan_strays (skip offset : Nat) (cs : List Char) :
    (scan skip offset cs).1.filter (·.kind = .stray) = (scan skip offset cs).2.map Stray.token ∧
      ∀ s ∈ (scan skip offset cs).2, s.span.stop = s.span.start + s.character.utf8Size := by
  induction cs generalizing skip offset with
  | nil =>
    rw [scan]
    exact ⟨rfl, List.forall_mem_nil _⟩
  | cons c cs ih =>
    cases skip with
    | succ skip => exact ih skip _
    | zero =>
      rw [scan]
      split
      · exact ih 0 _
      · cases hmunch : munch? (c :: cs) with
        | none =>
          obtain ⟨htokens, hspans⟩ := ih 0 (offset + c.utf8Size)
          simp only
          rw [List.filter_cons_of_pos (by rfl), htokens]
          exact ⟨rfl, List.forall_mem_cons.2 ⟨rfl, hspans⟩⟩
        | some r =>
          have hkind : r.1 ≠ .stray := fun h => munch?_ne_stray (c :: cs) r.2 (h ▸ hmunch)
          simp only
          rw [List.filter_cons_of_neg (by simpa using hkind)]
          exact ih (r.2 - 1) _

end Token

/-- The spans of the tokens of a source are in order, and none reaches into the next. -/
theorem tokenize_ordered (source : String) :
    (tokenize source).Pairwise fun t u => t.span.stop ≤ u.span.start := by
  have htiles := Token.tiles_lexemes 0 source.toList
  rw [tokenize, Token.scan_eq, Nat.zero_add]
  refine List.pairwise_append.2 ⟨htiles.ordered, List.pairwise_singleton _ _, fun t ht u hu => ?_⟩
  have hstop := (htiles.bounds t ht).2.2
  rw [Nat.zero_add] at hstop
  rw [List.mem_singleton.1 hu]
  exact hstop

theorem filter_tokenize (source : String) :
    (tokenize source).filter (·.kind = .stray) = (strayTokens source).map Stray.token :=
  (Token.scan_strays 0 0 source.toList).1

theorem Stray.stop_eq {source : String} {s : Stray} (h : s ∈ strayTokens source) :
    s.span.stop = s.span.start + s.character.utf8Size :=
  (Token.scan_strays 0 0 source.toList).2 s h

/-- Among characters in the order of the text, a span tells which one is meant. -/
theorem Stray.find?_eq_some {ss : List Stray}
    (hordered : ss.Pairwise fun s s' => s.span.stop ≤ s'.span.start)
    (hpos : ∀ s ∈ ss, s.span.start < s.span.stop) {s : Stray} (hs : s ∈ ss) :
    ss.find? (·.span = s.span) = some s := by
  induction ss with
  | nil => cases hs
  | cons first ss ih =>
    obtain ⟨hfirst, hordered⟩ := List.pairwise_cons.1 hordered
    obtain ⟨hstart, hpos⟩ := List.forall_mem_cons.1 hpos
    rcases List.mem_cons.1 hs with rfl | hs
    · exact List.find?_cons_of_pos (decide_eq_true rfl)
    · have hne : first.span ≠ s.span := by
        intro heq
        have hstop := hfirst s hs
        rw [← heq] at hstop
        omega
      rw [List.find?_cons_of_neg (by simpa using hne)]
      exact ih hordered hpos hs

/-- Every stray token has its error among those of the scan, and is found there by its span. -/
theorem find?_strayTokens {source : String} {t : Token} (ht : t ∈ tokenize source)
    (hkind : t.kind = .stray) :
    ∃ s, (strayTokens source).find? (·.span = t.span) = some s ∧ s.token = t := by
  have hordered : (strayTokens source).Pairwise fun s s' => s.span.stop ≤ s'.span.start := by
    have hstrays := (tokenize_ordered source).sublist (List.filter_sublist (p := (·.kind = .stray)))
    rw [filter_tokenize] at hstrays
    exact List.pairwise_map.1 hstrays
  have hpos : ∀ s ∈ strayTokens source, s.span.start < s.span.stop := by
    intro s hs
    have hsize := s.character.utf8Size_pos
    rw [Stray.stop_eq hs]
    omega
  have hmem : t ∈ (tokenize source).filter (·.kind = .stray) :=
    List.mem_filter.2 ⟨ht, decide_eq_true hkind⟩
  rw [filter_tokenize] at hmem
  obtain ⟨s, hs, rfl⟩ := List.mem_map.1 hmem
  exact ⟨s, Stray.find?_eq_some hordered hpos hs, rfl⟩

/-- The tokens of a source are in order and apart. All but the last are non-empty pieces of the
source at their spans, the last one alone marks its end, and what no token covers is blank. The
errors that are returned beside the tokens stand for the stray tokens, one for each and in order:
each names the single character of its token, has the span of the token and is found by it. -/
theorem tokenize_tiles (source : String) :
    (tokenize source).Pairwise (fun t u => t.span.stop ≤ u.span.start) ∧
      (∃ ts, tokenize source = ts ++ [Token.endToken (byteLength source.toList)] ∧
        ∀ t ∈ ts, t.kind ≠ .endOfInput ∧ t.span.start < t.span.stop ∧
          Token.Stands 0 source.toList t) ∧
      (∀ before c after, source.toList = before ++ c :: after → Token.isBlank c = true ∨
        ∃ t ∈ tokenize source, t.span.start ≤ byteLength before ∧
          byteLength before + c.utf8Size ≤ t.span.stop) ∧
      (tokenize source).filter (·.kind = .stray) = (strayTokens source).map Stray.token ∧
      (∀ s ∈ strayTokens source, s.span.stop = s.span.start + s.character.utf8Size ∧
        strayMessage s.lexeme = s!"unexpected character '{s.character}'") ∧
      ∀ t ∈ tokenize source, t.kind = .stray →
        ∃ s, (strayTokens source).find? (·.span = t.span) = some s ∧ s.token = t := by
  have htiles := Token.tiles_lexemes 0 source.toList
  have hsource := Token.scan_eq 0 0 source.toList
  rw [Nat.zero_add] at hsource
  refine ⟨tokenize_ordered source, ⟨_, hsource, fun t ht => ?_⟩, fun before c after hsplit => ?_,
    filter_tokenize source, fun s hs => ⟨Stray.stop_eq hs, rfl⟩, fun t => find?_strayTokens⟩
  · obtain ⟨hstands, hkind, -⟩ := Token.lexemes_spec ht
    exact ⟨hkind, (htiles.bounds t ht).2.1, hstands⟩
  · rw [tokenize, hsource]
    refine (htiles.covers hsplit).imp_right ?_
    rintro ⟨t, ht, hstart, hstop⟩
    rw [Nat.zero_add] at hstart hstop
    exact ⟨t, List.mem_append_left _ ht, hstart, hstop⟩

end UnitCalc
