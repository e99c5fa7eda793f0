import UnitCalc.Proofs.Excerpts
import UnitCalc.Proofs.LineGrammar
import UnitCalc.Proofs.RelocatedReaders

/-! Blanks between tokens. A text may be spread apart with blanks wherever no token stands: the
tokens before that place stay, those behind it move on, and a comment that ends there gets longer.
The readers notice only blanks between a name and the parenthesis directly behind it, so anywhere
else the blanks make no difference to a line. -/

namespace UnitCalc

open Grammar

/-! ### Making room -/

/-- Makes room for `k` bytes at some place: what begins there or later moves on, and so does what
ends later. -/
def Span.spread (place k : Nat) (s : Span) : Span :=
  ⟨if place ≤ s.start then s.start + k else s.start,
    if place < s.stop then s.stop + k else s.stop⟩

theorem Span.spread_merge (place k : Nat) (a b : Span) :
    (a.merge b).spread place k = (a.spread place k).merge (b.spread place k) := by
  have hstart : Monotone fun n => if place ≤ n then n + k else n := by
    intro m n hle
    simp only
    split <;> split <;> omega
  have hstop : Monotone fun n => if place < n then n + k else n := by
    intro m n hle
    simp only
    split <;> split <;> omega
  simp only [spread, merge, Span.mk.injEq]
  exact ⟨hstart.map_min, hstop.map_max⟩

theorem Span.spread_before {place k : Nat} {s : Span} (hstart : s.start < place)
    (hstop : s.stop ≤ place) : s.spread place k = s := by
  rw [spread, if_neg (by omega), if_neg (by omega)]

theorem Span.spread_behind {place k : Nat} {s : Span} (hstart : place ≤ s.start)
    (hstop : s.start < s.stop) : s.spread place k = s.shift k := by
  rw [spread, if_pos hstart, if_pos (by omega), shift]

namespace Token

/-- The tokens behind a place all move on. -/
theorem Tiles.map_spread {place : Nat} {cs : List Char} {ts : List Token} (h : Tiles place cs ts)
    (k : Nat) : ts.map (relocate (Span.spread place k)) = ts.map (relocate (Span.shift k)) := by
  refine List.map_congr_left fun t ht => ?_
  obtain ⟨hstart, hstop, -⟩ := h.bounds t ht
  rw [relocate, relocate, Span.spread_behind hstart hstop]

theorem Tiles.shift {offset : Nat} {cs : List Char} {ts : List Token} (h : Tiles offset cs ts)
    (k : Nat) : Tiles (offset + k) cs (ts.map (relocate (Span.shift k))) := by
  have htiles := tiles_lexemes (offset + k) cs
  rwa [lexemes_shift, h.lexemes_eq] at htiles

/-! ### Lexemes before blanks -/

theorem breaks_of_isBlank {b : Char} (hb : isBlank b = true) : Breaks b := by
  simp only [isBlank, Bool.or_eq_true, decide_eq_true_eq] at hb
  rcases hb with (rfl | rfl) | rfl <;> constructor <;> decide

section Blanks

variable {bs : List Char}

theorem newline_not_mem_blanks (hbs : ∀ b ∈ bs, isBlank b = true) : '\n' ∉ bs :=
  fun hmem => absurd (hbs _ hmem) (by decide)

theorem Tiles.blanks (hbs : ∀ b ∈ bs, isBlank b = true) {offset : Nat} {cs : List Char}
    {ts : List Token} (h : Tiles (offset + byteLength bs) cs ts) : Tiles offset (bs ++ cs) ts := by
  induction bs generalizing offset with
  | nil => exact h
  | cons b bs ih =>
    obtain ⟨hb, hbs⟩ := List.forall_mem_cons.1 hbs
    rw [byteLength_cons, ← Nat.add_assoc] at h
    exact .blank hb (ih hbs h)

/-- A comment is a lexeme without newlines that reaches to the end of its line. -/
theorem munch_comment_iff {w cs : List Char} {kind : Kind} :
    munch ('#' :: w ++ cs) = (kind, w.length + 1) ↔
      kind = .comment ∧ '\n' ∉ w ∧ ∀ d ∈ cs.head?, d = '\n' := by
  have hnewline : '\n' ∉ w ↔ ∀ d ∈ w, decide (d ≠ '\n') = true := by
    simp only [decide_eq_true_eq]
    exact ⟨fun h d hd heq => h (heq ▸ hd), fun h hmem => h _ hmem rfl⟩
  rw [List.cons_append, munch_comment, Prod.mk.injEq, Nat.add_comm, Nat.add_right_cancel_iff,
    hnewline]
  constructor
  · rintro ⟨rfl, hlength⟩
    have hw : (w ++ cs).takeWhile (fun d => decide (d ≠ '\n')) = w :=
      (List.prefix_of_prefix_length_le (List.takeWhile_prefix _) (List.prefix_append w cs)
        hlength.le).eq_of_length hlength
    have hall : ∀ d ∈ w, decide (d ≠ '\n') = true := by
      intro d hd
      rw [← hw] at hd
      exact List.mem_takeWhile_imp (p := fun d => decide (d ≠ '\n')) hd
    rw [List.takeWhile_append_of_pos hall] at hw
    have hcs := List.append_cancel_left (hw.trans (List.append_nil w).symm)
    refine ⟨rfl, hall, ?_⟩
    cases cs with
    | nil => nofun
    | cons d cs =>
      rintro _ ⟨⟩
      simpa using hcs
  · rintro ⟨rfl, hall, hcs⟩
    refine ⟨rfl, ?_⟩
    rw [List.takeWhile_append_of_pos hall]
    cases cs with
    | nil => simp
    | cons d cs => simp [hcs d rfl]

/-- A lexeme stays the same when blanks are put in behind it, unless it is a comment and they stand
at its end. -/
theorem munch_blanks (hbs : ∀ b ∈ bs, isBlank b = true) {c : Char} {w xs ys : List Char}
    {kind : Kind} (hxs : c = '#' → xs ≠ []) (hname : kind = .identifier → IsName (c :: w))
    (h : munch (c :: w ++ (xs ++ ys)) = (kind, w.length + 1)) :
    munch (c :: w ++ (xs ++ (bs ++ ys))) = (kind, w.length + 1) := by
  by_cases hc : c = '#'
  · subst hc
    obtain ⟨x, xs, rfl⟩ := List.exists_cons_of_ne_nil (hxs rfl)
    rw [munch_comment_iff] at h ⊢
    exact h
  · cases bs with
    | nil => exact h
    | cons b bs =>
      have hbreaks := breaks_of_isBlank (hbs b List.mem_cons_self)
      rw [← List.append_assoc] at h
      rw [← List.append_assoc, List.cons_append, List.cons_append, List.cons_append,
        munch_break hbreaks (.inl hc)]
      exact munch_local h hname

/-- Blanks at the end of a comment belong to it. -/
theorem Tiles.comment_blanks (hbs : ∀ b ∈ bs, isBlank b = true) {offset : Nat} {w ys : List Char}
    {ts : List Token} {kind : Kind} (hmunch : munch ('#' :: w ++ ys) = (kind, w.length + 1))
    (h : Tiles (offset + byteLength ('#' :: w)) ys ts) :
    ∃ t, t.kind = kind ∧ Tiles offset ('#' :: w ++ (bs ++ ys))
      (t :: ts.map (relocate (Span.shift (byteLength bs)))) := by
  obtain ⟨hkind, hw, hys⟩ := munch_comment_iff.1 hmunch
  have hlonger : munch ('#' :: (w ++ bs) ++ ys) = (kind, (w ++ bs).length + 1) := by
    refine munch_comment_iff.2 ⟨hkind, ?_, hys⟩
    rw [List.mem_append, not_or]
    exact ⟨hw, newline_not_mem_blanks hbs⟩
  have hrest := h.shift (byteLength bs)
  rw [Nat.add_assoc, ← byteLength_append] at hrest
  have htiles := Tiles.lexeme (c := '#') (by decide) hlonger hrest
  rw [List.cons_append, List.append_assoc, ← List.cons_append] at htiles
  exact ⟨_, rfl, htiles⟩

/-- The tokens that count are the same, with room made for `k` bytes. -/
def Apart (place k : Nat) (ts ts' : List Token) : Prop :=
  ts'.filter (·.kind ≠ .comment) =
    (ts.filter (·.kind ≠ .comment)).map (relocate (Span.spread place k))

theorem Apart.cons {place k : Nat} {t : Token} {ts ts' : List Token} (h : Apart place k ts ts')
    (ht : t.span.spread place k = t.span) : Apart place k (t :: ts) (t :: ts') := by
  simp only [Apart, List.filter_cons] at h ⊢
  split
  · rw [List.map_cons, ← h, relocate, ht]
  · exact h

theorem Apart.of_shift {place k : Nat} {cs : List Char} {ts : List Token} (h : Tiles place cs ts) :
    Apart place k ts (ts.map (relocate (Span.shift k))) := by
  rw [Apart, ← h.map_spread, List.filter_map]
  rfl

/-- Blanks in front of a text move all of its tokens. -/
theorem Tiles.insert_front (hbs : ∀ b ∈ bs, isBlank b = true) {offset : Nat} {ys : List Char}
    {ts : List Token} (h : Tiles offset ys ts) :
    ∃ ts', Tiles offset (bs ++ ys) ts' ∧ Apart offset (byteLength bs) ts ts' :=
  ⟨_, .blanks hbs (h.shift _), .of_shift h⟩

/-- A place that is not inside the first lexeme of a text is behind it. -/
theorem exists_behind {xs ys w cs : List Char} (h : xs ++ ys = w ++ cs)
    (hplace : ¬ byteLength xs < byteLength w) : ∃ rest, xs = w ++ rest ∧ cs = rest ++ ys := by
  rcases List.append_eq_append_iff.1 h with ⟨inside, rfl, rfl⟩ | hbehind
  · cases inside with
    | nil => exact ⟨[], by rw [List.append_nil, List.append_nil], rfl⟩
    | cons d inside =>
      have hpos := byteLength_pos (List.cons_ne_nil d inside)
      rw [byteLength_append] at hplace
      omega
  · exact hbehind

/-- Blanks put in where no token stands move the tokens behind them, and may make a comment
longer. -/
theorem Tiles.insert (hbs : ∀ b ∈ bs, isBlank b = true) {offset : Nat} {xs ys : List Char}
    {ts : List Token} (h : Tiles offset (xs ++ ys) ts)
    (hnames : ∀ t ∈ ts, t.kind = .identifier → IsName t.lexeme.toList)
    (hplace : ∀ t ∈ ts, ¬ (t.span.start < offset + byteLength xs ∧
      offset + byteLength xs < t.span.stop)) :
    ∃ ts', Tiles offset (xs ++ (bs ++ ys)) ts' ∧
      Apart (offset + byteLength xs) (byteLength bs) ts ts' := by
  -- The pieces before the place are gone through one by one until the text begins there.
  generalize hcs : xs ++ ys = cs at h
  induction h generalizing xs with
  | done offset =>
    obtain ⟨rfl, rfl⟩ := List.append_eq_nil_iff.1 hcs
    exact (Tiles.done offset).insert_front hbs
  | @blank offset c cs ts hc h ih =>
    cases xs with
    | nil =>
      rw [List.nil_append] at hcs
      subst hcs
      exact (Tiles.blank hc h).insert_front hbs
    | cons x xs =>
      obtain ⟨rfl, rfl⟩ := List.cons.inj hcs
      rw [byteLength_cons, ← Nat.add_assoc] at hplace ⊢
      obtain ⟨ts', hts', hapart⟩ := ih hnames hplace rfl
      exact ⟨ts', .blank hc hts', hapart⟩
  | @lexeme offset kind c w cs ts hc hmunch h ih =>
    cases xs with
    | nil =>
      rw [List.nil_append] at hcs
      subst hcs
      exact (Tiles.lexeme hc hmunch h).insert_front hbs
    | cons x xs =>
      obtain ⟨hoff, hplace⟩ := List.forall_mem_cons.1 hplace
      obtain ⟨hname, hnames⟩ := List.forall_mem_cons.1 hnames
      simp only [String.toList_ofList] at hname hoff
      have hpos := byteLength_pos (List.cons_ne_nil x xs)
      obtain ⟨rest, hxs, rfl⟩ := exists_behind hcs (by omega)
      rw [hxs, byteLength_append, ← Nat.add_assoc] at hplace ⊢
      by_cases hend : c = '#' ∧ rest = []
      · obtain ⟨rfl, rfl⟩ := hend
        obtain ⟨t, ht, htiles⟩ := Tiles.comment_blanks hbs hmunch h
        have hkind := (munch_comment_iff.1 hmunch).1
        refine ⟨_, by rwa [List.append_nil], ?_⟩
        have hrest : Apart _ (byteLength bs) ts _ := .of_shift h
        rw [Apart, List.filter_cons_of_neg (by simp [ht, hkind]),
          List.filter_cons_of_neg (by simp [hkind])]
        exact hrest
      · have hrest : c = '#' → rest ≠ [] := fun hc hnil => hend ⟨hc, hnil⟩
        obtain ⟨ts', hts', hapart⟩ := ih hnames hplace rfl
        have hlexeme := Tiles.lexeme hc (munch_blanks hbs hrest hname hmunch) hts'
        rw [← List.append_assoc (c :: w)] at hlexeme
        have hfirst := byteLength_pos (List.cons_ne_nil c w)
        exact ⟨_, hlexeme, hapart.cons (Span.spread_before (by simp only; omega)
          (by simp only; omega))⟩

/-- Where no token is stray, all tokens that count move as the blanks make room. -/
theorem content_insert (hbs : ∀ b ∈ bs, isBlank b = true) {xs ys : List Char}
    (hstray : ∀ t ∈ content 0 (xs ++ ys), t.kind ≠ .stray)
    (hplace : ∀ t ∈ lexemes 0 0 (xs ++ ys), ¬ (t.span.start < byteLength xs ∧
      byteLength xs < t.span.stop)) :
    content 0 (xs ++ (bs ++ ys)) = (content 0 (xs ++ ys)).map
      (relocate (Span.spread (byteLength xs) (byteLength bs))) := by
  have hnames : ∀ t ∈ lexemes 0 0 (xs ++ ys), t.kind = .identifier → IsName t.lexeme.toList := by
    intro t ht hkind
    have hmem : t ∈ content 0 (xs ++ ys) := List.mem_filter.2 ⟨ht, by simp [hkind]⟩
    exact isName_of_mem hstray hmem hkind
  rw [← Nat.zero_add (byteLength xs)] at hplace ⊢
  obtain ⟨ts', htiles, hapart⟩ := (tiles_lexemes 0 (xs ++ ys)).insert hbs hnames hplace
  rw [content, htiles.lexemes_eq]
  exact hapart

end Blanks

end Token

/-! ### Lines -/

/-- Making room keeps parentheses behind names, unless it is made between a name and its
parenthesis. -/
theorem moves_spread {place k : Nat} {ts : List Token}
    (hcall : ∀ t ∈ ts, t.kind = .identifier → t.span.stop = place →
      ∀ u ∈ ts, u.kind = .openParen → u.span.start ≠ place) :
    Moves (Span.spread place k) ts := by
  refine ⟨Span.spread_merge place k, fun t ht u hu hname hparen => ?_⟩
  have hne : t.span.stop = place → u.span.start ≠ place :=
    fun hstop => hcall t ht hname hstop u hu hparen
  simp only [Span.spread]
  split <;> split <;> omega

/-- The lines on relocated tokens are the relocated lines. -/
theorem Grammar.DerivesLine.relocate {f : Span → Span} {ts : List Token} {line : Line}
    (h : DerivesLine ts line) (hf : Moves f ts) :
    DerivesLine (ts.map (Token.relocate f)) (line.relocate f) := by
  have hread := Line.parseTokens_of_derives h (Token.endToken 0)
  have hmoved := Line.parseTokens_relocate (l := ⟨ts, Token.endToken 0⟩) hf
  rw [hread, mapBoth_ok] at hmoved
  exact Line.derives_of_parseTokens (by nofun) hmoved

/-- Blanks make no difference to a line, up to spans, if they are put in where no token stands and
not between a name and the parenthesis directly behind it. -/
theorem Line.ofString_blanks {before blanks after : String} {line : Line}
    (h : ofString (before ++ after) = .ok line)
    (hblanks : ∀ c ∈ blanks.toList, Token.isBlank c = true)
    (hplace : ∀ t ∈ tokenize (before ++ after),
      ¬ (t.span.start < byteLength before.toList ∧ byteLength before.toList < t.span.stop))
    (hcall : ∀ t ∈ tokenize (before ++ after), t.kind = .identifier →
      t.span.stop = byteLength before.toList → ∀ u ∈ tokenize (before ++ after),
        u.kind = .openParen → u.span.start ≠ byteLength before.toList) :
    ∃ line', ofString (before ++ blanks ++ after) = .ok line' ∧
      line'.relocate Span.forget = line.relocate Span.forget := by
  obtain ⟨ts, breaks, hcontent, hbreaks, hline⟩ := ofString_eq_ok_iff_derives.1 h
  have htoken : ∀ t ∈ Token.lexemes 0 0 (before ++ after).toList,
      t ∈ tokenize (before ++ after) := by
    intro t ht
    rw [tokenize, Token.scan_eq]
    exact List.mem_append_left _ ht
  have hmem : ∀ t ∈ ts, t ∈ tokenize (before ++ after) := by
    intro t ht
    have hcounts : t ∈ Token.content 0 (before ++ after).toList :=
      hcontent ▸ List.mem_append_left breaks ht
    exact htoken t (List.mem_filter.1 hcounts).1
  have hmoves : Moves (Span.spread (byteLength before.toList) (byteLength blanks.toList)) ts :=
    moves_spread fun t ht hname hstop u hu => hcall t (hmem t ht) hname hstop u (hmem u hu)
  have hstray : ∀ t ∈ Token.content 0 (before ++ after).toList, t.kind ≠ .stray := by
    rw [hcontent]
    refine List.forall_mem_append.2 ⟨hline.not_stray, fun t ht hkind => ?_⟩
    have hbreak := hbreaks t ht
    rw [hkind] at hbreak
    cases hbreak
  have hplace' := fun t ht => hplace t (htoken t ht)
  rw [String.toList_append] at hcontent hstray hplace'
  have hinserted := Token.content_insert hblanks hstray hplace'
  rw [hcontent, List.map_append, ← String.toList_append, ← String.toList_append,
    ← String.append_assoc] at hinserted
  have hbreaks' : ∀ t ∈ breaks.map (Token.relocate
      (Span.spread (byteLength before.toList) (byteLength blanks.toList))),
      t.kind.endsLine = true := by
    intro t ht
    obtain ⟨u, hu, rfl⟩ := List.mem_map.1 ht
    exact hbreaks u hu
  have hread := ofString_eq_ok_iff_derives.2 ⟨_, _, hinserted, hbreaks', hline.relocate hmoves⟩
  exact ⟨_, hread, Line.relocate_relocate Span.forget _ line⟩

/-- Blanks between a number and the unit behind it. -/
theorem Line.ofString_blanks_metre :
    Line.ofString ("2" ++ "m") = .ok (.expr (.combine .mul (.number ⟨2, 0⟩ ⟨0, 1⟩)
        (.name ⟨"m", ⟨1, 2⟩⟩))) ∧
      ∃ line, Line.ofString ("2" ++ " \t" ++ "m") = .ok line ∧
        line.relocate Span.forget = .expr (.binary .mul (.number ⟨2, 0⟩ ⟨0, 0⟩)
          (.name ⟨"m", ⟨0, 0⟩⟩) ⟨0, 0⟩) := by
  have hmetre : Line.ofString ("2" ++ "m") = .ok (.expr (.combine .mul (.number ⟨2, 0⟩ ⟨0, 1⟩)
      (.name ⟨"m", ⟨1, 2⟩⟩))) := by
    have htwo : Derives .juxtaposition [⟨.integer, "2", ⟨0, 1⟩⟩, ⟨.identifier, "m", ⟨1, 2⟩⟩]
        (.number ⟨2, 0⟩ ⟨0, 1⟩) [⟨.identifier, "m", ⟨1, 2⟩⟩] :=
      Derives.loosen (.number (.inl rfl) (by decide) (by decide)) (by decide)
    have hm : Derives .power [⟨.identifier, "m", ⟨1, 2⟩⟩] (.name ⟨"m", ⟨1, 2⟩⟩) [] :=
      Derives.loosen (.name rfl (by rintro ⟨u, us, ⟨⟩, -⟩)) (by decide)
    rw [Line.ofString_eq (by decide)]
    exact Line.parseTokens_of_phrase ((Derives.juxtapose htwo hm).loosen (by decide)) rfl _
  have hblanks : ∀ c ∈ " \t".toList, Token.isBlank c = true := List.all_eq_true.1 (by decide)
  exact ⟨hmetre, Line.ofString_blanks hmetre hblanks (by decide) (by decide)⟩

end UnitCalc
