import Mathlib.Data.List.TakeWhile
import UnitCalc.Proofs.LineByLine

/-! A program is read piece by piece. A source is cut after every newline; a last piece without a
newline does not count if it holds nothing but blanks and a comment, unless it is the only one. The
main result says that reading the program is reading each piece on its own: the lines are those of
the pieces, and if some pieces are malformed there is one error for each of them, in their order.
Spans are shifted by the place of the piece, and nothing else of a result depends on the pieces
around it. -/

namespace UnitCalc

/-! ### Pieces of a text -/

namespace Piece

/-- The pieces of a text, each with the newline that ends it. -/
def cut : List Char → List (List Char)
  | [] => []
  | c :: cs =>
    if c = '\n' then [c] :: cut cs
    else
      match cut cs with
      | [] => [[c]]
      | p :: ps => (c :: p) :: ps

/-- The empty text is one empty piece. -/
def pieces (cs : List Char) : List (List Char) := if cs = [] then [[]] else cut cs

/-- Blanks, with a comment behind them or without. -/
def isIdle (p : List Char) : Bool :=
  match p.dropWhile Token.isBlank with
  | [] => true
  | c :: _ => c = '#'

/-- A list without its last element if that has a property. -/
def dropLastIf {α : Type} (q : α → Bool) (as : List α) : List α :=
  if as.getLast?.any q then as.dropLast else as

/-- The pieces that count: an idle one at the end that no newline ends does not, unless it is the
only one. -/
def counted (cs : List Char) : List (List Char) :=
  if (pieces cs).length = 1 then pieces cs
  else dropLastIf (fun p => '\n' ∉ p && isIdle p) (pieces cs)

/-- Pieces with the places where they start, of which the first is `offset`. -/
def placed : Nat → List (List Char) → List (Nat × List Char)
  | _, [] => []
  | offset, p :: ps => (offset, p) :: placed (offset + byteLength p) ps

/-- A piece read on its own, with all spans shifted to its place. -/
def readAt (piece : Nat × List Char) : Except ParseError Line :=
  mapBoth (ParseError.relocate (Span.shift piece.1)) (Line.relocate (Span.shift piece.1))
    (Line.ofString (String.ofList piece.2))

/-! ### Cutting -/

theorem cut_line {xs : List Char} (hxs : '\n' ∉ xs) (ys : List Char) :
    cut (xs ++ '\n' :: ys) = (xs ++ ['\n']) :: cut ys := by
  induction xs with
  | nil => simp [cut]
  | cons c xs ih =>
    obtain ⟨hc, hxs⟩ := List.ne_and_not_mem_of_not_mem_cons hxs
    rw [List.cons_append, cut, if_neg (Ne.symm hc), ih hxs]
    rfl

theorem cut_single {xs : List Char} (hxs : '\n' ∉ xs) (hne : xs ≠ []) : cut xs = [xs] := by
  induction xs with
  | nil => contradiction
  | cons c xs ih =>
    obtain ⟨hc, hxs⟩ := List.ne_and_not_mem_of_not_mem_cons hxs
    rw [cut, if_neg (Ne.symm hc)]
    by_cases hnil : xs = []
    · rw [hnil, cut]
    · rw [ih hxs hnil]

/-- A text is a line without a newline, or such a line with a newline and another text. -/
theorem text_induct {motive : List Char → Prop} (last : ∀ xs, '\n' ∉ xs → motive xs)
    (line : ∀ xs ys, '\n' ∉ xs → motive ys → motive (xs ++ '\n' :: ys)) (cs : List Char) :
    motive cs := by
  induction hn : cs.length using Nat.strongRecOn generalizing cs with
  | ind n ih =>
    by_cases h : '\n' ∈ cs
    · obtain ⟨xs, ys, rfl, hxs⟩ := List.eq_append_cons_of_mem h
      have hlt : ys.length < n := by
        rw [← hn, List.length_append, List.length_cons]
        omega
      exact line xs ys hxs (ih ys.length hlt ys rfl)
    · exact last cs h

theorem dropLastIf_cons {α : Type} (q : α → Bool) (a : α) {as : List α} (h : as ≠ []) :
    dropLastIf q (a :: as) = a :: dropLastIf q as := by
  obtain ⟨b, bs, rfl⟩ := List.exists_cons_of_ne_nil h
  simp only [dropLastIf, List.getLast?_cons_cons, List.dropLast_cons_cons]
  split <;> rfl

theorem dropLastIf_singleton {α : Type} (q : α → Bool) (a : α) :
    dropLastIf q [a] = if q a then [] else [a] := rfl

end Piece

/-! ### Idle texts -/

namespace Token

theorem munch_comment (cs : List Char) :
    munch ('#' :: cs) = (.comment, 1 + (cs.takeWhile (· ≠ '\n')).length) := by
  have hnumber : number? ('#' :: cs) = none := by simp [number?, digitsLength]
  have hstart : isIdentifierStart '#' = false := by decide
  have hword : word? ('#' :: cs) = none := by simp [word?, identifierLength, hstart]
  have hcomment : comment? ('#' :: cs) = some (.comment, 1 + (cs.takeWhile (· ≠ '\n')).length) := by
    simp [comment?, commentLength]
  rw [munch, munch?, hnumber, hword, hcomment]
  rfl

/-- A comment reaches to the end of its line. -/
theorem munch_comment_line {cs : List Char} (hcs : '\n' ∉ cs) :
    munch ('#' :: cs) = (.comment, 1 + cs.length) := by
  have hall : cs.takeWhile (· ≠ '\n') = cs := by
    refine List.takeWhile_eq_self_iff.2 fun d hd => ?_
    rw [decide_eq_true_iff]
    rintro rfl
    exact hcs hd
  rw [munch_comment, hall]

/-- Only `#` begins a comment. -/
theorem head_of_munch_comment {c : Char} {cs : List Char}
    (h : (munch (c :: cs)).1 = .comment) : c = '#' := by
  by_contra hc
  have hcomment : comment? (c :: cs) = none := by simp [comment?, commentLength_of_ne hc]
  rw [munch, munch?, hcomment] at h
  cases hnumber : number? (c :: cs) with
  | some r =>
    rw [hnumber] at h
    simp only [number?] at hnumber
    split at hnumber
    · cases hnumber
    · split at hnumber <;> cases hnumber <;> cases h
  | none =>
    rw [hnumber] at h
    cases hword : word? (c :: cs) with
    | some r =>
      rw [hword] at h
      simp only [word?, keywordOrIdentifier] at hword
      split_ifs at hword <;> cases hword <;> cases h
    | none =>
      rw [hword, symbol?.eq_def] at h
      split at h <;> cases h

theorem lexemes_skip_all {skip : Nat} {cs : List Char} (h : cs.length ≤ skip) (offset : Nat) :
    lexemes skip offset cs = [] := by
  rw [lexemes, scan_skip, List.drop_eq_nil_of_le h]
  rfl

/-- An idle text is one without tokens. -/
theorem content_eq_nil_iff {cs : List Char} (hcs : '\n' ∉ cs) (offset : Nat) :
    content offset cs = [] ↔ Piece.isIdle cs = true := by
  induction cs generalizing offset with
  | nil => simp [content, Piece.isIdle]
  | cons c cs ih =>
    obtain ⟨-, htail⟩ := List.ne_and_not_mem_of_not_mem_cons hcs
    rw [content, lexemes_cons]
    by_cases hblank : isBlank c = true
    · have hidle : Piece.isIdle (c :: cs) = Piece.isIdle cs := by
        simp [Piece.isIdle, hblank]
      rw [if_pos hblank, hidle]
      exact ih htail _
    · have hidle : Piece.isIdle (c :: cs) = decide (c = '#') := by
        simp [Piece.isIdle, hblank]
      rw [if_neg hblank, hidle, decide_eq_true_iff]
      by_cases hc : c = '#'
      · subst hc
        have hkind : (ofHead offset ('#' :: cs)).kind = .comment := by rw [ofHead, munch_comment]
        rw [munch_comment_line htail, lexemes_skip_all (by omega)]
        simp [hkind]
      · have hkind : (ofHead offset (c :: cs)).kind ≠ .comment := fun h =>
          hc (head_of_munch_comment h)
        simp [hkind, hc]

end Token

/-! ### Reading a piece -/

namespace Piece

open Token

/-- A line further down is read like the line at the start of a text. -/
theorem parseTokens_shift (offset : Nat) (cs : List Char) (stop : Token) :
    mapBoth (ParseError.relocate (Span.shift offset)) (Line.relocate (Span.shift offset))
        (Line.parseTokens ⟨content 0 cs, stop⟩) =
      Line.parseTokens ⟨content offset cs, stop.relocate (Span.shift offset)⟩ := by
  rw [content_shift offset, ← Line.parseTokens_relocate (moves_shift offset _)]
  rfl

theorem readAt_line {xs : List Char} (hxs : '\n' ∉ xs) (offset : Nat) :
    readAt (offset, xs ++ ['\n']) =
      Line.parseTokens ⟨content offset xs, newlineToken (offset + byteLength xs)⟩ := by
  have hlines : TokenLine.ofSource (String.ofList (xs ++ ['\n'])) =
      [⟨content 0 xs, newlineToken (byteLength xs)⟩, ⟨[], endToken (byteLength xs + 1)⟩] := by
    rw [TokenLine.ofSource_eq, String.toList_ofList, TokenLine.ofText_line hxs, Nat.zero_add]
    rfl
  have hread : Line.ofString (String.ofList (xs ++ ['\n'])) =
      Line.parseTokens ⟨content 0 xs, newlineToken (byteLength xs)⟩ := by
    rw [Line.ofString_eq_ofLines, hlines, Line.ofLines]
    simp only [List.findSome?_cons, List.head?_nil, List.findSome?_nil]
    cases Line.parseTokens ⟨content 0 xs, newlineToken (byteLength xs)⟩ <;> rfl
  have hstop : (newlineToken (byteLength xs)).relocate (Span.shift offset) =
      newlineToken (offset + byteLength xs) := by
    simp only [newlineToken, Token.relocate, Span.shift, Token.mk.injEq, Span.mk.injEq, true_and]
    omega
  rw [readAt, hread, parseTokens_shift, hstop]

theorem readAt_last {xs : List Char} (hxs : '\n' ∉ xs) (offset : Nat) :
    readAt (offset, xs) =
      Line.parseTokens ⟨content offset xs, endToken (offset + byteLength xs)⟩ := by
  have hsource : '\n' ∉ (String.ofList xs).toList := by rwa [String.toList_ofList]
  have hread := Line.ofString_eq hsource
  rw [String.toList_ofList, Nat.zero_add] at hread
  have hstop : (endToken (byteLength xs)).relocate (Span.shift offset) =
      endToken (offset + byteLength xs) := by
    simp only [endToken, Token.relocate, Span.shift, Token.mk.injEq, Span.mk.injEq, true_and]
    omega
  rw [readAt, hread, parseTokens_shift, hstop]

/-! ### Reading a program -/

theorem ofText_ne_nil (offset : Nat) (cs : List Char) : TokenLine.ofText offset cs ≠ [] := by
  by_cases h : '\n' ∈ cs
  · obtain ⟨xs, ys, rfl, hxs⟩ := List.eq_append_cons_of_mem h
    rw [TokenLine.ofText_line hxs]
    exact List.cons_ne_nil _ _
  · rw [TokenLine.ofText_single h]
    exact List.cons_ne_nil _ _

/-- Lines without an empty last one are pieces without an idle last one. -/
theorem parseTokens_ofText (offset : Nat) (cs : List Char) :
    (dropLastIf (·.tokens = []) (TokenLine.ofText offset cs)).map Line.parseTokens =
      (placed offset (dropLastIf (fun p => '\n' ∉ p && isIdle p) (cut cs))).map readAt := by
  induction cs using text_induct generalizing offset with
  | last xs hxs =>
    rw [TokenLine.ofText_single hxs, dropLastIf_singleton]
    by_cases hnil : xs = []
    · subst hnil
      rfl
    · rw [cut_single hxs hnil, dropLastIf_singleton]
      by_cases hidle : isIdle xs = true
      · have hempty : content offset xs = [] := (content_eq_nil_iff hxs offset).2 hidle
        simp [hempty, hxs, hidle, placed]
      · have hfull : content offset xs ≠ [] := fun h => hidle ((content_eq_nil_iff hxs offset).1 h)
        simp [hfull, hidle, placed, readAt_last hxs]
  | line xs ys hxs ih =>
    have hbytes : offset + byteLength (xs ++ ['\n']) = offset + byteLength xs + 1 := by
      rw [byteLength_append, ← Nat.add_assoc]
      rfl
    have hpieces : dropLastIf (fun p => '\n' ∉ p && isIdle p) ((xs ++ ['\n']) :: cut ys) =
        (xs ++ ['\n']) :: dropLastIf (fun p => '\n' ∉ p && isIdle p) (cut ys) := by
      by_cases hnil : cut ys = []
      · rw [hnil, dropLastIf_singleton]
        simp [dropLastIf]
      · exact dropLastIf_cons _ _ hnil
    rw [TokenLine.ofText_line hxs, dropLastIf_cons _ _ (ofText_ne_nil _ _), cut_line hxs, hpieces,
      List.map_cons, ih, placed, List.map_cons, readAt_line hxs, hbytes]

theorem ofProgram_eq (source : String) :
    TokenLine.ofProgram source =
      if (TokenLine.ofSource source).length = 1 then TokenLine.ofSource source
      else dropLastIf (·.tokens = []) (TokenLine.ofSource source) := by
  have hany : ∀ ls : List TokenLine, (ls.getLast?.any (·.tokens = []) = true) ↔
      ls.getLast?.map (·.tokens) = some [] := by
    intro ls
    cases ls.getLast? <;> simp
  rw [TokenLine.ofProgram]
  split
  · rename_i l hl
    rw [hl]
    rfl
  · rename_i hls
    have hlength : (TokenLine.ofSource source).length ≠ 1 := by
      intro h
      obtain ⟨l, hl⟩ := List.length_eq_one_iff.1 h
      exact hls l hl
    rw [if_neg hlength, dropLastIf]
    simp only [hany]

/-- The lines of a program are read like its pieces. -/
theorem parseTokens_ofProgram (source : String) :
    (TokenLine.ofProgram source).map Line.parseTokens =
      (placed 0 (counted source.toList)).map readAt := by
  rw [ofProgram_eq, TokenLine.ofSource_eq, counted]
  by_cases h : '\n' ∈ source.toList
  · obtain ⟨xs, ys, hsource, hxs⟩ := List.eq_append_cons_of_mem h
    have hpieces : pieces source.toList = cut source.toList := by
      rw [pieces, if_neg (by simp [hsource])]
    have hlines : (TokenLine.ofText 0 source.toList).length ≠ 1 := by
      rw [hsource, TokenLine.ofText_line hxs, List.length_cons]
      have := List.length_pos_of_ne_nil (ofText_ne_nil (0 + byteLength xs + 1) ys)
      omega
    -- A single piece ends in a newline here, so it is not dropped either way.
    have hcounted : (if (cut source.toList).length = 1 then cut source.toList
        else dropLastIf (fun p => '\n' ∉ p && isIdle p) (cut source.toList)) =
        dropLastIf (fun p => '\n' ∉ p && isIdle p) (cut source.toList) := by
      by_cases hone : (cut source.toList).length = 1
      · rw [if_pos hone, hsource, cut_line hxs]
        rw [hsource, cut_line hxs, List.length_cons, Nat.add_eq_right, List.length_eq_zero_iff]
          at hone
        rw [hone]
        simp [dropLastIf]
      · rw [if_neg hone]
    rw [if_neg hlines, hpieces, hcounted, parseTokens_ofText]
  · have hpieces : pieces source.toList = [source.toList] := by
      by_cases hnil : source.toList = []
      · rw [pieces, if_pos hnil, hnil]
      · rw [pieces, if_neg hnil, cut_single h hnil]
    rw [TokenLine.ofText_single h, hpieces]
    simp [placed, readAt_last h]

end Piece

/-! ### All results, or all errors -/

/-- The error of a failed result. -/
def failure? {ε α : Type} : Except ε α → Option ε
  | .ok _ => none
  | .error e => some e

theorem collect_eq_ok_iff {ε α : Type} {rs : List (Except ε α)} {as : List α} :
    collect rs = .ok as ↔ rs = as.map .ok := by
  constructor
  · intro h
    induction rs generalizing as with
    | nil =>
      cases h
      rfl
    | cons r rs ih =>
      cases r with
      | ok a =>
        obtain ⟨as', has', rfl⟩ := map_eq_ok.1 h
        rw [List.map_cons, ih has']
      | error e =>
        rw [collect] at h
        split at h <;> cases h
  · rintro rfl
    exact collect_ok as

theorem collect_eq_error_iff {ε α : Type} {rs : List (Except ε α)} {es : List ε} :
    collect rs = .error es ↔ es ≠ [] ∧ es = rs.filterMap failure? := by
  induction rs generalizing es with
  | nil => simp [collect]
  | cons r rs ih =>
    cases r with
    | ok a => rw [collect, map_eq_error, ih, List.filterMap_cons_none rfl]
    | error e =>
      have hfailures : (Except.error e :: rs).filterMap failure? = e :: rs.filterMap failure? := rfl
      rw [collect, hfailures]
      cases hrest : collect rs with
      | ok as =>
        have hnone : rs.filterMap failure? = [] := by
          rw [collect_eq_ok_iff.1 hrest, List.filterMap_map, List.filterMap_eq_nil_iff]
          exact fun a _ => rfl
        rw [hnone]
        grind
      | error es' =>
        rw [← (ih.1 hrest).2]
        grind

theorem exists_eq_map_ok {ε α : Type} {rs : List (Except ε α)} :
    (∃ as : List α, rs = as.map .ok) ↔ ∀ r ∈ rs, ∃ a, r = .ok a := by
  constructor
  · rintro ⟨as, rfl⟩ r hr
    obtain ⟨a, -, rfl⟩ := List.mem_map.1 hr
    exact ⟨a, rfl⟩
  · intro h
    induction rs with
    | nil => exact ⟨[], rfl⟩
    | cons r rs ih =>
      obtain ⟨⟨a, rfl⟩, hrs⟩ := List.forall_mem_cons.1 h
      obtain ⟨as, rfl⟩ := ih hrs
      exact ⟨a :: as, rfl⟩

theorem Piece.readAt_eq_ok {offset : Nat} {p : List Char} :
    (∃ line, readAt (offset, p) = .ok line) ↔
      ∃ line, Line.ofString (String.ofList p) = .ok line := by
  rw [readAt]
  cases Line.ofString (String.ofList p) with
  | error e => simp
  | ok line => simp

theorem Piece.forall_placed {P : List Char → Prop} {offset : Nat} {ps : List (List Char)} :
    (∀ q ∈ placed offset ps, P q.2) ↔ ∀ p ∈ ps, P p := by
  induction ps generalizing offset with
  | nil => simp [placed]
  | cons p ps ih => simp only [placed, List.forall_mem_cons, ih]

/-- What the pieces of a program read as, each at its place. -/
def Piece.results (source : String) : List (Except ParseError Line) :=
  (placed 0 (counted source.toList)).map readAt

/-- A program can be read exactly if each of its pieces can; its lines are then the lines of the
pieces, and otherwise its errors are the errors of the malformed pieces, with all spans shifted to
the places of the pieces. -/
theorem parseProgram_by_pieces (source : String) :
    ((∃ lines, parseProgram source = .ok lines) ↔
        ∀ p ∈ Piece.counted source.toList, ∃ line, Line.ofString (String.ofList p) = .ok line) ∧
      (∀ lines, parseProgram source = .ok lines ↔ Piece.results source = lines.map .ok) ∧
      ∀ errors, parseProgram source = .error errors ↔
        errors ≠ [] ∧ errors = (Piece.results source).filterMap failure? := by
  have hprogram : parseProgram source = collect (Piece.results source) := by
    rw [parseProgram_eq_collect, Piece.parseTokens_ofProgram, Piece.results]
  simp only [hprogram, collect_eq_ok_iff]
  refine ⟨?_, fun lines => trivial, fun errors => collect_eq_error_iff⟩
  rw [exists_eq_map_ok, Piece.results, List.forall_mem_map]
  simp only [Piece.readAt_eq_ok]
  exact Piece.forall_placed (P := fun p => ∃ line, Line.ofString (String.ofList p) = .ok line)

end UnitCalc
