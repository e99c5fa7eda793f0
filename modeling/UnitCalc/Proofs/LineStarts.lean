import Mathlib.Data.List.DropRight
import Mathlib.Data.Prod.Lex
import UnitCalc.Proofs.Reports

/-! Lines and columns of offsets. An offset has a location exactly if it is the boundary of a
character, once it is cut down to the length of the source. Cut the text before it behind its last
newline: the first part counts the lines, the rest the columns. Later boundaries have later
locations. A table of the offsets at which lines start gives the same locations as reading the
source from its beginning. Both count from one with numbers of 32 bits, which do not reach to the
end of the longest sources that have offsets of 32 bits. -/

namespace UnitCalc

/-! ### Bytes -/

theorem utf8_toByteArray (source : String) :
    source.toByteArray.data.toList = source.toList.flatMap String.utf8EncodeChar := by
  conv_lhs => rw [← String.ofList_toList (s := source)]
  rw [String.toByteArray_ofList, List.utf8Encode, List.toList_data_toByteArray]

theorem length_utf8 (cs : List Char) :
    (cs.flatMap String.utf8EncodeChar).length = byteLength cs := by
  induction cs with
  | nil => rfl
  | cons c cs ih =>
    rw [List.flatMap_cons, List.length_append, ih, String.length_utf8EncodeChar, byteLength_cons]

theorem utf8ByteSize_eq (source : String) : source.utf8ByteSize = byteLength source.toList := by
  rw [← length_utf8, ← utf8_toByteArray, Array.length_toList]
  rfl

theorem length_le_byteLength (cs : List Char) : cs.length ≤ byteLength cs := by
  induction cs with
  | nil => exact Nat.le_refl 0
  | cons c cs ih =>
    have hpos := c.utf8Size_pos
    rw [List.length_cons, byteLength_cons]
    omega

/-- The byte of a newline is part of no other character. -/
theorem count_newline_utf8Char (c : Char) :
    (String.utf8EncodeChar c).count 10 = [c].count '\n' := by
  by_cases hc : c = '\n'
  · rw [hc]
    decide
  · have hval : c.val.toNat ≠ 10 := fun h => hc (Char.ext (UInt32.toNat_inj.1 h))
    have hnone : (10 : UInt8) ∉ String.utf8EncodeChar c := by
      intro hmem
      simp only [String.utf8EncodeChar] at hmem
      generalize c.val.toNat = v at hval hmem
      split_ifs at hmem <;> simp [← UInt8.toNat_inj] at hmem <;> omega
    rw [List.count_eq_zero_of_not_mem hnone, List.count_eq_zero_of_not_mem]
    simpa using Ne.symm hc

theorem count_newline_utf8 (cs : List Char) :
    (cs.flatMap String.utf8EncodeChar).count 10 = cs.count '\n' := by
  induction cs with
  | nil => rfl
  | cons c cs ih =>
    rw [List.flatMap_cons, List.count_append, count_newline_utf8Char, ih, ← List.count_append,
      List.singleton_append]

/-- The newlines before a boundary are the newline bytes before it. -/
theorem count_newline_take {source : String} {before after : List Char}
    (h : source.toList = before ++ after) {offset : Nat}
    (hoffset : min offset source.utf8ByteSize = byteLength before) :
    (source.toByteArray.data.toList.take offset).count 10 = before.count '\n' := by
  have htake : source.toByteArray.data.toList.take offset =
      before.flatMap String.utf8EncodeChar := by
    rw [utf8_toByteArray, h, List.flatMap_append, List.take_append]
    rw [utf8ByteSize_eq, h, byteLength_append] at hoffset
    rcases Nat.le_total offset (byteLength before + byteLength after) with hle | hle
    · rw [min_eq_left hle] at hoffset
      rw [hoffset, length_utf8, Nat.sub_self, List.take_zero, List.append_nil, ← length_utf8,
        List.take_length]
    · rw [min_eq_right hle] at hoffset
      have hnil : after.flatMap String.utf8EncodeChar = [] :=
        List.length_eq_zero_iff.1 (by rw [length_utf8]; omega)
      rw [hnil, List.take_nil, List.append_nil, List.take_of_length_le (by rw [length_utf8]; omega)]
  rw [htake, count_newline_utf8]

/-- Boundaries are the valid positions of the text. -/
theorem boundary_iff_isValid {source : String} {offset : Nat} :
    Boundary source offset ↔ (⟨offset⟩ : String.Pos.Raw).IsValid source := by
  rw [String.Pos.Raw.isValid_iff_exists_append]
  constructor
  · rintro ⟨before, after, hsource, rfl⟩
    refine ⟨.ofList before, .ofList after, ?_, ?_⟩
    · rw [← String.ofList_append, ← hsource, String.ofList_toList]
    · rw [String.rawEndPos, utf8ByteSize_eq, String.toList_ofList]
  · rintro ⟨s₁, s₂, rfl, hoffset⟩
    refine ⟨s₁.toList, s₂.toList, String.toList_append, ?_⟩
    rw [← utf8ByteSize_eq]
    exact congrArg String.Pos.Raw.byteIdx hoffset

/-! ### Where lookups succeed -/

namespace Location

theorem advance_eq_some {l l' : Location} {cs : List Char} {n : Nat}
    (h : l.advance cs n = some l') :
    ∃ before after, cs = before ++ after ∧ min n (byteLength cs) = byteLength before ∧
      l' = before.foldl Location.after l := by
  induction cs generalizing l n with
  | nil =>
    have hl : l = l' := by cases n <;> exact Option.some.inj h
    exact ⟨[], [], rfl, Nat.min_zero n, hl.symm⟩
  | cons c cs ih =>
    cases n with
    | zero =>
      cases h
      exact ⟨[], c :: cs, rfl, Nat.zero_min _, rfl⟩
    | succ n =>
      rw [advance] at h
      split at h
      · obtain ⟨before, after, rfl, hbefore, rfl⟩ := ih h
        refine ⟨c :: before, after, rfl, ?_, rfl⟩
        rw [byteLength_cons, byteLength_cons]
        omega
      · cases h

theorem advance_min (l : Location) (cs : List Char) (n : Nat) :
    l.advance cs (min n (byteLength cs)) = l.advance cs n := by
  induction cs generalizing l n with
  | nil =>
    rw [byteLength_nil, Nat.min_zero]
    cases n <;> rfl
  | cons c cs ih =>
    have hpos := c.utf8Size_pos
    cases n with
    | zero => rw [Nat.zero_min]
    | succ n =>
      rw [byteLength_cons]
      obtain ⟨m, hm⟩ : ∃ m, min (n + 1) (c.utf8Size + byteLength cs) = m + 1 :=
        ⟨min (n + 1) (c.utf8Size + byteLength cs) - 1, by omega⟩
      rw [hm, advance, advance]
      by_cases hc : c.utf8Size ≤ n + 1
      · rw [if_pos hc, if_pos (by omega), ← ih _ (n + 1 - c.utf8Size)]
        congr 1
        omega
      · rw [if_neg hc, if_neg (by omega)]

/-- An offset has the location of the boundary that it is cut down to. -/
theorem ofOffset?_eq_some_iff {source : String} {offset : Nat} {l : Location} :
    ofOffset? source offset = some l ↔
      ∃ before after, source.toList = before ++ after ∧
        min offset source.utf8ByteSize = byteLength before ∧ l = (behind before).wrapped := by
  rw [utf8ByteSize_eq]
  constructor
  · intro h
    obtain ⟨before, after, hsource, hoffset, rfl⟩ := advance_eq_some h
    refine ⟨before, after, hsource, hoffset, ?_⟩
    rw [← List.nil_append before, ← foldl_after, List.nil_append]
    rfl
  · rintro ⟨before, after, hsource, hoffset, rfl⟩
    rw [← ofOffset?_eq hsource, ← hoffset, ofOffset?, ofOffset?, advance_min]

/-! ### Order -/

/-- Locations in the order of the text: by lines, and in one line by columns. -/
def place (l : Location) : Nat ×ₗ Nat := toLex (l.line, l.column)

theorem place_behind_concat (before : List Char) (c : Char) :
    (behind before).place < (behind (before ++ [c])).place := by
  rw [place, place, Prod.Lex.toLex_lt_toLex]
  by_cases hc : c = '\n'
  · simp [behind, hc]
  · simp [behind, hc]

theorem place_behind_le (before more : List Char) :
    (behind before).place ≤ (behind (before ++ more)).place := by
  induction more generalizing before with
  | nil => rw [List.append_nil]
  | cons c more ih =>
    rw [← List.singleton_append, ← List.append_assoc]
    exact (place_behind_concat before c).le.trans (ih _)

/-- A longer text leads to a later place. -/
theorem place_behind_lt {before more : List Char} (h : more ≠ []) :
    (behind before).place < (behind (before ++ more)).place := by
  obtain ⟨c, cs, rfl⟩ := List.exists_cons_of_ne_nil h
  rw [← List.singleton_append, ← List.append_assoc]
  exact (place_behind_concat before c).trans_le (place_behind_le _ cs)

/-- Of two beginnings of a text, the one that has more bytes leads to the later place. -/
theorem place_lt_of_byteLength_lt {xs xs' ys ys' : List Char} (h : xs ++ xs' = ys ++ ys')
    (hlt : byteLength xs < byteLength ys) : (behind xs).place < (behind ys).place := by
  rcases List.append_eq_append_iff.1 h with ⟨more, rfl, -⟩ | ⟨more, rfl, -⟩
  · apply place_behind_lt
    rintro rfl
    rw [List.append_nil] at hlt
    exact Nat.lt_irrefl _ hlt
  · rw [byteLength_append] at hlt
    omega

/-! ### The last newline before an offset -/

/-- The text before an offset, cut behind its last newline: the lines that are over, and the part of
the offset's own line that stands before it. -/
structure Cut (source : String) (offset : Nat) (lines part : List Char) : Prop where
  stands : ∃ rest, source.toList = lines ++ part ++ rest
  offset_eq : offset = byteLength (lines ++ part)
  ended : ∀ c ∈ lines.getLast?, c = '\n'
  unbroken : '\n' ∉ part

theorem exists_cut {source : String} {before after : List Char}
    (h : source.toList = before ++ after) :
    ∃ lines part, Cut source (byteLength before) lines part ∧
      behind before = ⟨1 + lines.count '\n', 1 + part.length⟩ := by
  have hsplit : before.rdropWhile (· ≠ '\n') ++ before.rtakeWhile (· ≠ '\n') = before :=
    List.rdropWhile_append_rtakeWhile
  have hunbroken : '\n' ∉ before.rtakeWhile (· ≠ '\n') := by
    intro hmem
    have := List.mem_rtakeWhile_imp hmem
    simp at this
  refine ⟨before.rdropWhile (· ≠ '\n'), before.rtakeWhile (· ≠ '\n'), ?_, ?_⟩
  · refine ⟨⟨after, hsplit.symm ▸ h⟩, by rw [hsplit], fun c hc => ?_, hunbroken⟩
    obtain ⟨hne, rfl⟩ := List.mem_getLast?_eq_getLast hc
    simpa using List.rdropWhile_last_not (· ≠ '\n') before hne
  · have hcount := congrArg (List.count '\n') hsplit
    rw [List.count_append, List.count_eq_zero_of_not_mem hunbroken, Nat.add_zero] at hcount
    rw [behind, hcount, List.rtakeWhile, List.length_reverse]

/-- What stands before an offset that has a location, and that location. -/
theorem exists_cut_of_ofOffset? {source : String} {offset : Nat} {l : Location}
    (h : ofOffset? source offset = some l) :
    ∃ lines part, Cut source (min offset source.utf8ByteSize) lines part ∧
      l = wrapped ⟨1 + lines.count '\n', 1 + part.length⟩ := by
  obtain ⟨before, after, hsource, hoffset, rfl⟩ := ofOffset?_eq_some_iff.1 h
  obtain ⟨lines, part, hcut, hbehind⟩ := exists_cut hsource
  exact ⟨lines, part, hoffset ▸ hcut, congrArg wrapped hbehind⟩

end Location

/-! ### A table of line starts -/

/-- The offsets behind the newlines of a text that starts at byte `offset`. -/
def startsBehind (offset : Nat) : List Char → List Nat
  | [] => []
  | c :: cs =>
    if c = '\n' then (offset + c.utf8Size) :: startsBehind (offset + c.utf8Size) cs
    else startsBehind (offset + c.utf8Size) cs

/-- The offsets at which the lines of a source start. -/
def lineStarts (source : String) : List Nat := 0 :: startsBehind 0 source.toList

/-- Cuts a text behind its first `n` bytes, unless that would cut a character. -/
def cutAt? : Nat → List Char → Option (List Char × List Char)
  | 0, cs => some ([], cs)
  | _ + 1, [] => none
  | n + 1, c :: cs =>
    if c.utf8Size ≤ n + 1 then
      (cutAt? (n + 1 - c.utf8Size) cs).map fun r => (c :: r.1, r.2)
    else none

/-- The characters between two offsets, if both are boundaries and stand in order. -/
def between? (start stop : Nat) (cs : List Char) : Option (List Char) :=
  if start ≤ stop then
    (cutAt? start cs).bind fun behind => (cutAt? (stop - start) behind.2).map Prod.fst
  else none

/-- The location of an offset by the table: its line is the last one that starts no later, and the
characters from there on give the column. -/
def Location.ofStarts? (source : String) (offset : Nat) : Option Location :=
  let offset := min offset source.utf8ByteSize
  let line := ((lineStarts source).takeWhile (· ≤ offset)).length - 1
  (lineStarts source)[line]?.bind fun start =>
    (between? start offset source.toList).map fun part =>
      ⟨wrap (line + 1), wrap (part.length + 1)⟩

theorem startsBehind_append (offset : Nat) (xs ys : List Char) :
    startsBehind offset (xs ++ ys) =
      startsBehind offset xs ++ startsBehind (offset + byteLength xs) ys := by
  induction xs generalizing offset with
  | nil => rfl
  | cons c xs ih =>
    rw [List.cons_append, startsBehind, startsBehind, ih, byteLength_cons, Nat.add_assoc]
    split <;> rfl

theorem length_startsBehind (offset : Nat) (cs : List Char) :
    (startsBehind offset cs).length = cs.count '\n' := by
  induction cs generalizing offset with
  | nil => rfl
  | cons c cs ih =>
    rw [startsBehind, List.count_cons]
    split
    · rename_i hc
      rw [List.length_cons, ih, hc]
      rfl
    · rename_i hc
      rw [ih, if_neg (by simpa using hc)]
      rfl

theorem mem_startsBehind {offset : Nat} {cs : List Char} {start : Nat}
    (h : start ∈ startsBehind offset cs) : offset < start ∧ start ≤ offset + byteLength cs := by
  induction cs generalizing offset with
  | nil => cases h
  | cons c cs ih =>
    have hpos := c.utf8Size_pos
    rw [byteLength_cons]
    rw [startsBehind] at h
    split at h
    · rcases List.mem_cons.1 h with rfl | h
      · omega
      · have := ih h
        omega
    · have := ih h
      omega

theorem startsBehind_ascending (offset : Nat) (cs : List Char) :
    (startsBehind offset cs).Pairwise (· < ·) := by
  induction cs generalizing offset with
  | nil => exact .nil
  | cons c cs ih =>
    rw [startsBehind]
    split
    · exact List.pairwise_cons.2 ⟨fun start h => (mem_startsBehind h).1, ih _⟩
    · exact ih _

/-- The table is in increasing order, so a search by halves finds how many lines have started. -/
theorem lineStarts_ascending (source : String) : (lineStarts source).Pairwise (· < ·) :=
  List.pairwise_cons.2 ⟨fun _ h => (mem_startsBehind h).1, startsBehind_ascending 0 _⟩

theorem cutAt?_append (xs ys : List Char) : cutAt? (byteLength xs) (xs ++ ys) = some (xs, ys) := by
  induction xs with
  | nil => rw [byteLength_nil, List.nil_append, cutAt?.eq_def]
  | cons c xs ih =>
    have hpos := c.utf8Size_pos
    obtain ⟨n, hn⟩ : ∃ n, byteLength (c :: xs) = n + 1 := ⟨byteLength (c :: xs) - 1, by
      rw [byteLength_cons]
      omega⟩
    rw [hn, List.cons_append, cutAt?]
    rw [byteLength_cons] at hn
    rw [if_pos (by omega), show n + 1 - c.utf8Size = byteLength xs by omega, ih]
    rfl

theorem cutAt?_eq_some {n : Nat} {cs xs ys : List Char} (h : cutAt? n cs = some (xs, ys)) :
    cs = xs ++ ys ∧ n = byteLength xs := by
  induction cs generalizing n xs with
  | nil =>
    cases n with
    | zero =>
      cases h
      exact ⟨rfl, rfl⟩
    | succ n => cases h
  | cons c cs ih =>
    cases n with
    | zero =>
      cases h
      exact ⟨rfl, rfl⟩
    | succ n =>
      rw [cutAt?] at h
      split at h
      · obtain ⟨⟨us, vs⟩, hr, heq⟩ := Option.map_eq_some_iff.1 h
        simp only [Prod.mk.injEq] at heq
        obtain ⟨rfl, rfl⟩ := heq
        obtain ⟨rfl, hn⟩ := ih hr
        rw [byteLength_cons]
        exact ⟨rfl, by omega⟩
      · cases h

theorem between?_append (xs part rest : List Char) :
    between? (byteLength xs) (byteLength (xs ++ part)) (xs ++ part ++ rest) = some part := by
  have hlength : byteLength (xs ++ part) - byteLength xs = byteLength part := by
    rw [byteLength_append, Nat.add_sub_cancel_left]
  rw [between?, if_pos (by rw [byteLength_append]; exact Nat.le_add_right _ _), List.append_assoc,
    cutAt?_append, Option.bind_some, hlength, cutAt?_append]
  rfl

theorem boundary_of_between? {source : String} {start stop : Nat} {part : List Char}
    (h : between? start stop source.toList = some part) : Boundary source stop := by
  rw [between?] at h
  split at h
  · rename_i hle
    obtain ⟨⟨xs, ys⟩, hxs, h⟩ := Option.bind_eq_some_iff.1 h
    obtain ⟨⟨us, vs⟩, hus, -⟩ := Option.map_eq_some_iff.1 h
    obtain ⟨hsource, hstart⟩ := cutAt?_eq_some hxs
    obtain ⟨hys, hstop⟩ := cutAt?_eq_some hus
    refine ⟨xs ++ us, vs, ?_, ?_⟩
    · rw [hsource, List.append_assoc, ← hys]
    · rw [byteLength_append]
      omega
  · cases h

namespace Location

/-- The lines that have started at an offset are the first and those behind a newline before it. -/
theorem takeWhile_lineStarts {source : String} {before after : List Char}
    (h : source.toList = before ++ after) :
    (lineStarts source).takeWhile (· ≤ byteLength before) = 0 :: startsBehind 0 before := by
  have hbefore : ∀ start ∈ 0 :: startsBehind 0 before,
      decide (start ≤ byteLength before) = true := by
    intro start hstart
    refine decide_eq_true ?_
    rcases List.mem_cons.1 hstart with rfl | hstart
    · exact Nat.zero_le _
    · have := (mem_startsBehind hstart).2
      omega
  have hafter : (startsBehind (0 + byteLength before) after).takeWhile
      (· ≤ byteLength before) = [] := by
    rw [List.takeWhile_eq_nil_iff]
    intro hpos
    have := (mem_startsBehind (List.getElem_mem hpos)).1
    simpa using this
  rw [lineStarts, h, startsBehind_append, ← List.cons_append,
    List.takeWhile_append_of_pos hbefore, hafter, List.append_nil]

/-- The line of an offset starts behind the last newline before it. -/
theorem Cut.start {source : String} {offset : Nat} {lines part : List Char}
    (h : Cut source offset lines part) :
    (lineStarts source)[lines.count '\n']? = some (byteLength lines) := by
  obtain ⟨rest, hrest⟩ := h.stands
  rcases List.eq_nil_or_concat' lines with rfl | ⟨before, c, rfl⟩
  · rfl
  · have hc : c = '\n' := h.ended c List.getLast?_concat
    have hindex : (before ++ [c]).count '\n' = (startsBehind 0 before).length + 1 := by
      rw [hc, List.count_append, length_startsBehind]
      rfl
    rw [hindex, lineStarts, hrest, List.getElem?_cons_succ, List.append_assoc, List.append_assoc,
      startsBehind_append, List.getElem?_append_right le_rfl, Nat.sub_self, hc, byteLength_append,
      Nat.zero_add]
    rfl

/-- The table gives the same locations as reading the source from its beginning. -/
theorem ofStarts?_eq (source : String) (offset : Nat) :
    ofStarts? source offset = ofOffset? source offset := by
  cases h : ofOffset? source offset with
  | none =>
    rw [Option.eq_none_iff_forall_ne_some]
    intro l hl
    obtain ⟨start, -, hl⟩ := Option.bind_eq_some_iff.1 hl
    obtain ⟨part, hpart, -⟩ := Option.map_eq_some_iff.1 hl
    obtain ⟨before, after, hsource, hoffset⟩ := boundary_of_between? hpart
    have hsome := ofOffset?_eq_some_iff.2 ⟨before, after, hsource, hoffset, rfl⟩
    rw [h] at hsome
    cases hsome
  | some l =>
    obtain ⟨lines, part, hcut, rfl⟩ := exists_cut_of_ofOffset? h
    obtain ⟨rest, hrest⟩ := hcut.stands
    have hline : ((lineStarts source).takeWhile (· ≤ byteLength (lines ++ part))).length - 1 =
        lines.count '\n' := by
      rw [takeWhile_lineStarts hrest, List.length_cons, length_startsBehind, Nat.add_sub_cancel,
        List.count_append, List.count_eq_zero_of_not_mem hcut.unbroken, Nat.add_zero]
    simp only [ofStarts?, hcut.offset_eq, hline, hcut.start, Option.bind_some]
    rw [hrest, between?_append, Nat.add_comm 1, Nat.add_comm 1]
    rfl

/-! ### Numbers of 32 bits -/

/-- A text whose end has a number too large for 32 bits: as many characters as the largest offset
says, all in one line or all newlines. -/
def Overlong (source : String) : Prop :=
  source.length = 2 ^ 32 - 1 ∧ ('\n' ∉ source.toList ∨ ∀ c ∈ source.toList, c = '\n')

/-- The numbers of a place behind fewer characters fit. -/
theorem wrapped_behind_of_length {before : List Char} (h : before.length < 2 ^ 32 - 1) :
    (behind before).wrapped = behind before := by
  have hcount := before.count_le_length (a := '\n')
  have hpart := (List.takeWhile_prefix (· ≠ '\n') (l := before.reverse)).length_le
  rw [List.length_reverse] at hpart
  rw [wrapped_eq_self_iff]
  constructor
  · show 1 + before.count '\n' < 2 ^ 32
    omega
  · show 1 + (before.reverse.takeWhile (· ≠ '\n')).length < 2 ^ 32
    omega

/-- A beginning with so many characters is the whole of a source with offsets of 32 bits. -/
theorem toList_eq_of_length {source : String} (hsize : source.utf8ByteSize < 2 ^ 32)
    {before after : List Char} (h : source.toList = before ++ after)
    (hlength : 2 ^ 32 - 1 ≤ before.length) :
    source.toList = before ∧ before.length = 2 ^ 32 - 1 := by
  have hbefore := length_le_byteLength before
  have hafter := length_le_byteLength after
  rw [utf8ByteSize_eq, h, byteLength_append] at hsize
  have hnil : after = [] := List.length_eq_zero_iff.1 (by omega)
  rw [hnil, List.append_nil] at h
  exact ⟨h, by omega⟩

/-- The numbers of all other ends, and of all places before an end, fit. -/
theorem wrapped_behind {source : String} (hsize : source.utf8ByteSize < 2 ^ 32)
    (hfits : ¬ Overlong source) {before after : List Char} (h : source.toList = before ++ after) :
    (behind before).wrapped = behind before := by
  rcases Nat.lt_or_ge before.length (2 ^ 32 - 1) with hlt | hge
  · exact wrapped_behind_of_length hlt
  · obtain ⟨hsource, hlength⟩ := toList_eq_of_length hsize h hge
    have hchars : source.length = 2 ^ 32 - 1 := by rw [← String.length_toList, hsource, hlength]
    have hcount : before.count '\n' ≠ before.length := by
      intro heq
      have hall := List.count_eq_length.1 heq
      exact hfits ⟨hchars, .inr fun c hc => (hall c (hsource ▸ hc)).symm⟩
    have hprefix := List.takeWhile_prefix (· ≠ '\n') (l := before.reverse)
    have hpart : (before.reverse.takeWhile (· ≠ '\n')).length ≠ before.reverse.length := by
      intro heq
      have hall := hprefix.eq_of_length heq
      refine hfits ⟨hchars, .inl fun hmem => ?_⟩
      rw [hsource, ← List.mem_reverse, ← hall] at hmem
      simpa using List.mem_takeWhile_imp hmem
    have hcountle := before.count_le_length (a := '\n')
    have hpartle := hprefix.length_le
    rw [List.length_reverse] at hpart hpartle
    rw [wrapped_eq_self_iff]
    constructor
    · show 1 + before.count '\n' < 2 ^ 32
      omega
    · show 1 + (before.reverse.takeWhile (· ≠ '\n')).length < 2 ^ 32
      omega

/-- At the end of an overlong source one of the numbers is zero. -/
theorem Overlong.ofOffset?_end {source : String} (h : Overlong source)
    (hsize : source.utf8ByteSize < 2 ^ 32) :
    source.utf8ByteSize = 2 ^ 32 - 1 ∧ (ofOffset? source (2 ^ 32 - 1) = some ⟨1, 0⟩ ∨
      ofOffset? source (2 ^ 32 - 1) = some ⟨0, 1⟩) := by
  obtain ⟨hlength, hlines⟩ := h
  rw [← String.length_toList] at hlength
  have hbytes := length_le_byteLength source.toList
  rw [utf8ByteSize_eq] at hsize ⊢
  have hend : byteLength source.toList = 2 ^ 32 - 1 := by omega
  have hlookup := ofOffset?_eq (List.append_nil source.toList).symm
  rw [hend, behind] at hlookup
  refine ⟨hend, ?_⟩
  rcases hlines with hone | hall
  · have hcount : source.toList.count '\n' = 0 := List.count_eq_zero_of_not_mem hone
    have hpart : source.toList.reverse.takeWhile (· ≠ '\n') = source.toList.reverse := by
      rw [List.takeWhile_eq_self_iff]
      intro c hc
      refine decide_eq_true fun heq => hone ?_
      rwa [heq, List.mem_reverse] at hc
    rw [hcount, hpart, List.length_reverse, hlength] at hlookup
    rw [hlookup]
    exact .inl rfl
  · have hcount : source.toList.count '\n' = 2 ^ 32 - 1 := by
      rw [List.count_eq_length.2 fun c hc => (hall c hc).symm, hlength]
    have hpart : source.toList.reverse.takeWhile (· ≠ '\n') = [] := by
      rw [List.takeWhile_eq_nil_iff]
      intro hpos
      simpa using hall _ (List.mem_reverse.1 (List.getElem_mem hpos))
    rw [hcount, hpart] at hlookup
    rw [hlookup]
    exact .inr rfl

/-! ### The main statement -/

/-- Every lookup in a source is right. An offset has a location exactly if it is a boundary of a
character or lies past the end. The line counts the newline bytes before it and is a line of the
source, and the column counts the characters behind the last newline before it. Later boundaries
have later locations, and no two have the same. -/
structure Locates (source : String) : Prop where
  defined : ∀ offset, (ofOffset? source offset).isSome = true ↔
    (⟨min offset source.utf8ByteSize⟩ : String.Pos.Raw).IsValid source
  line : ∀ offset l, ofOffset? source offset = some l →
    l.line = 1 + (source.toByteArray.data.toList.take offset).count 10 ∧
      l.line ≤ lineCount source
  column : ∀ offset l, ofOffset? source offset = some l →
    ∃ lines part, Cut source (min offset source.utf8ByteSize) lines part ∧
      l.column = 1 + part.length
  increasing : ∀ a b la lb, a < b → b ≤ source.utf8ByteSize → ofOffset? source a = some la →
    ofOffset? source b = some lb → la.place < lb.place
  injective : ∀ a b l, a ≤ source.utf8ByteSize → b ≤ source.utf8ByteSize →
    ofOffset? source a = some l → ofOffset? source b = some l → a = b

theorem ofOffset?_isSome_iff (source : String) (offset : Nat) :
    (ofOffset? source offset).isSome = true ↔
      (⟨min offset source.utf8ByteSize⟩ : String.Pos.Raw).IsValid source := by
  rw [← boundary_iff_isValid, Option.isSome_iff_exists]
  constructor
  · rintro ⟨l, hl⟩
    obtain ⟨before, after, hsource, hoffset, -⟩ := ofOffset?_eq_some_iff.1 hl
    exact ⟨before, after, hsource, hoffset⟩
  · rintro ⟨before, after, hsource, hoffset⟩
    exact ⟨_, ofOffset?_eq_some_iff.2 ⟨before, after, hsource, hoffset, rfl⟩⟩

/-- If all numbers fit, the locations are those of the texts before the offsets. -/
theorem exists_behind {source : String} (hsize : source.utf8ByteSize < 2 ^ 32)
    (hfits : ¬ Overlong source) {offset : Nat} {l : Location}
    (h : ofOffset? source offset = some l) :
    ∃ before after, source.toList = before ++ after ∧
      min offset source.utf8ByteSize = byteLength before ∧ l = behind before := by
  obtain ⟨before, after, hsource, hoffset, rfl⟩ := ofOffset?_eq_some_iff.1 h
  exact ⟨before, after, hsource, hoffset, wrapped_behind hsize hfits hsource⟩

theorem locates_of_not_overlong {source : String} (hsize : source.utf8ByteSize < 2 ^ 32)
    (hfits : ¬ Overlong source) : Locates source := by
  have hincreasing : ∀ a b la lb, a < b → b ≤ source.utf8ByteSize →
      ofOffset? source a = some la → ofOffset? source b = some lb → la.place < lb.place := by
    intro a b la lb hab hb hla hlb
    obtain ⟨xs, xs', hxs, ha, rfl⟩ := exists_behind hsize hfits hla
    obtain ⟨ys, ys', hys, hb', rfl⟩ := exists_behind hsize hfits hlb
    exact place_lt_of_byteLength_lt (hxs.symm.trans hys) (by omega)
  refine ⟨ofOffset?_isSome_iff source, fun offset l h => ?_, fun offset l h => ?_, hincreasing,
    fun a b l ha hb hla hlb => ?_⟩
  · obtain ⟨before, after, hsource, hoffset, rfl⟩ := exists_behind hsize hfits h
    rw [count_newline_take hsource hoffset, lineCount, hsource, List.count_append]
    refine ⟨rfl, ?_⟩
    show 1 + before.count '\n' ≤ before.count '\n' + after.count '\n' + 1
    omega
  · obtain ⟨before, after, hsource, hoffset, rfl⟩ := exists_behind hsize hfits h
    obtain ⟨lines, part, hcut, hbehind⟩ := exists_cut hsource
    exact ⟨lines, part, hoffset ▸ hcut, congrArg Location.column hbehind⟩
  · rcases Nat.lt_trichotomy a b with hab | hab | hab
    · exact absurd (hincreasing a b l l hab hb hla hlb) (lt_irrefl _)
    · exact hab
    · exact absurd (hincreasing b a l l hab ha hlb hla) (lt_irrefl _)

theorem not_locates_of_overlong {source : String} (h : Overlong source)
    (hsize : source.utf8ByteSize < 2 ^ 32) : ¬ Locates source := by
  intro hlocates
  rcases (h.ofOffset?_end hsize).2 with hone | hall
  · obtain ⟨lines, part, -, hcolumn⟩ := hlocates.column _ _ hone
    simp only at hcolumn
    omega
  · have hline := (hlocates.line _ _ hall).1
    simp only at hline
    omega

/-- In a source with offsets of 32 bits all lookups are right, unless it is overlong: at the end of
such a source a number of the location is too large and starts again from zero. An offset has a
location exactly if it is a boundary of a character or lies past the end, and every location has the
numbers of its line and its column as far as they fit into 32 bits. The table of line starts, which
is in increasing order, gives the same locations. -/
theorem ofOffset?_locates {source : String} (hsize : source.utf8ByteSize < 2 ^ 32) :
    (Locates source ↔ ¬ Overlong source) ∧
    (Overlong source →
      ofOffset? source (2 ^ 32 - 1) = some ⟨1, 0⟩ ∨ ofOffset? source (2 ^ 32 - 1) = some ⟨0, 1⟩) ∧
    (∀ offset, (ofOffset? source offset).isSome = true ↔
      (⟨min offset source.utf8ByteSize⟩ : String.Pos.Raw).IsValid source) ∧
    (∀ offset l, ofOffset? source offset = some l →
      ∃ lines part, Cut source (min offset source.utf8ByteSize) lines part ∧
        l = wrapped ⟨1 + lines.count '\n', 1 + part.length⟩) ∧
    ((lineStarts source).Pairwise (· < ·) ∧ (lineStarts source).length = lineCount source ∧
      ∀ offset, ofStarts? source offset = ofOffset? source offset) := by
  refine ⟨⟨fun hlocates hlong => not_locates_of_overlong hlong hsize hlocates,
      locates_of_not_overlong hsize⟩, fun hlong => (hlong.ofOffset?_end hsize).2,
    ofOffset?_isSome_iff source, fun offset l h => exists_cut_of_ofOffset? h,
    lineStarts_ascending source, ?_, ofStarts?_eq source⟩
  rw [lineStarts, List.length_cons, length_startsBehind, lineCount]

/-- A source of two lines with characters of two bytes. -/
theorem ofOffset?_locates_micro :
    "µs\n5 µm".utf8ByteSize < 2 ^ 32 ∧ Locates "µs\n5 µm" ∧
      ofOffset? "µs\n5 µm" 8 = some ⟨2, 4⟩ ∧ ofOffset? "µs\n5 µm" 1 = none := by
  have hsize : "µs\n5 µm".utf8ByteSize < 2 ^ 32 := by decide
  have hfits : ¬ Overlong "µs\n5 µm" := fun h => absurd h.1 (by decide)
  exact ⟨hsize, (ofOffset?_locates hsize).1.2 hfits, by decide, by decide⟩

/-- A line of letters. -/
def longLine (n : Nat) : String := String.ofList (List.replicate n 'a')

theorem utf8ByteSize_longLine (n : Nat) : (longLine n).utf8ByteSize = n := by
  rw [utf8ByteSize_eq, longLine, String.toList_ofList, byteLength_replicate]
  exact Nat.mul_one n

theorem overlong_longLine {n : Nat} (hn : n = 2 ^ 32 - 1) : Overlong (longLine n) := by
  refine ⟨?_, .inl ?_⟩
  · rw [longLine, String.length_ofList, List.length_replicate, hn]
  · simp [longLine, List.mem_replicate]

/-- Not all lookups are right: at the end of a line of 4294967295 letters the column starts again
from zero. -/
theorem not_locates :
    ¬ ∀ source : String, source.utf8ByteSize < 2 ^ 32 → Locates source := by
  intro h
  have hsize : (longLine 4294967295).utf8ByteSize < 2 ^ 32 := by
    rw [utf8ByteSize_longLine]
    omega
  exact not_locates_of_overlong (overlong_longLine (by omega)) hsize (h _ hsize)

end Location

end UnitCalc
