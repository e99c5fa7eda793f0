import Mathlib.Data.List.Forall2
import UnitCalc.Proofs.LineGrammar
import UnitCalc.Proofs.RelocatedReaders
import UnitCalc.Proofs.RelocatedRun
import UnitCalc.Proofs.StrayErrors

/-! A program run as a whole agrees with its lines run one at a time. Three things make the
difference between the two: in the whole program a line is stopped by a newline and stands further
down, so its spans are shifted; a blank last line does not count; and errors carry the number of the
line. The main result says that nothing else does. -/

namespace UnitCalc

open Grammar

/-! ### Reading lines inside a program -/

namespace Line

/-- What can be read does not depend on the token that stops the line. -/
theorem parseTokens_stop {ts : List Token} {stop : Token} (hstop : stop.kind ≠ .identifier)
    {line : Line} (h : parseTokens ⟨ts, stop⟩ = .ok line) (stop' : Token) :
    parseTokens ⟨ts, stop'⟩ = .ok line :=
  parseTokens_of_derives (derives_of_parseTokens hstop h) stop'

/-- The tokens of a line further down are read as the same line further down. -/
theorem parseTokens_content {cs : List Char} {stop : Token} (hstop : stop.kind ≠ .identifier)
    {line : Line} (h : parseTokens ⟨Token.content 0 cs, stop⟩ = .ok line) (offset : Nat)
    (stop' : Token) :
    parseTokens ⟨Token.content offset cs, stop'⟩ = .ok (line.relocate (Span.shift offset)) := by
  have hshift := parseTokens_relocate (l := ⟨Token.content 0 cs, stop⟩) (moves_shift offset _)
  rw [h, mapBoth_ok, TokenLine.relocate, ← Token.content_shift] at hshift
  exact parseTokens_stop (by rwa [Token.relocate_kind]) hshift stop'

theorem ofString_eq {source : String} (h : '\n' ∉ source.toList) :
    ofString source = parseTokens ⟨Token.content 0 source.toList,
      Token.endToken (0 + byteLength source.toList)⟩ := by
  rw [ofString_eq_ofLines, TokenLine.ofSource_eq, TokenLine.ofText_single h, ofLines]
  simp only [List.findSome?_nil]
  cases parseTokens ⟨Token.content 0 source.toList,
    Token.endToken (0 + byteLength source.toList)⟩ <;> rfl

end Line

/-! ### Forgetting spans -/

/-- Moves everything to one place. -/
def Span.forget : Span → Span := fun _ => ⟨0, 0⟩

theorem Span.forget_merge (a b : Span) : (a.merge b).forget = a.forget.merge b.forget := rfl

theorem Line.forget_shift (l : Line) (offset : Nat) :
    (l.relocate (Span.shift offset)).relocate Span.forget = l.relocate Span.forget :=
  Line.relocate_relocate Span.forget (Span.shift offset) l

/-! ### Programs -/

/-- A source is one line, which can be read. -/
def ReadsAs (source : String) (line : Line) : Prop :=
  '\n' ∉ source.toList ∧ Line.ofString source = .ok line

theorem ReadsAs.content {source : String} {line : Line} (h : ReadsAs source line) (offset : Nat)
    (stop : Token) :
    Line.parseTokens ⟨Token.content offset source.toList, stop⟩ =
      .ok (line.relocate (Span.shift offset)) := by
  have hline := h.2
  rw [Line.ofString_eq h.1] at hline
  exact Line.parseTokens_content (by simp [Token.endToken]) hline offset stop

/-- Joined by newlines, lines that can be read are read as the same lines up to spans. -/
theorem parseTokens_joined {l : String} {line : Line} (h : ReadsAs l line) {ls : List String}
    {lines : List Line} (hs : List.Forall₂ ReadsAs ls lines) (offset : Nat) :
    ∃ lines' : List Line,
      (TokenLine.ofText offset ("\n".intercalate (l :: ls)).toList).map Line.parseTokens =
        lines'.map .ok ∧
      lines'.map (Line.relocate Span.forget) = (line :: lines).map (Line.relocate Span.forget) := by
  induction hs generalizing l line offset with
  | nil =>
    refine ⟨[line.relocate (Span.shift offset)], ?_, ?_⟩
    · rw [String.intercalate_singleton, TokenLine.ofText_single h.1, List.map_singleton, h.content]
      rfl
    · rw [List.map_singleton, Line.forget_shift]
      rfl
  | @cons l' line' ls lines h' hs ih =>
    obtain ⟨lines', hparse, hforget⟩ := ih h' (offset + byteLength l.toList + 1)
    have htext : ("\n".intercalate (l :: l' :: ls)).toList =
        l.toList ++ '\n' :: ("\n".intercalate (l' :: ls)).toList := by
      rw [String.intercalate_cons_cons]
      simp
    refine ⟨line.relocate (Span.shift offset) :: lines', ?_, ?_⟩
    · rw [htext, TokenLine.ofText_line h.1, List.map_cons, hparse, h.content]
      rfl
    · rw [List.map_cons, hforget, Line.forget_shift]
      rfl

theorem collect_ok {α ε : Type} (as : List α) :
    collect (as.map (Except.ok : α → Except ε α)) = .ok as := by
  induction as with
  | nil => rfl
  | cons a as ih =>
    rw [List.map_cons, collect, ih]
    rfl

/-- If every line can be read, so can the program, except that a blank last line is dropped. -/
theorem parseProgram_of_lines {source : String} {lines : List Line}
    (h : (TokenLine.ofSource source).map Line.parseTokens = lines.map .ok) :
    ∃ kept, parseProgram source = .ok kept ∧ (lines = kept ∨ lines = kept ++ [.blank]) := by
  have hall : parseProgram source = .ok lines ∨ TokenLine.ofProgram source =
      (TokenLine.ofSource source).dropLast ∧ ((TokenLine.ofSource source).getLast?.map (·.tokens)) =
        some [] := by
    rw [parseProgram_eq_collect, TokenLine.ofProgram]
    split
    · rename_i l heq
      left
      rw [heq] at h
      rw [h, collect_ok]
    · split
      · rename_i hlast
        exact .inr ⟨rfl, hlast⟩
      · left
        rw [h, collect_ok]
  rcases hall with hall | ⟨hprogram, hlast⟩
  · exact ⟨lines, hall, .inl rfl⟩
  · obtain ⟨last, hget, htokens⟩ := Option.map_eq_some_iff.1 hlast
    obtain ⟨init, hinit⟩ := List.getLast?_eq_some_iff.1 hget
    have hblank : Line.parseTokens last = .ok .blank := by
      rw [Line.parseTokens, htokens]
    rw [hinit, List.map_append, List.map_singleton, hblank] at h
    obtain ⟨kept, tail, rfl, hkept, htail⟩ := List.map_eq_append_iff.1 h.symm
    obtain ⟨line, rfl, hline⟩ := List.map_eq_singleton_iff.1 htail
    cases hline
    refine ⟨kept, ?_, .inr rfl⟩
    rw [parseProgram_eq_collect, hprogram, hinit, List.dropLast_concat, ← hkept, collect_ok]

theorem ReadsAs.parseProgram {source : String} {line : Line} (h : ReadsAs source line) :
    parseProgram source = .ok [line] := by
  have hline := h.2
  rw [Line.ofString_eq h.1] at hline
  rw [parseProgram_eq_collect, TokenLine.ofProgram, TokenLine.ofSource_eq,
    TokenLine.ofText_single h.1]
  simp only [List.map_cons, List.map_nil, hline]
  rfl

/-! ### Runs -/

namespace State

/-- Runs sources one after the other, of which the first is number `number`, up to the first that
fails; a failure is given with the number of its source. -/
def runEach (s : State) (number : Nat) :
    List String → State × Except (Nat × ProgramError) (List Outcome)
  | [] => (s, .ok [])
  | source :: sources =>
    match s.runProgram source with
    | (s', .error e) => (s', .error (number, e))
    | (s', .ok os) =>
      let (s'', r) := s'.runEach (number + 1) sources
      (s'', r.map (os ++ ·))

/-- What running line `number` as a program of its own makes of an error in that line. -/
def alone : ProgramError → Nat × ProgramError
  | .parse es => (0, .parse es)
  | .eval number e => (number, .eval 1 e)

theorem runEach_eq {sources : List String} {lines : List Line}
    (h : List.Forall₂ ReadsAs sources lines) (s : State) (number : Nat) :
    s.runEach number sources =
      ((s.runLines number lines).1, mapBoth alone id (s.runLines number lines).2) := by
  induction h generalizing s number with
  | nil => rfl
  | @cons source line sources lines hline _ ih =>
    rw [runEach, runProgram, hline.parseProgram]
    simp only [runLines]
    cases s.runLine line with
    | error e => rfl
    | ok r =>
      obtain ⟨s', o⟩ := r
      simp only [ih, Except.map]
      cases (s'.runLines (number + 1) lines).2 <;> rfl

/-- A blank line at the end adds an empty outcome to a run that gets there. -/
theorem runLines_blank (s : State) (number : Nat) (lines : List Line) :
    s.runLines number (lines ++ [.blank]) =
      ((s.runLines number lines).1, (s.runLines number lines).2.map (· ++ [.empty])) := by
  induction lines generalizing s number with
  | nil => rfl
  | cons line lines ih =>
    rw [List.cons_append, runLines, runLines]
    cases s.runLine line with
    | error e => rfl
    | ok r =>
      obtain ⟨s', o⟩ := r
      simp only [ih]
      cases (s'.runLines (number + 1) lines).2 <;> rfl

theorem runLines_error {s : State} {number : Nat} {lines : List Line} {err : ProgramError}
    (h : (s.runLines number lines).2 = .error err) : ∃ k e, err = .eval k e := by
  induction lines generalizing s number with
  | nil => cases h
  | cons line lines ih =>
    rw [runLines] at h
    cases hline : s.runLine line with
    | error e =>
      rw [hline] at h
      cases h
      exact ⟨number, e, rfl⟩
    | ok r =>
      rw [hline] at h
      exact ih (map_eq_error.1 h)

end State

/-! ### Agreement -/

/-- The outcomes that show something, up to spans. -/
def visible (os : List Outcome) : List Outcome :=
  (os.filter (· ≠ .empty)).map (Outcome.relocate Span.forget)

theorem visible_append_empty (os : List Outcome) : visible (os ++ [.empty]) = visible os := by
  simp [visible]

theorem visible_eq (os : List Outcome) :
    visible os = (os.map (Outcome.relocate Span.forget)).filter (· ≠ .empty) := by
  rw [List.filter_map, visible]
  congr 1
  apply List.filter_congr
  intro o _
  cases o <;> simp [Outcome.relocate]

/-- What a run shows, up to spans. -/
def shown : Except ProgramError (List Outcome) → Except ProgramError (List Outcome) :=
  mapBoth (ProgramError.relocate Span.forget) visible

theorem shown_append_empty (r : Except ProgramError (List Outcome)) :
    shown (r.map (· ++ [.empty])) = shown r := by
  cases r with
  | error e => rfl
  | ok os => exact congrArg Except.ok (visible_append_empty os)

/-- Lines that are equal up to spans run alike. -/
theorem State.runLines_forget {ls ls' : List Line}
    (h : ls.map (Line.relocate Span.forget) = ls'.map (Line.relocate Span.forget)) (s : State)
    (number : Nat) :
    (s.runLines number ls).1.relocate Span.forget = (s.runLines number ls').1.relocate Span.forget ∧
      shown (s.runLines number ls).2 = shown (s.runLines number ls').2 := by
  have hrun := State.runLines_relocate Span.forget_merge s number ls
  rw [h, State.runLines_relocate Span.forget_merge s number ls'] at hrun
  obtain ⟨hstate, hresult⟩ := Prod.ext_iff.1 hrun
  refine ⟨hstate.symm, ?_⟩
  have hfilter : ∀ r, shown r = mapBoth id (List.filter (· ≠ .empty)) (mapBoth
      (ProgramError.relocate Span.forget) (List.map (Outcome.relocate Span.forget)) r) := by
    intro r
    cases r with
    | error e => rfl
    | ok os => exact congrArg Except.ok (visible_eq os)
  rw [hfilter, hfilter]
  exact congrArg _ hresult.symm

/-- The lines of a joined program, up to spans and up to a blank line at the end. -/
theorem runProgram_joined {ls : List String} {lines : List Line}
    (h : List.Forall₂ ReadsAs ls lines) (s : State) :
    (s.runProgram ("\n".intercalate ls)).1.relocate Span.forget =
        (s.runLines 1 lines).1.relocate Span.forget ∧
      shown (s.runProgram ("\n".intercalate ls)).2 = shown (s.runLines 1 lines).2 := by
  cases h with
  | nil =>
    have hempty : parseProgram ("\n".intercalate []) = .ok [.blank] := by decide
    rw [State.runProgram, hempty]
    exact ⟨rfl, rfl⟩
  | cons hl hls =>
    obtain ⟨lines', hparse, hforget⟩ := parseTokens_joined hl hls 0
    rw [← TokenLine.ofSource_eq] at hparse
    obtain ⟨kept, hkept, hblank⟩ := parseProgram_of_lines hparse
    rw [State.runProgram, hkept]
    obtain ⟨hstate, hshown⟩ := State.runLines_forget hforget s 1
    rcases hblank with rfl | rfl
    · exact ⟨hstate, hshown⟩
    · rw [State.runLines_blank] at hstate hshown
      exact ⟨hstate, (shown_append_empty _).symm.trans hshown⟩

/-- A state without its spans has the same units, variables and precision. -/
theorem State.same_of_forget {s s' : State}
    (h : s.relocate Span.forget = s'.relocate Span.forget) :
    s.units = s'.units ∧ s.vars = s'.vars ∧ s.precision = s'.precision ∧
      s.functions.map (Function.relocate Span.forget) =
        s'.functions.map (Function.relocate Span.forget) := by
  obtain ⟨units, vars, functions, precision⟩ := s
  obtain ⟨units', vars', functions', precision'⟩ := s'
  injection h with hunits hvars hfunctions hprecision
  exact ⟨hunits, hvars, hprecision, hfunctions⟩

/-- Results that show the same are both outcomes, or both errors in the same line and for the same
reason. -/
theorem cases_of_shown {s : State} {lines : List Line} {r : Except ProgramError (List Outcome)}
    (h : shown r = shown (s.runLines 1 lines).2) :
    (∃ os os', r = .ok os ∧ (s.runLines 1 lines).2 = .ok os' ∧ visible os = visible os') ∨
      ∃ k e e', r = .error (.eval k e') ∧ (s.runLines 1 lines).2 = .error (.eval k e) ∧
        e'.fault = e.fault := by
  cases hlines : (s.runLines 1 lines).2 with
  | ok os' =>
    rw [hlines] at h
    cases r with
    | ok os => exact .inl ⟨os, os', rfl, rfl, Except.ok.inj h⟩
    | error err => cases h
  | error err' =>
    obtain ⟨k, e, rfl⟩ := State.runLines_error hlines
    rw [hlines] at h
    rcases r with (es | ⟨k', e'⟩) | os
    · cases h
    · injection h with h
      injection h with hk he
      have hfault := congrArg EvalError.fault he
      exact .inr ⟨k, e, e', by rw [hk], rfl, hfault⟩
    · cases h

theorem exists_readsAs {ls : List String} (hlines : ∀ l ∈ ls, '\n' ∉ l.toList)
    (hread : ∀ l ∈ ls, ∃ line, Line.ofString l = .ok line) :
    ∃ lines, List.Forall₂ ReadsAs ls lines := by
  induction ls with
  | nil => exact ⟨[], .nil⟩
  | cons l ls ih =>
    obtain ⟨line, hline⟩ := hread l List.mem_cons_self
    obtain ⟨lines, hrest⟩ := ih (fun l' hl' => hlines l' (List.mem_cons_of_mem l hl'))
      fun l' hl' => hread l' (List.mem_cons_of_mem l hl')
    exact ⟨line :: lines, .cons ⟨hlines l List.mem_cons_self, hline⟩ hrest⟩

/-- A program that runs as a whole and its lines that run one at a time reach the same state and
show the same, up to spans; where a line fails, both fail in that line and for the same reason. -/
theorem runProgram_agrees_runEach (s : State) (ls : List String)
    (hlines : ∀ l ∈ ls, '\n' ∉ l.toList) (hread : ∀ l ∈ ls, ∃ line, Line.ofString l = .ok line) :
    let whole := s.runProgram ("\n".intercalate ls)
    let each := s.runEach 1 ls
    (whole.1.units = each.1.units ∧ whole.1.vars = each.1.vars ∧
        whole.1.precision = each.1.precision ∧
        whole.1.functions.map (Function.relocate Span.forget) =
          each.1.functions.map (Function.relocate Span.forget)) ∧
      ((∃ os, whole.2 = .ok os) ↔ ∃ os, each.2 = .ok os) ∧
      (∀ os os', whole.2 = .ok os → each.2 = .ok os' → visible os = visible os') ∧
      ∀ k err, each.2 = .error (k, err) →
        ∃ e e', err = .eval 1 e ∧ whole.2 = .error (.eval k e') ∧ e'.fault = e.fault := by
  obtain ⟨lines, hls⟩ := exists_readsAs hlines hread
  obtain ⟨hstate, hshown⟩ := runProgram_joined hls s
  simp only [State.runEach_eq hls s 1]
  refine ⟨State.same_of_forget hstate, ?_⟩
  rcases cases_of_shown hshown with ⟨os, os', hwhole, heach, hvisible⟩ |
    ⟨k, e, e', hwhole, heach, hfault⟩
  · rw [hwhole, heach, mapBoth_ok]
    refine ⟨iff_of_true ⟨os, rfl⟩ ⟨os', rfl⟩, ?_, fun k err h => nomatch h⟩
    rintro _ _ ⟨⟩ ⟨⟩
    exact hvisible
  · rw [hwhole, heach, mapBoth_error]
    refine ⟨by simp only [reduceCtorEq, exists_false], fun os os' h => (nomatch h), ?_⟩
    rintro _ _ ⟨⟩
    exact ⟨e, e', rfl, rfl, hfault⟩

/-- A unit declared twice, with a comment between and a blank line at the end. -/
theorem runProgram_agrees_runEach_redeclared :
    (∀ l ∈ ["unit m", "# again", "unit m", ""], '\n' ∉ l.toList) ∧
      (∀ l ∈ ["unit m", "# again", "unit m", ""], ∃ line, Line.ofString l = .ok line) ∧
      ∃ e, ((State.initial 50).runProgram
          ("\n".intercalate ["unit m", "# again", "unit m", ""])).2 = .error (.eval 3 e) ∧
        e.fault = .unitRedeclared "m" := by
  have hlines : ∀ l ∈ ["unit m", "# again", "unit m", ""], '\n' ∉ l.toList := by decide
  have hunit : Line.ofString "unit m" = .ok (.unit ⟨"m", ⟨5, 6⟩⟩ ⟨0, 6⟩) := by decide
  have hcomment : Line.ofString "# again" = .ok .blank := by decide
  have hempty : Line.ofString "" = .ok .blank := by decide
  have hread : ∀ l ∈ ["unit m", "# again", "unit m", ""], ∃ line, Line.ofString l = .ok line := by
    simp only [List.forall_mem_cons]
    exact ⟨⟨_, hunit⟩, ⟨_, hcomment⟩, ⟨_, hunit⟩, ⟨_, hempty⟩, nofun⟩
  have heach : ((State.initial 50).runEach 1 ["unit m", "# again", "unit m", ""]).2 =
      .error (3, .eval 1 ⟨.unitRedeclared "m", ⟨0, 6⟩⟩) := by decide
  obtain ⟨-, -, -, herror⟩ := runProgram_agrees_runEach (State.initial 50) _ hlines hread
  obtain ⟨e, e', he, hwhole, hfault⟩ := herror 3 _ heach
  cases he
  exact ⟨hlines, hread, e', hwhole, hfault⟩

end UnitCalc
