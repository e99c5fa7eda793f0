import UnitCalc.Proofs.CursorLines
import UnitCalc.Proofs.Pieces

/-! Runs of a cursor over whole sources. The loop over the lines of a program takes them one by one:
each of its turns reads a line, or refuses it and skips the rest, and takes the newline that ends it
and no other, or comes to the end of the input. A line that has been read stands before one of these
two, so no turn has to report that its end is missing. The main result says that with three rounds
for each token a cursor reads what the library reads, has stood at tokens only that are no comments,
and takes tokens off the line with every expression that it reads. -/

namespace UnitCalc

namespace Cursor

variable {tokens : List Token} {c c' : Cursor} {stop : Token} {ts : List Token} {l : TokenLine}
  {ls : List TokenLine}

/-- From `c` to `c'` the cursor has kept its trail, and has stood at tokens only that are no
comments. -/
structure InPlace (tokens : List Token) (c c' : Cursor) : Prop where
  noted : c.visited <:+ c'.visited
  on : ∀ p ∈ c'.visited, On tokens p

theorem InPlace.after {c₀ : Cursor} (h : InPlace tokens c c') (h₀ : c₀.visited <:+ c.visited) :
    InPlace tokens c₀ c' :=
  ⟨h₀.trans h.noted, h.on⟩

theorem Faces.length_lt (h : Faces tokens c l ls) :
    l.tokens.length < tokens.length - c.place := by
  have hlt := TokenLine.length_lt_of_group h.ahead_eq
  have hfilter := List.length_filter_le (·.kind ≠ .comment) (tokens.drop c.place)
  rw [List.length_drop] at hfilter
  omega

theorem Faces.tokens_eq_nil (h : Faces tokens c l ls)
    (hl : (l.current l.tokens).kind.endsLine = true) : l.tokens = [] := by
  obtain ⟨ts, stop⟩ := l
  cases ts with
  | nil => rfl
  | cons t ts => exact absurd hl (by simp [TokenLine.current, h.unbroken t List.mem_cons_self])

/-- Behind the end of the input there are no lines. -/
theorem Faces.eq_nil (hscan : Terminated tokens) (h : Faces tokens c ⟨[], stop⟩ ls)
    (hstop : stop.kind = .endOfInput) : ls = [] := by
  have hget : tokens[c.place]? = some stop := h.getElem?
  have hahead := ahead_of_getElem? hget (by rw [hstop]; decide)
  obtain ⟨ts, last, rfl, -, hts⟩ := hscan.ended
  have hplace : ¬ c.place < ts.length := by
    intro hlt
    rw [List.getElem?_append_left hlt] at hget
    exact hts stop (List.mem_of_getElem? hget) hstop
  rw [h.ahead_eq, List.drop_eq_nil_of_le (by simp; omega), TokenLine.group,
    if_pos (by rw [hstop]; rfl)] at hahead
  cases hahead
  rfl

/-- Where the end of the input stands, nothing is ahead. -/
theorem Faces.end_of_current (hscan : Terminated tokens) (h : Faces tokens c l ls)
    (hl : (l.current l.tokens).kind = .endOfInput) : l.tokens = [] ∧ ls = [] := by
  have htokens := h.tokens_eq_nil (by rw [hl]; rfl)
  obtain ⟨ts, stop⟩ := l
  subst htokens
  exact ⟨rfl, h.eq_nil hscan hl⟩

theorem Faces.stop_cases (h : Faces tokens c ⟨ts, stop⟩ ls) :
    stop.kind = .newline ∨ stop.kind = .endOfInput := by
  have hstop : stop.kind.endsLine = true := h.stop_endsLine
  revert hstop
  cases stop.kind <;> decide

/-- Behind a newline there is a line. -/
theorem Faces.ne_nil (hscan : Terminated tokens) (h : Faces tokens c l ls) (htokens : l.tokens = [])
    (hl : (l.current l.tokens).kind ≠ .endOfInput) : ls ≠ [] := by
  obtain ⟨ts, stop⟩ := l
  subst htokens
  rcases h.stop_cases with hstop | hstop
  · obtain ⟨-, -, l', ls', -, -, -, rfl, -⟩ := run_advance_newline hscan h hstop
    exact List.cons_ne_nil l' ls'
  · exact absurd hstop hl

/-! ### The end of a line -/

/-- From `c` to `c'` the rest of a line has been passed with the newline that stops it, or up to the
end of the input. -/
inductive Leaves (tokens : List Token) (c : Cursor) (stop : Token) (ls : List TokenLine)
    (c' : Cursor) : Prop where
  | newline {line comments : List Token} {l : TokenLine} {ls' : List TokenLine}
      (hstop : stop.kind = .newline) (moves : Moves tokens c c' (line ++ stop :: comments))
      (unbroken : ∀ t ∈ line, t.kind.endsLine = false)
      (hcomments : ∀ t ∈ comments, t.kind = .comment) (hls : ls = l :: ls')
      (faces : Faces tokens c' l ls')
  | endOfInput (hstop : stop.kind = .endOfInput) (along : Along tokens c c')
      (faces : Faces tokens c' ⟨[], stop⟩ []) (hls : ls = [])

theorem Leaves.after {c₀ : Cursor} (h : Leaves tokens c stop ls c') (halong : Along tokens c₀ c) :
    Leaves tokens c₀ stop ls c' := by
  cases h with
  | @newline line comments l ls' hstop moves unbroken hcomments hls faces =>
    obtain ⟨spent, hmoves, hspent⟩ := halong
    have hmoves' := hmoves.trans moves
    rw [← List.append_assoc] at hmoves'
    exact .newline hstop hmoves' (List.forall_mem_append.2 ⟨hspent, unbroken⟩) hcomments hls faces
  | endOfInput hstop along faces hls => exact .endOfInput hstop (halong.trans along) faces hls

/-- Taking the newline leaves the line. -/
theorem leaves_newline (hscan : Terminated tokens) (h : Faces tokens c ⟨[], stop⟩ ls)
    (hstop : stop.kind = .newline) :
    ∃ c', (advance tokens).run c = .ok stop c' ∧ Leaves tokens c stop ls c' := by
  obtain ⟨c', comments, l', ls', hadvance, hmoves, hcomments, hls, hfaces⟩ :=
    run_advance_newline hscan h hstop
  have hmoves' : Moves tokens c c' ([] ++ stop :: comments) := hmoves
  exact ⟨c', hadvance, .newline hstop hmoves' nofun hcomments hls hfaces⟩

theorem run_eat_newline (hscan : Terminated tokens) (h : Faces tokens c ⟨[], stop⟩ ls)
    (hstop : stop.kind = .newline) :
    ∃ c', (eat tokens .newline).run c = .ok true c' ∧ Leaves tokens c stop ls c' := by
  obtain ⟨c', hadvance, hleaves⟩ := leaves_newline hscan h hstop
  refine ⟨c', ?_, hleaves⟩
  rw [eat, run_current_stop h, if_pos hstop, run_bind_of_ok hadvance]
  rfl

theorem run_skipLine (hscan : Terminated tokens) {n : Nat} (h : Faces tokens c ⟨ts, stop⟩ ls)
    (hn : ts.length < n) :
    ∃ c', (skipLine tokens n).run c = .ok () c' ∧ Leaves tokens c stop ls c' := by
  induction n generalizing c ts with
  | zero => exact absurd hn (Nat.not_lt_zero _)
  | succ n ih =>
    rw [skipLine]
    cases ts with
    | nil =>
      rw [run_current_stop h]
      rcases h.stop_cases with hstop | hstop
      · obtain ⟨c', hadvance, hleaves⟩ := leaves_newline hscan h hstop
        refine ⟨c', ?_, hleaves⟩
        rw [if_neg (by simp [hstop]), run_bind_of_ok hadvance, if_pos hstop]
        rfl
      · obtain rfl := h.eq_nil hscan hstop
        exact ⟨c, by rw [if_pos hstop]; rfl, .endOfInput hstop (.refl c) h rfl⟩
    | cons t ts =>
      have hbreak := h.unbroken t List.mem_cons_self
      have hkinds : t.kind ≠ .endOfInput ∧ t.kind ≠ .newline := by
        constructor <;> intro hkind <;> rw [hkind] at hbreak <;> cases hbreak
      obtain ⟨c₁, hadvance, halong, hfaces⟩ := run_advance_token hscan h
      obtain ⟨c', hskip, hleaves⟩ := ih hfaces (Nat.lt_of_succ_lt_succ hn)
      refine ⟨c', ?_, hleaves.after halong⟩
      rw [run_current_token h, if_neg hkinds.1, run_bind_of_ok hadvance, if_neg hkinds.2]
      exact hskip

/-! ### Turns -/

/-- What a turn comes to for a line. -/
def Turn.ofLine (l : TokenLine) : Turn :=
  match Line.parseTokens l with
  | .ok x => if l.stop.kind = .newline then .line x else .last x
  | .error e => .malformed e

theorem Turn.ofLine_ne_unended (tl : TokenLine) (l : Line) (e : ParseError) :
    Turn.ofLine tl ≠ .unended l e := by
  rw [Turn.ofLine]
  split
  · split <;> simp
  · simp

theorem Round.isLast_ofLine (h : l.stop.kind = .newline) (p q : Nat) :
    Round.isLast ⟨p, Turn.ofLine l, q⟩ = false := by
  rw [Round.isLast, Turn.ofLine]
  cases Line.parseTokens l with
  | ok x =>
    simp only
    rw [if_pos h]
  | error e => rfl

theorem Turn.error?_ofLine (l : TokenLine) :
    (Turn.ofLine l).error? = failure? (Line.parseTokens l) := by
  rw [Turn.ofLine]
  cases Line.parseTokens l with
  | ok x =>
    simp only
    split <;> rfl
  | error e => rfl

theorem Turn.line?_ofLine (l : TokenLine) :
    (Turn.ofLine l).line? = (Line.parseTokens l).toOption := by
  rw [Turn.ofLine]
  cases Line.parseTokens l with
  | ok x =>
    simp only
    split <;> rfl
  | error e => rfl

theorem run_lineEnd (hscan : Terminated tokens) (h : Faces tokens c ⟨[], stop⟩ ls) (n : Nat)
    (line : Line) :
    ∃ c', (lineEnd tokens n line).run c =
        .ok (if stop.kind = .newline then .line line else .last line) c' ∧
      Leaves tokens c stop ls c' := by
  rw [lineEnd]
  rcases h.stop_cases with hstop | hstop
  · obtain ⟨c', heat, hleaves⟩ := run_eat_newline hscan h hstop
    refine ⟨c', ?_, hleaves⟩
    rw [run_bind_of_ok heat, if_pos rfl, if_pos hstop]
    rfl
  · have hnewline : stop.kind ≠ .newline := by simp [hstop]
    obtain rfl := h.eq_nil hscan hstop
    refine ⟨c, ?_, .endOfInput hstop (.refl c) h rfl⟩
    rw [run_bind_of_ok (run_eat_other h hnewline), if_neg Bool.false_ne_true, run_current_stop h,
      if_pos hstop, if_neg hnewline]
    rfl

/-- A turn reads the line ahead, or refuses it, and leaves it behind. -/
theorem run_turn (hscan : Terminated tokens) (h : Faces tokens c l ls) {n : Nat}
    (hn : 3 * l.tokens.length + 2 ≤ n) :
    ∃ c', (turn tokens n).run c = .ok (Turn.ofLine l) c' ∧ Leaves tokens c l.stop ls c' := by
  have hfollows := follows_line hscan h hn
  have hturn : (turn tokens n).run c = settle tokens n ((line tokens n).run c) := rfl
  rw [hturn, Turn.ofLine]
  generalize (line tokens n).run c = r at hfollows
  cases hparse : Line.parseTokens l with
  | ok line =>
    rw [hparse] at hfollows
    cases hfollows with
    | ok along faces =>
      obtain ⟨c', hend, hleaves⟩ := run_lineEnd hscan faces n line
      exact ⟨c', hend, hleaves.after along⟩
  | error e =>
    rw [hparse] at hfollows
    cases hfollows with
    | @error _ rest c₁ along faces =>
      have hlength : rest.length ≤ l.tokens.length := along.length_le h faces
      obtain ⟨c', hskip, hleaves⟩ := run_skipLine hscan faces (show rest.length < n by omega)
      refine ⟨c', ?_, hleaves.after along⟩
      rw [settle, recover, run_bind_of_ok hskip]
      rfl

/-! ### Programs -/

/-- Between two places stand a line with its comments and the newline that stops it, or a line with
its comments up to the end of the input. No other newline stands between them. -/
inductive TakesLine (tokens : List Token) (p : Nat) (l : TokenLine) (q : Nat) : Prop where
  | newline {line comments : List Token} (hstop : l.stop.kind = .newline)
      (content : line.filter (·.kind ≠ .comment) = l.tokens)
      (unbroken : ∀ t ∈ line, t.kind.endsLine = false)
      (hcomments : ∀ t ∈ comments, t.kind = .comment)
      (passes : Passes tokens p q (line ++ l.stop :: comments))
  | endOfInput {line : List Token} (hstop : l.stop.kind = .endOfInput)
      (content : line.filter (·.kind ≠ .comment) = l.tokens)
      (unbroken : ∀ t ∈ line, t.kind.endsLine = false) (passes : Passes tokens p q line)
      (stands : tokens[q]? = some l.stop)

theorem Leaves.takesLine (h : Faces tokens c l ls) (hleaves : Leaves tokens c l.stop ls c') :
    TakesLine tokens c.place l c'.place := by
  cases hleaves with
  | @newline line comments l' ls' hstop moves unbroken hcomments hls faces =>
    have hahead := moves.passes.ahead_newline unbroken h.stop_endsLine hcomments
    rw [h.ahead_eq] at hahead
    have hcontent := congrArg (fun ls => (ls.head?.map TokenLine.tokens)) hahead
    exact .newline hstop (Option.some.inj hcontent).symm unbroken hcomments moves.passes
  | endOfInput hstop along faces hls =>
    obtain ⟨line, hmoves, hline⟩ := along
    have hcontent := hmoves.tokens_eq hline h faces
    rw [List.append_nil] at hcontent
    exact .endOfInput hstop hcontent.symm hline hmoves.passes faces.getElem?

/-- The rounds take the lines one after the other, the first from the place `p` on, and end at the
end of the input. Behind all lines but the last a newline is taken. -/
inductive Rounds (tokens : List Token) : Nat → List Round → List TokenLine → Prop where
  | last {p q : Nat} {l : TokenLine} (takes : TakesLine tokens p l q)
      (stops : ∃ t, tokens[q]? = some t ∧ t.kind = .endOfInput) :
      Rounds tokens p [⟨p, Turn.ofLine l, q⟩] [l]
  | more {p q : Nat} {l : TokenLine} {rs : List Round} {ls : List TokenLine}
      (hstop : l.stop.kind = .newline) (takes : TakesLine tokens p l q)
      (rest : Rounds tokens q rs ls) :
      Rounds tokens p (⟨p, Turn.ofLine l, q⟩ :: rs) (l :: ls)

theorem Rounds.turns_eq {p : Nat} {rs : List Round} (h : Rounds tokens p rs ls) :
    rs.map (·.turn) = ls.map Turn.ofLine := by
  induction h with
  | last => rfl
  | more hstop takes rest ih => rw [List.map_cons, List.map_cons, ih]

theorem Rounds.filterMap_turn {β : Type} {p : Nat} {rs : List Round} (h : Rounds tokens p rs ls)
    {f : Turn → Option β} {g : Except ParseError Line → Option β}
    (hfg : ∀ l, f (Turn.ofLine l) = g (Line.parseTokens l)) :
    rs.filterMap (fun r => f r.turn) = (ls.map Line.parseTokens).filterMap g := by
  have hturns := congrArg (List.filterMap f) h.turns_eq
  rw [List.filterMap_map, List.filterMap_map] at hturns
  rw [List.filterMap_map]
  exact hturns.trans (List.filterMap_congr fun l _ => hfg l)

/-- The lines of all rounds, or their errors, are those of the lines that they take. -/
theorem Rounds.answer_eq {p : Nat} {rs : List Round} (h : Rounds tokens p rs ls) :
    answer rs = collect (ls.map Line.parseTokens) := by
  rw [answer, h.filterMap_turn Turn.error?_ofLine, h.filterMap_turn Turn.line?_ofLine]
  cases hcollect : collect (ls.map Line.parseTokens) with
  | ok as =>
    have hoks := collect_eq_ok_iff.1 hcollect
    have hnone : (ls.map Line.parseTokens).filterMap failure? = [] := by
      rw [hoks, List.filterMap_map, List.filterMap_eq_nil_iff]
      exact fun a _ => rfl
    have hall : (ls.map Line.parseTokens).filterMap Except.toOption = as := by
      rw [hoks, List.filterMap_map]
      exact List.filterMap_some
    rw [hnone, hall]
  | error es =>
    obtain ⟨hne, rfl⟩ := collect_eq_error_iff.1 hcollect
    split
    · contradiction
    · rfl

/-- The lines of a program, if the lines `l :: ls` are ahead: an empty last one does not count,
unless it is the only one. -/
def counted (l : TokenLine) (ls : List TokenLine) : List TokenLine :=
  if ls = [] then [l] else Piece.dropLastIf (·.tokens = []) (l :: ls)

theorem counted_cons {l' : TokenLine} (h : l'.tokens = [] → ls ≠ []) :
    counted l (l' :: ls) = l :: counted l' ls := by
  rw [counted, if_neg (List.cons_ne_nil l' ls), Piece.dropLastIf_cons _ _ (List.cons_ne_nil l' ls),
    counted]
  split
  · rename_i hls
    subst hls
    rw [Piece.dropLastIf_singleton, if_neg]
    simpa using fun hl' => h hl' rfl
  · rfl

theorem run_program_succ {n : Nat} {t : Turn} (hturn : (turn tokens n).run c = .ok t c')
    (h : Faces tokens c' l ls) :
    (program tokens (n + 1)).run c =
      (if Round.isLast ⟨c.place, t, c'.place⟩ ∨ (l.current l.tokens).kind = .endOfInput then
        pure [⟨c.place, t, c'.place⟩]
      else program tokens n >>= fun rs => pure (⟨c.place, t, c'.place⟩ :: rs) :
        Reader (List Round)).run c' := by
  rw [program, EStateM.run_bind, EStateM.run_get]
  simp only
  rw [run_bind_of_ok hturn, EStateM.run_bind, EStateM.run_get]
  simp only
  rw [run_current_bind h]

/-- With three rounds for each token that is left, all lines ahead are taken. -/
theorem run_program (hscan : Terminated tokens) {n : Nat} (h : Faces tokens c l ls)
    (hn : 3 * (tokens.length - c.place) ≤ n) :
    ∃ rs c', (program tokens n).run c = .ok rs c' ∧ InPlace tokens c c' ∧
      Rounds tokens c.place rs (counted l ls) := by
  induction n generalizing c l ls with
  | zero =>
    have hlength := h.length_lt
    omega
  | succ n ih =>
    have hlength := h.length_lt
    obtain ⟨c', hturn, hleaves⟩ := run_turn hscan h (show 3 * l.tokens.length + 2 ≤ n by omega)
    have htakes := hleaves.takesLine h
    cases hleaves with
    | @newline line comments l' ls' hstop moves unbroken hcomments hls faces =>
      subst hls
      rw [run_program_succ hturn faces]
      by_cases hend : (l'.current l'.tokens).kind = .endOfInput
      · -- Nothing stands behind the newline, so no line is there either.
        obtain ⟨htokens, rfl⟩ := faces.end_of_current hscan hend
        have hcounted : counted l [l'] = [l] := by simp [counted, Piece.dropLastIf, htokens]
        rw [if_pos (.inr hend), hcounted]
        exact ⟨_, c', rfl, ⟨moves.noted, faces.inPlace⟩, .last htakes ⟨_, faces.getElem?, hend⟩⟩
      · have hlater : c.place < c'.place := by
          rw [moves.passes.stop_eq, List.length_append, List.length_cons]
          omega
        obtain ⟨rs, c'', hprogram, hin, hrounds⟩ := ih faces (by omega)
        rw [counted_cons fun htokens => faces.ne_nil hscan htokens hend]
        refine ⟨_, c'', ?_, hin.after moves.noted, .more hstop htakes hrounds⟩
        rw [if_neg (by simp [Round.isLast_ofLine hstop, hend]), run_bind_of_ok hprogram]
        rfl
    | endOfInput hstop along faces hls =>
      subst hls
      rw [run_program_succ hturn faces, if_pos (.inr hstop)]
      exact ⟨_, c', rfl, ⟨along.noted, faces.inPlace⟩, .last htakes ⟨_, faces.getElem?, hstop⟩⟩

/-! ### Single lines and single expressions -/

/-- A run that follows a reader and then goes on to its end ends as the two readers do. -/
theorem Follows.concludes {α β : Type} {x : Reader α} {f : α → Reader β}
    {y : Except ParseError (α × List Token)} {g : α × List Token → Except ParseError β}
    (h : Follows tokens c stop ls (x.run c) y)
    (hf : ∀ a rest c', Faces tokens c' ⟨rest, stop⟩ ls →
      ∃ c'', (f a).run c' = conclude c'' (g (a, rest)) ∧ InPlace tokens c' c'') :
    ∃ c', (x >>= f).run c = conclude c' (y.bind g) ∧ InPlace tokens c c' := by
  rw [EStateM.run_bind]
  generalize x.run c = r at h
  cases h with
  | ok along faces =>
    obtain ⟨c'', hrun, hin⟩ := hf _ _ _ faces
    exact ⟨c'', hrun, hin.after along.noted⟩
  | @error e rest c' along faces => exact ⟨c', rfl, along.noted, faces.inPlace⟩

/-- Where a run stops that follows a reader. -/
theorem Follows.stops {α : Type} {r : EStateM.Result Halt Cursor α}
    {y : Except ParseError (α × List Token)} (h : Follows tokens c stop ls r y) :
    ∃ c' rest, r = conclude c' (y.map Prod.fst) ∧ Along tokens c c' ∧
      Faces tokens c' ⟨rest, stop⟩ ls ∧ ∀ a us, y = .ok (a, us) → us = rest := by
  cases h with
  | @ok a rest c' along faces =>
    refine ⟨c', rest, rfl, along, faces, fun b us heq => ?_⟩
    cases heq
    rfl
  | @error e rest c' along faces => exact ⟨c', rest, rfl, along, faces, nofun⟩

/-- Only the end of the input may stand behind a result. -/
theorem run_expectEnd {α : Type} (hscan : Terminated tokens) (h : Faces tokens c l ls) (a : α) :
    ∃ c', (expect tokens .endOfInput >>= fun _ => pure a).run c =
        conclude c' (if (l.current l.tokens).kind = .endOfInput then .ok a
          else .error (.unexpected (l.current l.tokens) (.token .endOfInput))) ∧
      InPlace tokens c c' := by
  rw [expect, bind_assoc, run_current_bind h]
  split
  · rename_i hend
    let c' := c.goTo (behindComments tokens c.place)
    have hadvance : (advance tokens).run c = .ok (l.current l.tokens) c' := by
      rw [advance, run_current_bind h, EStateM.run_bind, EStateM.run_modify, if_pos hend]
      rfl
    have hplace : On tokens c'.place :=
      on_behindComments hscan (List.getElem?_eq_some_iff.1 h.getElem?).1
    refine ⟨c', ?_, List.suffix_cons _ _, List.forall_mem_cons.2 ⟨hplace, h.inPlace⟩⟩
    rw [run_bind_of_ok hadvance]
    rfl
  · exact ⟨c, rfl, List.suffix_refl _, h.inPlace⟩

/-- The lines ahead without the empty ones at their beginning. -/
theorem run_skipNewlines (hscan : Terminated tokens) {n : Nat} (h : Faces tokens c l ls)
    (hn : tokens.length - c.place ≤ n) :
    ∃ c' l' ls', (skipNewlines tokens n).run c = .ok () c' ∧ c.visited <:+ c'.visited ∧
      Faces tokens c' l' ls' ∧ (l'.current l'.tokens).kind ≠ .newline ∧
      (l :: ls).findSome? (·.tokens.head?) = (l' :: ls').findSome? (·.tokens.head?) := by
  induction n generalizing c l ls with
  | zero =>
    have hlength := h.length_lt
    omega
  | succ n ih =>
    have hlength := h.length_lt
    rw [skipNewlines]
    by_cases hnewline : (l.current l.tokens).kind = .newline
    · have htokens := h.tokens_eq_nil (by rw [hnewline]; rfl)
      obtain ⟨ts, stop⟩ := l
      subst htokens
      obtain ⟨c₁, heat, hleaves⟩ := run_eat_newline hscan h hnewline
      cases hleaves with
      | @newline line comments l₁ ls₁ hstop moves unbroken hcomments hls faces =>
        subst hls
        have hlater : c.place < c₁.place := by
          rw [moves.passes.stop_eq, List.length_append, List.length_cons]
          omega
        obtain ⟨c', l', ls', hskip, hnoted, hfaces, hkind, hfirst⟩ := ih faces (by omega)
        refine ⟨c', l', ls', ?_, moves.noted.trans hnoted, hfaces, hkind, hfirst⟩
        rw [run_bind_of_ok heat, if_pos rfl]
        exact hskip
      | endOfInput hstop => exact absurd (hnewline.symm.trans hstop) (by decide)
    · refine ⟨c, l, ls, ?_, List.suffix_refl _, h, hnewline, rfl⟩
      rw [run_bind_of_ok (run_eat_other h hnewline), if_neg Bool.false_ne_true]
      rfl

theorem faces_start (source : String) :
    ∃ l ls, TokenLine.ofSource source = l :: ls ∧
      Faces (tokenize source) (start (tokenize source)) l ls := by
  have hscan := terminated_tokenize source
  have hlength : 0 < (tokenize source).length := by
    obtain ⟨ts, last, heq, -⟩ := hscan.ended
    simp [heq]
  obtain ⟨l, ls, hfaces⟩ := exists_faces hscan (c := start (tokenize source))
    (List.forall_mem_singleton.2 (on_behindComments hscan hlength))
  refine ⟨l, ls, ?_, hfaces⟩
  rw [← hfaces.ahead_eq, start, ahead_behindComments]
  rfl

/-- The first token of the lines ahead, if the current token is no newline. -/
theorem Faces.findSome?_eq (hscan : Terminated tokens) (h : Faces tokens c l ls)
    (hl : (l.current l.tokens).kind ≠ .newline) :
    (l :: ls).findSome? (·.tokens.head?) =
      if (l.current l.tokens).kind = .endOfInput then none else some (l.current l.tokens) := by
  split
  · rename_i hend
    obtain ⟨htokens, rfl⟩ := h.end_of_current hscan hend
    simp [htokens]
  · rename_i hend
    obtain ⟨ts, stop⟩ := l
    cases ts with
    | nil => exact (h.stop_cases.elim hl hend).elim
    | cons t ts => rfl

/-- A line, if there is no token behind it. -/
def onlyLine (x : Line) : Option Token → Except ParseError Line
  | none => .ok x
  | some t => .error (.unexpected t (.token .endOfInput))

theorem ofString_eq_onlyLine {source : String} (h : TokenLine.ofSource source = l :: ls) :
    Line.ofString source = ((Line.parseTokens l).map fun x => (x, ([] : List Token))).bind fun r =>
      onlyLine r.1 ((⟨r.2, l.stop⟩ :: ls : List TokenLine).findSome? (·.tokens.head?)) := by
  rw [Line.ofString_eq_ofLines, h, Line.ofLines]
  cases Line.parseTokens l with
  | error e => rfl
  | ok x =>
    simp only [bind_eq, Except.bind, Except.map, List.findSome?_cons, List.head?_nil]
    cases ls.findSome? (·.tokens.head?) <;> rfl

theorem run_line (source : String) {n : Nat} (hn : 3 * (tokenize source).length ≤ n) :
    ∃ c, runLine n source = conclude c (Line.ofString source) ∧
      InPlace (tokenize source) (start (tokenize source)) c := by
  have hscan := terminated_tokenize source
  obtain ⟨l, ls, hsource, hfaces⟩ := faces_start source
  have hlength := hfaces.length_lt
  have hfollows := follows_line hscan hfaces (show 3 * l.tokens.length + 2 ≤ n by omega)
  rw [runLine, ofString_eq_onlyLine hsource]
  refine hfollows.concludes fun x rest c₁ faces => ?_
  obtain ⟨c₂, l₂, ls₂, hskip, hnoted, hfaces₂, hkind, hfirst⟩ :=
    run_skipNewlines hscan faces (show (tokenize source).length - c₁.place ≤ n by omega)
  obtain ⟨c₃, hexpect, hin⟩ := run_expectEnd hscan hfaces₂ x
  refine ⟨c₃, ?_, hin.after hnoted⟩
  rw [run_bind_of_ok hskip, hexpect]
  simp only
  rw [hfirst, hfaces₂.findSome?_eq hscan hkind]
  by_cases hend : (l₂.current l₂.tokens).kind = .endOfInput
  · rw [if_pos hend, if_pos hend, onlyLine]
  · rw [if_neg hend, if_neg hend, onlyLine]

theorem run_expression (source : String) {n : Nat} (hn : 3 * (tokenize source).length ≤ n) :
    ∃ c, runExpression n source = conclude c (Expr.ofString source) ∧
      InPlace (tokenize source) (start (tokenize source)) c := by
  have hscan := terminated_tokenize source
  obtain ⟨l, ls, hsource, hfaces⟩ := faces_start source
  have hlength := hfaces.length_lt
  have hfollows := (readers_follow hscan l.stop ls).1 0 l.tokens n _
    (show 3 * l.tokens.length + 2 ≤ n by omega) hfaces
  rw [runExpression, Expr.ofString_eq_ofLines, hsource, Expr.ofLines_cons]
  exact hfollows.concludes fun e rest c₁ faces => run_expectEnd hscan faces e

/-! ### All runs -/

/-- From `c` on an expression is read as the reader of a line reads it, the cursor stopping at `c'`.
The tokens `spent` are passed; they are tokens of the line, and a result takes some. -/
structure ReadsAlong (tokens : List Token) (rounds min : Nat) (c c' : Cursor)
    (spent : List Token) : Prop where
  run_eq : ∃ l ls, ahead tokens c.place = l :: ls ∧
    (expression tokens rounds min).run c =
      conclude c' ((Expr.read l.stop min l.tokens).map Prod.fst)
  inPlace : InPlace tokens c c'
  passes : Passes tokens c.place c'.place spent
  unbroken : ∀ t ∈ spent, t.kind.endsLine = false
  progress : ∀ e, (expression tokens rounds min).run c = .ok e c' → spent ≠ []

theorem exists_readsAlong (hscan : Terminated tokens) (hc : ∀ p ∈ c.visited, On tokens p) {n : Nat}
    (hn : 3 * (tokens.length - c.place) ≤ n) (min : Nat) :
    ∃ c' spent, ReadsAlong tokens n min c c' spent := by
  obtain ⟨l, ls, hfaces⟩ := exists_faces hscan hc
  have hlength := hfaces.length_lt
  have hfollows := (readers_follow hscan l.stop ls).1 min l.tokens n c (by omega) hfaces
  obtain ⟨c', rest, hrun, ⟨spent, hmoves, hspent⟩, hfaces', hrest⟩ := hfollows.stops
  refine ⟨c', spent, ⟨l, ls, hfaces.ahead_eq, hrun⟩, ⟨hmoves.noted, hfaces'.inPlace⟩,
    hmoves.passes, hspent, fun e he hnone => ?_⟩
  rw [hrun] at he
  cases hread : Expr.read l.stop min l.tokens with
  | error err =>
    rw [hread] at he
    cases he
  | ok r =>
    -- The reader leaves less than the line, but without tokens passed all of it is left.
    have hshorter := Expr.length_read hread
    rw [hrest _ _ hread, hmoves.tokens_eq hspent hfaces hfaces', hnone] at hshorter
    exact Nat.lt_irrefl _ hshorter

/-- What holds of all runs over a source that have so many rounds. -/
structure Sound (source : String) (rounds : Nat) : Prop where
  /-- The rounds take the lines of the program, none of them is left without its end, and what they
  come to is what the library reads. -/
  program : ∃ rs c, runProgram rounds source = .ok rs c ∧
    InPlace (tokenize source) (start (tokenize source)) c ∧
    Rounds (tokenize source) (start (tokenize source)).place rs (TokenLine.ofProgram source) ∧
    (∀ r ∈ rs, ∀ l e, r.turn ≠ .unended l e) ∧ answer rs = parseProgram source
  line : ∃ c, runLine rounds source = conclude c (Line.ofString source) ∧
    InPlace (tokenize source) (start (tokenize source)) c
  expression : ∃ c, runExpression rounds source = conclude c (Expr.ofString source) ∧
    InPlace (tokenize source) (start (tokenize source)) c
  /-- An expression can be read wherever a cursor may stand. -/
  readsAlong : ∀ c n min, (∀ p ∈ c.visited, On (tokenize source) p) →
    3 * ((tokenize source).length - c.place) ≤ n →
      ∃ c' spent, ReadsAlong (tokenize source) n min c c' spent

theorem Rounds.ne_unended {p : Nat} {rs : List Round} (h : Rounds tokens p rs ls) :
    ∀ r ∈ rs, ∀ l e, r.turn ≠ .unended l e := by
  intro r hr l e
  have hturn : r.turn ∈ ls.map Turn.ofLine := h.turns_eq ▸ List.mem_map_of_mem hr
  obtain ⟨tl, -, heq⟩ := List.mem_map.1 hturn
  exact heq ▸ Turn.ofLine_ne_unended tl l e

theorem counted_eq_ofProgram {source : String} (h : TokenLine.ofSource source = l :: ls) :
    counted l ls = TokenLine.ofProgram source := by
  rw [Piece.ofProgram_eq, h, counted]
  by_cases hls : ls = []
  · rw [if_pos hls, if_pos (by simp [hls]), hls]
  · rw [if_neg hls, if_neg (by simp [hls])]

/-- Three rounds for each token of a source suffice for all runs. Then a cursor reads what the
library reads; it never asks for a token outside, and has stood at tokens only that are no comments;
each round over a program takes a line and its newline, or ends at the end of the input, and none
reports that the end of a line is missing; and each expression takes tokens of its line, and no
newline. -/
theorem sound_of_rounds (source : String) (rounds : Nat)
    (hrounds : 3 * (tokenize source).length ≤ rounds) : Sound source rounds := by
  have hscan := terminated_tokenize source
  obtain ⟨l, ls, hsource, hfaces⟩ := faces_start source
  obtain ⟨rs, c, hrun, hin, htaken⟩ := run_program hscan hfaces
    (show 3 * ((tokenize source).length - (start (tokenize source)).place) ≤ rounds by omega)
  rw [counted_eq_ofProgram hsource] at htaken
  exact {
    program := ⟨rs, c, hrun, hin, htaken, htaken.ne_unended,
      htaken.answer_eq.trans (parseProgram_eq_collect source).symm⟩
    line := run_line source hrounds
    expression := run_expression source hrounds
    readsAlong := fun c n min hc hn => exists_readsAlong hscan hc hn min }

/-- A binding with a comment behind it, a malformed line, and an expression without a newline. -/
def threeLines : String := "f(a, b) = a # sum\n)\n2 m"

theorem sound_threeLines :
    3 * (tokenize threeLines).length ≤ 45 ∧ Sound threeLines 45 ∧
      (∀ p ∈ (start (tokenize threeLines)).visited, On (tokenize threeLines) p) ∧
      ∃ c' spent,
        ReadsAlong (tokenize threeLines) 45 0 (start (tokenize threeLines)) c' spent := by
  have hlength : 3 * (tokenize threeLines).length ≤ 45 := by decide
  have hstart : ∀ p ∈ (start (tokenize threeLines)).visited, On (tokenize threeLines) p :=
    List.forall_mem_singleton.2 ⟨_, rfl, by decide⟩
  have hsound := sound_of_rounds threeLines 45 hlength
  exact ⟨hlength, hsound, hstart, hsound.readsAlong _ 45 0 hstart (by decide)⟩

end Cursor

end UnitCalc
