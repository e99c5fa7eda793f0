import UnitCalc.Program.Report
import UnitCalc.Proofs.BodySpans
import UnitCalc.Proofs.Locations

/-! When a failed program can be reported. A report looks up where the error starts in the source at
hand, and there is no such place inside a character. Errors of reading and errors that arise in the
source itself start at characters. An error in the body of a function from an earlier source starts
at an offset into that source, and this is the only way in which a report can fail. -/

namespace UnitCalc

/-! ### Places in a source -/

/-- An offset at which a character of the source begins or the source ends. -/
def Boundary (source : String) (offset : Nat) : Prop :=
  ∃ before after, source.toList = before ++ after ∧ offset = byteLength before

theorem Boundary.ofOffset?_isSome {source : String} {offset : Nat} (h : Boundary source offset) :
    (Location.ofOffset? source offset).isSome = true := by
  obtain ⟨before, after, hsource, rfl⟩ := h
  rw [Location.ofOffset?_eq hsource, Option.isSome_some]

/-- A span that is not empty and starts at a character of the source. -/
structure Placed (source : String) (sp : Span) : Prop where
  start : Boundary source sp.start
  pos : sp.start < sp.stop

theorem Placed.merge {source : String} (a b : Span) (ha : Placed source a) (hb : Placed source b) :
    Placed source (a.merge b) := by
  have hpos : (a.merge b).start < (a.merge b).stop := by
    have hapos := ha.pos
    have hbpos := hb.pos
    simp only [Span.merge]
    omega
  refine ⟨?_, hpos⟩
  rcases Nat.le_total a.start b.start with h | h
  · rw [Span.merge, Nat.min_eq_left h]
    exact ha.start
  · rw [Span.merge, Nat.min_eq_right h]
    exact hb.start

theorem Token.Stands.placed {source : String} {t : Token} (h : Stands 0 source.toList t) :
    Placed source t.span := by
  obtain ⟨before, lexeme, after, hsource, hne, -, hspan⟩ := h
  have hpos := byteLength_pos hne
  rw [Nat.zero_add] at hspan
  rw [hspan]
  refine ⟨⟨before, lexeme ++ after, ?_, rfl⟩, ?_⟩
  · rw [hsource, List.append_assoc]
  · show byteLength before < byteLength before + byteLength lexeme
    omega

/-! ### Reading a source -/

/-- The tokens of a line stand in the source, and the line is stopped at a character or at the end
of the source. -/
theorem TokenLine.placed {source : String} {l : TokenLine} (h : l ∈ ofSource source) :
    (∀ t ∈ l.tokens, Placed source t.span) ∧ Boundary source l.stop.span.start ∧
      l.stop.kind ≠ .identifier := by
  have hmem : ∀ t ∈ (tokenize source).filter (·.kind ≠ .comment),
      Placed source t.span ∨ t = Token.endToken (byteLength source.toList) := by
    intro t ht
    have ht := (List.mem_filter.1 ht).1
    rw [tokenize, Token.scan_eq, Nat.zero_add] at ht
    rcases List.mem_append.1 ht with ht | ht
    · exact .inl (Token.lexemes_spec ht).1.placed
    · exact .inr (List.mem_singleton.1 ht)
  obtain ⟨htokens, hstop, hkind⟩ := of_mem_group h
  refine ⟨fun t ht => ?_, ?_, ?_⟩
  · obtain ⟨ht, hends⟩ := htokens t ht
    rcases hmem t ht with hplaced | rfl
    · exact hplaced
    · cases hends
  · rcases hmem l.stop hstop with hplaced | heq
    · exact hplaced.start
    · rw [heq]
      exact ⟨source.toList, [], (List.append_nil _).symm, rfl⟩
  · intro hidentifier
    rw [hidentifier] at hkind
    cases hkind

/-- All spans of a program stand in its source. -/
theorem parseProgram_within {source : String} {lines : List Line}
    (h : parseProgram source = .ok lines) : ∀ l ∈ lines, l.Within (Placed source) := by
  intro l hl
  obtain ⟨tl, htl, hparse⟩ := parseProgram_eq_ok h l hl
  obtain ⟨htokens, -, hstop⟩ := TokenLine.placed (TokenLine.mem_ofSource htl)
  exact Line.parseTokens_within Placed.merge hstop htokens hparse

/-- Every error of reading starts at a character of the source, or at its end. -/
theorem parseProgram_error {source : String} {errors : List ParseError}
    (h : parseProgram source = .error errors) : ∀ e ∈ errors, Boundary source e.span.start := by
  intro e he
  obtain ⟨tl, htl, hparse⟩ := parseProgram_eq_error h e he
  obtain ⟨htokens, hstop, -⟩ := TokenLine.placed (TokenLine.mem_ofSource htl)
  exact Line.parseTokens_error (P := fun sp => Boundary source sp.start) hstop
    (fun t ht => (htokens t ht).start) hparse

/-! ### Running a source -/

namespace State

/-- A run keeps a property of the spans in bodies that holds of all places in its source; its error
is one of reading, or has a span with that property. -/
theorem runProgram_within {P : Span → Prop} {s : State} {source : String} (hs : s.BodiesWithin P)
    (hP : ∀ sp, Placed source sp → P sp) :
    (s.runProgram source).1.BodiesWithin P ∧ ∀ err, (s.runProgram source).2 = .error err →
      (∃ errors, err = .parse errors ∧ ∀ e ∈ errors, Boundary source e.span.start) ∨
        ∃ line e, err = .eval line e ∧ P e.span := by
  rw [runProgram]
  cases hparse : parseProgram source with
  | error errors =>
    refine ⟨hs, ?_⟩
    rintro _ ⟨⟩
    exact .inl ⟨errors, rfl, parseProgram_error hparse⟩
  | ok lines =>
    have hkeeps := keeps_bodiesWithin Placed.merge hP
    obtain ⟨hfinal, -, herrors⟩ := hkeeps.runLines hs (parseProgram_within hparse) 1
    exact ⟨hfinal, fun err herr => .inr (herrors err herr)⟩

/-- No span in a body is empty. -/
theorem afterSources_bodies (precision : Nat) (sources : List String) :
    ((initial precision).afterSources sources).BodiesWithin fun sp => sp.start < sp.stop := by
  refine afterSources_induct (fun s source hs => ?_) ?_ sources
  · exact (runProgram_within hs fun sp hsp => hsp.pos).1
  · intro name g hg
    cases hg

theorem bodiesWithin_iff {P : Span → Prop} {s : State} :
    s.BodiesWithin P ↔ ∀ sp, s.InBody sp → P sp := by
  constructor
  · rintro hs sp ⟨name, g, hg, hsp⟩
    exact hs name g hg sp hsp
  · exact fun hs name g hg sp hsp => hs sp ⟨name, g, hg, hsp⟩

end State

/-! ### Reports -/

theorem reportAt?_eq_none {source : String} {origin : Option String} {offset : Nat}
    {message : String} :
    reportAt? source origin offset message = none ↔ Location.ofOffset? source offset = none := by
  rw [reportAt?, Option.map_eq_none_iff]

theorem Boundary.ofOffset?_ne_none {source : String} {offset : Nat} (h : Boundary source offset) :
    Location.ofOffset? source offset ≠ none :=
  Option.isSome_iff_ne_none.1 h.ofOffset?_isSome

theorem mapM_ne_none {α β : Type} {f : α → Option β} {as : List α} (h : ∀ a ∈ as, f a ≠ none) :
    as.mapM f ≠ none := by
  induction as with
  | nil => exact Option.some_ne_none []
  | cons a as ih =>
    obtain ⟨ha, has⟩ := List.forall_mem_cons.1 h
    obtain ⟨b, hb⟩ := Option.ne_none_iff_exists'.1 ha
    obtain ⟨bs, hbs⟩ := Option.ne_none_iff_exists'.1 (ih has)
    rw [List.mapM_cons, hb, hbs]
    exact Option.some_ne_none (b :: bs)

/-- Errors that all start at characters are reported. -/
theorem report?_parse_ne_none {source : String} {errors : List ParseError}
    (h : ∀ e ∈ errors, Boundary source e.span.start) (origin : Option String) :
    (ProgramError.parse errors).report? source origin ≠ none := by
  rw [ProgramError.report?, Ne, Option.map_eq_none_iff]
  apply mapM_ne_none
  intro e he
  rw [Ne, reportAt?_eq_none]
  exact (h e he).ofOffset?_ne_none

theorem report?_eval_eq_none {source : String} {origin : Option String} {line : Nat}
    {e : EvalError} (hpos : e.span.start < e.span.stop) :
    (ProgramError.eval line e).report? source origin = none ↔
      Location.ofOffset? source e.span.start = none := by
  have hsomewhere : e.span.isNowhere = false := by
    rw [Span.isNowhere, decide_eq_false_iff_not]
    intro heq
    rw [heq] at hpos
    exact Nat.lt_irrefl _ hpos
  rw [ProgramError.report?, hsomewhere, if_neg Bool.false_ne_true, reportAt?_eq_none]

/-- A failed program cannot be reported exactly if its error arose in the body of a function that
was there before and starts inside a character of the source at hand. -/
theorem report?_eq_none_iff (precision : Nat) (earlier : List String) (source : String)
    (origin : Option String) (err : ProgramError)
    (h : (((State.initial precision).afterSources earlier).runProgram source).2 = .error err) :
    err.report? source origin = none ↔
      ∃ line e, err = .eval line e ∧
        ((State.initial precision).afterSources earlier).InBody e.span ∧
        Location.ofOffset? source e.span.start = none := by
  have hbodies := State.bodiesWithin_iff.1 (State.afterSources_bodies precision earlier)
  generalize (State.initial precision).afterSources earlier = s at h hbodies ⊢
  have hwithin : s.BodiesWithin fun sp => Placed source sp ∨ s.InBody sp :=
    State.bodiesWithin_iff.2 fun sp hsp => .inr hsp
  obtain ⟨-, herrors⟩ := State.runProgram_within hwithin fun sp hsp => .inl hsp
  rcases herrors err h with ⟨errors, rfl, hboundary⟩ | ⟨line, e, rfl, hplaced | hbody⟩
  · refine iff_of_false (report?_parse_ne_none hboundary origin) ?_
    rintro ⟨line, e, heq, -⟩
    cases heq
  · rw [report?_eval_eq_none hplaced.pos]
    refine iff_of_false hplaced.start.ofOffset?_ne_none ?_
    rintro ⟨line', e', heq, -, hnone⟩
    cases heq
    exact hplaced.start.ofOffset?_ne_none hnone
  · rw [report?_eval_eq_none (hbodies _ hbody)]
    constructor
    · exact fun hnone => ⟨line, e, rfl, hbody, hnone⟩
    · rintro ⟨line', e', heq, -, hnone⟩
      cases heq
      exact hnone

/-! ### An error that cannot be reported -/

/-- The name `a` stands at byte 5 of the first source, and in the second source a character of two
bytes starts at byte 4. -/
theorem run_inside_character :
    (((State.initial 50).afterSources ["f()= a"]).runProgram "f()#é").2 =
      .error (.eval 1 ⟨.undefinedName "a", ⟨5, 6⟩⟩) := by
  have hdeclared : TokenLine.ofProgram "f()= a" =
      [⟨[⟨.identifier, "f", ⟨0, 1⟩⟩, ⟨.openParen, "(", ⟨1, 2⟩⟩, ⟨.closeParen, ")", ⟨2, 3⟩⟩,
        ⟨.equal, "=", ⟨3, 4⟩⟩, ⟨.identifier, "a", ⟨5, 6⟩⟩], Token.endToken 6⟩] := by decide
  have hcalled : TokenLine.ofProgram "f()#é" =
      [⟨[⟨.identifier, "f", ⟨0, 1⟩⟩, ⟨.openParen, "(", ⟨1, 2⟩⟩, ⟨.closeParen, ")", ⟨2, 3⟩⟩],
        Token.endToken 6⟩] := by decide
  have hdeclaration : parseProgram "f()= a" =
      .ok [.binding ⟨⟨"f", ⟨0, 1⟩⟩, some [], .name ⟨"a", ⟨5, 6⟩⟩, ⟨0, 6⟩⟩] := by
    rw [parseProgram_eq_collect, hdeclared]
    cbv
  have hcall : parseProgram "f()#é" = .ok [.expr (.call ⟨"f", ⟨0, 1⟩⟩ [] ⟨0, 3⟩)] := by
    rw [parseProgram_eq_collect, hcalled]
    cbv
  have hstate : (State.initial 50).afterSources ["f()= a"] =
      { State.initial 50 with
        functions := Table.empty.insert "f" ⟨[], .name ⟨"a", ⟨5, 6⟩⟩⟩ } := by
    simp only [State.afterSources, List.foldl, State.runProgram, hdeclaration]
    rfl
  rw [State.runProgram, hcall, hstate]
  rfl

/-- Not every failed program can be reported. -/
theorem report?_undefined :
    ¬ ∀ (precision : Nat) (earlier : List String) (source : String) (origin : Option String)
      (err : ProgramError),
      (((State.initial precision).afterSources earlier).runProgram source).2 = .error err →
        err.report? source origin ≠ none := by
  intro h
  exact h 50 ["f()= a"] "f()#é" none _ run_inside_character (by decide)

theorem report?_eq_none_iff_body :
    (((State.initial 50).afterSources ["f()= a"]).runProgram "f()#é").2 =
        .error (.eval 1 ⟨.undefinedName "a", ⟨5, 6⟩⟩) ∧
      ((State.initial 50).afterSources ["f()= a"]).InBody ⟨5, 6⟩ ∧
      Location.ofOffset? "f()#é" 5 = none := by
  obtain ⟨line, e, heq, hbody, hnone⟩ := (report?_eq_none_iff 50 ["f()= a"] "f()#é" none _
    run_inside_character).1 (by decide)
  cases heq
  exact ⟨run_inside_character, hbody, hnone⟩

end UnitCalc
