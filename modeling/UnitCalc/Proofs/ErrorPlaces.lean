import Mathlib.Data.List.Forall2
import UnitCalc.Proofs.LineStarts
import UnitCalc.Proofs.Spelling

/-! Where the errors of a program point. If no function is declared before a program runs, all that
it can complain about stands in its own source: every span of an error reaches from the start of one
token to the end of another, so each report gives the line and the column of a token. Errors of
evaluation have spans that are not empty. An error of reading may point at the end of the source,
and there lies the one exception: in the longest source that offsets of 32 bits allow, the end has
the span that stands for no place, and no column if all of the source is one line. -/

namespace UnitCalc

/-! ### Spans from token to token -/

/-- A span that starts where a token of the source starts, and ends where one ends. -/
structure Framed (source : String) (sp : Span) : Prop where
  start : ∃ t ∈ tokenize source, t.span.start = sp.start
  stop : ∃ t ∈ tokenize source, t.span.stop = sp.stop
  ordered : sp.start ≤ sp.stop

theorem Framed.merge {source : String} (a b : Span) (ha : Framed source a) (hb : Framed source b) :
    Framed source (a.merge b) where
  start := by
    rcases Nat.le_total a.start b.start with h | h
    · rw [Span.merge, Nat.min_eq_left h]
      exact ha.start
    · rw [Span.merge, Nat.min_eq_right h]
      exact hb.start
  stop := by
    rcases Nat.le_total a.stop b.stop with h | h
    · rw [Span.merge, Nat.max_eq_right h]
      exact hb.stop
    · rw [Span.merge, Nat.max_eq_left h]
      exact ha.stop
  ordered := by
    have hle := ha.ordered
    show min a.start b.start ≤ max a.stop b.stop
    omega

/-- A token starts at a character or at the end of the source, and ends within the source. -/
theorem span_of_mem_tokenize {source : String} {t : Token} (h : t ∈ tokenize source) :
    Boundary source t.span.start ∧ t.span.start ≤ t.span.stop ∧
      t.span.stop ≤ byteLength source.toList := by
  rw [tokenize, Token.scan_eq, Nat.zero_add] at h
  rcases List.mem_append.1 h with h | h
  · have hstands := (Token.lexemes_spec h).1
    refine ⟨hstands.placed.start, hstands.placed.pos.le, ?_⟩
    obtain ⟨before, lexeme, after, hsource, -, -, hspan⟩ := hstands
    rw [hsource, hspan, byteLength_append, byteLength_append, Nat.zero_add]
    exact Nat.le_add_right _ _
  · rw [List.mem_singleton.1 h]
    exact ⟨⟨source.toList, [], (List.append_nil _).symm, rfl⟩, Nat.le_refl _, Nat.le_refl _⟩

theorem framed_of_mem {source : String} {t : Token} (h : t ∈ tokenize source) :
    Framed source t.span :=
  ⟨⟨t, h, rfl⟩, ⟨t, h, rfl⟩, (span_of_mem_tokenize h).2.1⟩

theorem Framed.boundary {source : String} {sp : Span} (h : Framed source sp) :
    Boundary source sp.start := by
  obtain ⟨t, ht, hstart⟩ := h.start
  exact hstart ▸ (span_of_mem_tokenize ht).1

theorem Framed.stop_le {source : String} {sp : Span} (h : Framed source sp) :
    sp.stop ≤ byteLength source.toList := by
  obtain ⟨t, ht, hstop⟩ := h.stop
  exact hstop ▸ (span_of_mem_tokenize ht).2.2

/-! ### Errors of a source -/

theorem TokenLine.framed {source : String} {l : TokenLine} (h : l ∈ ofProgram source) :
    (∀ t ∈ l.tokens, Framed source t.span) ∧ Framed source l.stop.span := by
  obtain ⟨htokens, hstop, -⟩ := of_mem_group (mem_ofSource h)
  exact ⟨fun t ht => framed_of_mem (List.mem_filter.1 (htokens t ht).1).1,
    framed_of_mem (List.mem_filter.1 hstop).1⟩

/-- An error of a program that runs without any functions is one of reading, with spans from token
to token, or one of evaluation, with such a span that is not empty. -/
theorem State.runProgram_framed {s : State} (hs : s.functions = .empty) {source : String}
    {err : ProgramError} (h : (s.runProgram source).2 = .error err) :
    (∃ errors, err = .parse errors ∧ ∀ e ∈ errors, Framed source e.span) ∨
      ∃ line e, err = .eval line e ∧ Placed source e.span ∧ Framed source e.span := by
  rw [runProgram] at h
  cases hparse : parseProgram source with
  | error errors =>
    rw [hparse] at h
    cases h
    refine .inl ⟨errors, rfl, fun e he => ?_⟩
    obtain ⟨tl, htl, hline⟩ := parseProgram_eq_error hparse e he
    obtain ⟨htokens, hstop⟩ := TokenLine.framed htl
    exact Line.parseTokens_error hstop htokens hline
  | ok lines =>
    rw [hparse] at h
    have hmerge : ∀ a b, Placed source a ∧ Framed source a → Placed source b ∧ Framed source b →
        Placed source (a.merge b) ∧ Framed source (a.merge b) :=
      fun a b ha hb => ⟨ha.1.merge a b hb.1, ha.2.merge a b hb.2⟩
    have hlines : ∀ l ∈ lines, l.Within fun sp => Placed source sp ∧ Framed source sp := by
      intro l hl
      obtain ⟨tl, htl, hline⟩ := parseProgram_eq_ok hparse l hl
      obtain ⟨hplaced, -, hstop⟩ := TokenLine.placed (TokenLine.mem_ofSource htl)
      exact Line.parseTokens_within hmerge hstop
        (fun t ht => ⟨hplaced t ht, (TokenLine.framed htl).1 t ht⟩) hline
    -- No body comes from an earlier source, and the lines of this one bring in framed spans only.
    have hbodies : s.BodiesWithin fun sp => Placed source sp ∧ Framed source sp := by
      intro name g hg
      rw [hs] at hg
      cases hg
    exact .inr (((keeps_bodiesWithin hmerge fun _ => id).runLines hbodies hlines 1).2.2 err h)

/-! ### Newlines alone -/

theorem Token.lexemes_newlines {cs : List Char} (h : ∀ c ∈ cs, c = '\n') (offset : Nat) :
    ∀ t ∈ lexemes 0 offset cs, t.kind = .newline := by
  induction cs generalizing offset with
  | nil => nofun
  | cons c cs ih =>
    obtain ⟨rfl, hcs⟩ := List.forall_mem_cons.1 h
    have hlexemes := lexemes_line (Nat.zero_le ([] : List Char).length) offset cs
    rw [List.nil_append, lexemes_nil, List.nil_append] at hlexemes
    rw [hlexemes]
    exact List.forall_mem_cons.2 ⟨rfl, ih hcs _⟩

/-- No line of newlines alone has any tokens. -/
theorem TokenLine.tokens_of_newlines {source : String} (h : ∀ c ∈ source.toList, c = '\n')
    {l : TokenLine} (hl : l ∈ ofProgram source) : l.tokens = [] := by
  rw [List.eq_nil_iff_forall_not_mem]
  intro t ht
  obtain ⟨hmem, hends⟩ := (of_mem_group (mem_ofSource hl)).1 t ht
  have hmem := (List.mem_filter.1 hmem).1
  rw [tokenize, Token.scan_eq] at hmem
  rcases List.mem_append.1 hmem with hmem | hmem
  · rw [Token.lexemes_newlines h 0 t hmem] at hends
    cases hends
  · rw [List.mem_singleton.1 hmem] at hends
    cases hends

/-- A program of newlines alone does nothing, so it does not fail. -/
theorem State.runProgram_newlines {s : State} (hs : s.functions = .empty) {source : String}
    (hnewlines : ∀ c ∈ source.toList, c = '\n') (err : ProgramError) :
    (s.runProgram source).2 ≠ .error err := by
  intro h
  have hblank : ∀ tl ∈ TokenLine.ofProgram source, Line.parseTokens tl = .ok .blank := by
    intro tl htl
    rw [Line.parseTokens, TokenLine.tokens_of_newlines hnewlines htl]
  have hparse : parseProgram source = .ok ((TokenLine.ofProgram source).map fun _ => .blank) := by
    rw [parseProgram_eq_collect, List.map_congr_left hblank, ← collect_ok, List.map_map]
    rfl
  have hlines : ∀ l ∈ (TokenLine.ofProgram source).map fun _ => Line.blank,
      l.Within fun _ => False := by
    intro l hl
    obtain ⟨tl, -, rfl⟩ := List.mem_map.1 hl
    trivial
  have hbodies : s.BodiesWithin fun _ => False := by
    intro name g hg
    rw [hs] at hg
    cases hg
  rw [runProgram, hparse] at h
  -- An error of evaluation would have a span, and neither the lines nor the bodies have any.
  obtain ⟨line, e, -, he⟩ :=
    ((keeps_bodiesWithin (fun _ _ _ hb => hb) fun _ => id).runLines hbodies hlines 1).2.2 err h
  exact he

/-! ### Reports -/

/-- What a failed program complains about: the span and the message of each of its errors. -/
def ProgramError.complaints : ProgramError → List (Span × String)
  | parse errors => errors.map fun e => (e.span, "parse error: " ++ e.message)
  | eval _ e => [(e.span, e.message)]

theorem mapM_eq_some {α β : Type} {f : α → Option β} {R : α → β → Prop} {as : List α}
    (h : ∀ a ∈ as, ∃ b, f a = some b ∧ R a b) :
    ∃ bs, as.mapM f = some bs ∧ List.Forall₂ R as bs := by
  induction as with
  | nil => exact ⟨[], rfl, .nil⟩
  | cons a as ih =>
    obtain ⟨⟨b, hb, hR⟩, has⟩ := List.forall_mem_cons.1 h
    obtain ⟨bs, hbs, hRs⟩ := ih has
    refine ⟨b :: bs, ?_, .cons hR hRs⟩
    rw [List.mapM_cons, hb, hbs]
    rfl

/-- Each complaint is reported on a line of its own, with the place where its span starts. -/
theorem report?_eq_complaints {err : ProgramError} (source : String) (origin : Option String)
    (h : ∀ line e, err = .eval line e → e.span ≠ .nowhere) :
    err.report? source origin = (err.complaints.mapM fun c =>
      reportAt? source origin c.1.start c.2).map "\n".intercalate := by
  cases err with
  | parse errors => rw [ProgramError.report?, ProgramError.complaints, List.mapM_map]; rfl
  | eval line e =>
    have hsomewhere : ¬ e.span.isNowhere = true := by simpa [Span.isNowhere] using h line e rfl
    rw [ProgramError.report?, if_neg hsomewhere, ProgramError.complaints, List.mapM_cons]
    cases reportAt? source origin e.span.start e.message with
    | none => rfl
    | some r => exact congrArg some String.intercalate_singleton.symm

/-- A report on a complaint whose span reaches from token to token within the source: it gives the
line and the column at which the first of these tokens stands. -/
structure Reported (source : String) (origin : Option String) (complaint : Span × String)
    (report : String) : Prop where
  framed : Framed source complaint.1
  stop_le : complaint.1.stop ≤ byteLength source.toList
  located : ∃ before rest, source.toList = before ++ rest ∧
    complaint.1.start = byteLength before ∧
    report = placedMessage origin (Location.behind before).text complaint.2

/-- A source that is one line and has as many characters as the largest offset says. -/
def OneLongLine (source : String) : Prop :=
  source.length = 2 ^ 32 - 1 ∧ '\n' ∉ source.toList

/-- A span from token to token starts at a place whose numbers have 32 bits, unless it is the end of
a long line. -/
theorem Framed.wrapped_behind {source : String} {sp : Span} (h : Framed source sp)
    (hsize : byteLength source.toList < 2 ^ 32) (hfailed : ¬ ∀ c ∈ source.toList, c = '\n')
    (hend : sp = .nowhere → ¬ OneLongLine source) {before rest : List Char}
    (hsource : source.toList = before ++ rest) (hstart : sp.start = byteLength before) :
    (Location.behind before).wrapped = Location.behind before := by
  by_cases hline : OneLongLine source
  · apply Location.wrapped_behind_of_length
    by_contra hlong
    have hle := length_le_byteLength before
    have hordered := h.ordered
    have hstop := h.stop_le
    apply hend _ hline
    show Span.mk sp.start sp.stop = ⟨2 ^ 32 - 1, 2 ^ 32 - 1⟩
    rw [show sp.start = 2 ^ 32 - 1 by omega, show sp.stop = 2 ^ 32 - 1 by omega]
  · apply Location.wrapped_behind (utf8ByteSize_eq source ▸ hsize) _ hsource
    rintro ⟨hlength, hone | hall⟩
    · exact hline ⟨hlength, hone⟩
    · exact hfailed hall

theorem exists_reported {source : String} {complaint : Span × String}
    (h : Framed source complaint.1) (hfits : ∀ before rest, source.toList = before ++ rest →
      complaint.1.start = byteLength before →
        (Location.behind before).wrapped = Location.behind before) (origin : Option String) :
    ∃ report, reportAt? source origin complaint.1.start complaint.2 = some report ∧
      Reported source origin complaint report := by
  obtain ⟨before, rest, hsource, hstart⟩ := h.boundary
  refine ⟨_, ?_, h, h.stop_le, before, rest, hsource, hstart, rfl⟩
  rw [reportAt?, hstart, Location.ofOffset?_eq hsource, Option.map_some,
    hfits before rest hsource hstart]

theorem Placed.ne_nowhere {source : String} {sp : Span} (h : Placed source sp) : sp ≠ .nowhere := by
  rintro rfl
  exact Nat.lt_irrefl _ h.pos

/-- Within one program every error points at a token. If a program fails that runs without any
functions, the span of each of its errors starts at a token and ends at a token within the source,
and there is a report with a line for each of them, which gives the line and the column of the first
token. Only an error at the end of one long line may have no such report, since its column is too
large. The span is not the one that stands for no place, unless the error is one of reading and the
source has as many bytes as the largest offset says. -/
theorem runProgram_error_reported {s : State} (hs : s.functions = .empty) {source : String}
    (hsource : byteLength source.toList < 2 ^ 32) {err : ProgramError}
    (h : (s.runProgram source).2 = .error err) (origin : Option String) :
    (∀ complaint ∈ err.complaints, Framed source complaint.1 ∧
      complaint.1.stop ≤ byteLength source.toList) ∧
    ((∀ complaint ∈ err.complaints, complaint.1 = .nowhere → ¬ OneLongLine source) →
      ∃ reports, err.report? source origin = some ("\n".intercalate reports) ∧
        List.Forall₂ (Reported source origin) err.complaints reports) ∧
    ∀ complaint ∈ err.complaints, complaint.1 = .nowhere →
      (∃ errors, err = .parse errors) ∧ byteLength source.toList = 2 ^ 32 - 1 := by
  have hsplit := State.runProgram_framed hs h
  have hframed : ∀ complaint ∈ err.complaints, Framed source complaint.1 := by
    rcases hsplit with ⟨errors, rfl, herrors⟩ | ⟨line, e, rfl, -, he⟩
    · intro complaint hcomplaint
      obtain ⟨e, he, rfl⟩ := List.mem_map.1 hcomplaint
      exact herrors e he
    · exact List.forall_mem_singleton.2 he
  have hsomewhere : ∀ line e, err = .eval line e → e.span ≠ .nowhere := by
    rintro line e rfl
    rcases hsplit with ⟨errors, heq, -⟩ | ⟨line', e', heq, hplaced, -⟩
    · cases heq
    · cases heq
      exact hplaced.ne_nowhere
  have hfailed : ¬ ∀ c ∈ source.toList, c = '\n' := fun hall =>
    State.runProgram_newlines hs hall err h
  refine ⟨fun complaint hcomplaint => ⟨hframed complaint hcomplaint,
    (hframed complaint hcomplaint).stop_le⟩, fun hend => ?_, ?_⟩
  · have hreported : ∀ complaint ∈ err.complaints, ∃ report,
        reportAt? source origin complaint.1.start complaint.2 = some report ∧
          Reported source origin complaint report := by
      intro complaint hcomplaint
      have hcframed := hframed complaint hcomplaint
      exact exists_reported hcframed (fun before rest hbefore hstart =>
        hcframed.wrapped_behind hsource hfailed (hend complaint hcomplaint) hbefore hstart) origin
    obtain ⟨reports, hreports, hall⟩ := mapM_eq_some hreported
    refine ⟨reports, ?_, hall⟩
    rw [report?_eq_complaints source origin hsomewhere, hreports, Option.map_some]
  · intro complaint hcomplaint hnowhere
    constructor
    · cases err with
      | parse errors => exact ⟨errors, rfl⟩
      | eval line e =>
        rw [List.mem_singleton.1 hcomplaint] at hnowhere
        exact absurd hnowhere (hsomewhere line e rfl)
    · have hle := (hframed complaint hcomplaint).stop_le
      rw [hnowhere, Span.nowhere] at hle
      simp only at hle
      omega

/-- A name is undefined in the body of a function that the program itself declares. -/
theorem runProgram_error_reported_body :
    ((State.initial 50).runProgram "f(x) = x + y\nf(1)").2 =
        .error (.eval 2 ⟨.undefinedName "y", ⟨11, 12⟩⟩) ∧
      ∃ report, (ProgramError.eval 2 ⟨.undefinedName "y", ⟨11, 12⟩⟩).report?
          "f(x) = x + y\nf(1)" none = some report ∧
        Reported "f(x) = x + y\nf(1)" none (⟨11, 12⟩, "undefined name: y") report := by
  have hrun : ((State.initial 50).runProgram "f(x) = x + y\nf(1)").2 =
      .error (.eval 2 ⟨.undefinedName "y", ⟨11, 12⟩⟩) := by
    decide +kernel
  have hlength : byteLength "f(x) = x + y\nf(1)".toList < 2 ^ 32 := by decide
  have hlines : ¬ OneLongLine "f(x) = x + y\nf(1)" := fun hline => hline.2 (by decide)
  obtain ⟨reports, hreport, hall⟩ :=
    (runProgram_error_reported rfl hlength hrun none).2.1 fun _ _ _ => hlines
  cases hall with
  | cons hreported hnil =>
    cases hnil
    rw [String.intercalate_singleton] at hreport
    exact ⟨hrun, _, hreport, hreported⟩

/-! ### An error at the largest offset -/

/-- A line of blanks, and a sign with nothing behind it. -/
def lonelySign (n : Nat) : String := String.ofList (List.replicate n ' ' ++ ['\n', '+'])

theorem content_blanks (n offset : Nat) : Token.content offset (List.replicate n ' ') = [] := by
  induction n generalizing offset with
  | zero => exact Token.content_nil offset
  | succ n ih => rw [List.replicate_succ, Token.content_blank, ih]

theorem byteLength_blanks (n : Nat) : byteLength (List.replicate n ' ') = n :=
  (byteLength_replicate n ' ').trans (Nat.mul_one n)

theorem byteLength_lonelySign (n : Nat) : byteLength (lonelySign n).toList = n + 2 := by
  rw [lonelySign, String.toList_ofList, byteLength_append, byteLength_blanks]
  rfl

/-- A line that is a sign alone ends too early. -/
theorem Line.parseTokens_plus {t : Token} (ht : t.kind = .plus) (stop : Token) :
    parseTokens ⟨[t], stop⟩ = .error (.noExpression stop) := by
  have hexpr : parseTokens ⟨[t], stop⟩ = parseExpr ⟨[t], stop⟩ := by
    simp only [parseTokens, ht, reduceCtorEq, if_false, bindingHead?]
  have hsign : Sign.ofKind? t.kind = some .plus := by rw [ht]; rfl
  rw [hexpr, parseExpr_eq, readLast, Expr.read_eq, Expr.readOperand_sign hsign, Expr.read_eq,
    Expr.readOperand_nil]
  rfl

theorem ofProgram_lonelySign (n : Nat) :
    TokenLine.ofProgram (lonelySign n) =
      [⟨[], Token.newlineToken n⟩,
        ⟨[⟨.plus, "+", ⟨n + 1, n + 2⟩⟩], Token.endToken (n + 2)⟩] := by
  have hblanks : '\n' ∉ List.replicate n ' ' := by simp [List.mem_replicate]
  have hsign : Token.content (n + 1) ['+'] = [⟨.plus, "+", ⟨n + 1, n + 2⟩⟩] := by
    have hcontent := Token.content_symbol (w := []) (r := []) (c := '+') (by decide) rfl (by decide)
      (n + 1)
    rwa [Token.content_nil] at hcontent
  have hlines : TokenLine.ofSource (lonelySign n) =
      [⟨[], Token.newlineToken n⟩,
        ⟨[⟨.plus, "+", ⟨n + 1, n + 2⟩⟩], Token.endToken (n + 2)⟩] := by
    rw [TokenLine.ofSource_eq, lonelySign, String.toList_ofList, TokenLine.ofText_line hblanks,
      content_blanks, byteLength_blanks, Nat.zero_add, TokenLine.ofText_single (by decide), hsign]
    rfl
  rw [TokenLine.ofProgram, hlines]
  exact if_neg (by simp)

/-- The error is at the end of the source. -/
theorem parseProgram_lonelySign (n : Nat) :
    parseProgram (lonelySign n) =
      .error [⟨.expectedExpression .endOfInput, ⟨n + 2, n + 2⟩⟩] := by
  rw [parseProgram_eq_collect, ofProgram_lonelySign, List.map_cons, List.map_cons, List.map_nil,
    Line.parseTokens_plus rfl]
  rfl

/-- The errors of a program do not all have a place: in a source of 4294967295 bytes the end of the
input has the span of what stands in no source. -/
theorem not_runProgram_error_somewhere :
    ¬ ∀ (s : State) (source : String) (err : ProgramError), s.functions = .empty →
      byteLength source.toList < 2 ^ 32 → (s.runProgram source).2 = .error err →
        ∀ complaint ∈ err.complaints, complaint.1 ≠ .nowhere := by
  intro h
  have hlength : byteLength (lonelySign 4294967293).toList < 2 ^ 32 := by
    rw [byteLength_lonelySign]
    decide
  have hrun : ((State.initial 50).runProgram (lonelySign 4294967293)).2 =
      .error (.parse [⟨.expectedExpression .endOfInput, .nowhere⟩]) := by
    rw [State.runProgram, parseProgram_lonelySign]
    rfl
  exact h (State.initial 50) (lonelySign 4294967293) _ rfl hlength hrun _ List.mem_cons_self rfl

end UnitCalc
