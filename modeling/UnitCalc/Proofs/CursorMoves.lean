import Mathlib.Data.List.Chain
import UnitCalc.Proofs.Blanks
import UnitCalc.Proofs.Cursor

/-! How a cursor moves over the tokens of a source. Wherever it stands there is a token, and none of
them is a comment; what lies ahead of it are the rest of a line and the lines behind that. Taking a
token of the line leaves the rest of the line ahead, and taking the newline leaves the lines behind
it. -/

namespace UnitCalc

/-! ### Tokens of a scan -/

/-- What the moves rely on: the last token and no other marks the end of the input, and behind a
comment the line ends. -/
structure Terminated (tokens : List Token) : Prop where
  ended : ∃ ts last, tokens = ts ++ [last] ∧ last.kind = .endOfInput ∧
    ∀ t ∈ ts, t.kind ≠ .endOfInput
  comments : tokens.IsChain fun t u => t.kind = .comment → u.kind.endsLine = true

namespace Token

theorem Tiles.ends_comments {offset : Nat} {cs : List Char} {ts : List Token}
    (h : Tiles offset cs ts) {last : Token} (hlast : last.kind.endsLine = true) :
    ((ts ++ [last]).IsChain fun t u => t.kind = .comment → u.kind.endsLine = true) ∧
      ((∀ d ∈ cs.head?, d = '\n') → ∀ t ∈ (ts ++ [last]).head?, t.kind.endsLine = true) := by
  induction h with
  | done =>
    refine ⟨.singleton last, fun _ t ht => ?_⟩
    cases ht
    exact hlast
  | blank hc _ ih =>
    refine ⟨ih.1, fun hnewline => ?_⟩
    rw [hnewline _ rfl] at hc
    cases hc
  | @lexeme offset kind c w cs ts _ hmunch _ ih =>
    refine ⟨List.isChain_cons.2 ⟨fun u hu (hkind : kind = .comment) => ?_, ih.1⟩,
      fun hnewline t ht => ?_⟩
    · rw [List.cons_append] at hmunch
      have hsharp : c = '#' := head_of_munch_comment ((congrArg Prod.fst hmunch).trans hkind)
      rw [hsharp, ← List.cons_append] at hmunch
      exact ih.2 (munch_comment_iff.1 hmunch).2.2 u hu
    · cases ht
      rw [hnewline c rfl, List.cons_append, munch_newline] at hmunch
      obtain ⟨rfl, -⟩ := Prod.mk.inj hmunch
      rfl

end Token

theorem terminated_tokenize (source : String) : Terminated (tokenize source) := by
  have hsource := Token.scan_eq 0 0 source.toList
  have htiles := Token.tiles_lexemes 0 source.toList
  constructor
  · exact ⟨_, _, hsource, rfl, fun t ht => (Token.lexemes_spec ht).2.1⟩
  · rw [tokenize, hsource]
    exact (htiles.ends_comments rfl).1

namespace Cursor

variable {tokens : List Token}

/-! ### Places -/

/-- At the place stands a token that is no comment. -/
def On (tokens : List Token) (place : Nat) : Prop :=
  ∃ t, tokens[place]? = some t ∧ t.kind ≠ .comment

/-- The lines from a place on, of which the first may be the rest of one. -/
def ahead (tokens : List Token) (place : Nat) : List TokenLine :=
  TokenLine.group ((tokens.drop place).filter (·.kind ≠ .comment))

theorem drop_of_getElem? {place : Nat} {t : Token} (h : tokens[place]? = some t) :
    tokens.drop place = t :: tokens.drop (place + 1) := by
  obtain ⟨hlt, rfl⟩ := List.getElem?_eq_some_iff.1 h
  exact List.drop_eq_getElem_cons hlt

theorem drop_behindComments (tokens : List Token) (place : Nat) :
    tokens.drop (behindComments tokens place) =
      (tokens.drop place).dropWhile (·.kind = .comment) := by
  rw [behindComments, ← List.drop_drop]
  nth_rewrite 2 [← List.takeWhile_append_dropWhile (p := fun t : Token => t.kind = .comment)
    (l := tokens.drop place)]
  exact List.drop_left

theorem ahead_behindComments (tokens : List Token) (place : Nat) :
    ahead tokens (behindComments tokens place) = ahead tokens place := by
  have hcomments : ((tokens.drop place).takeWhile (·.kind = .comment)).filter
      (·.kind ≠ .comment) = [] := by
    refine List.filter_eq_nil_iff.2 fun t ht => ?_
    simpa using List.mem_takeWhile_imp ht
  rw [ahead, ahead, drop_behindComments]
  nth_rewrite 2 [← List.takeWhile_append_dropWhile (p := fun t : Token => t.kind = .comment)
    (l := tokens.drop place)]
  rw [List.filter_append, hcomments, List.nil_append]

theorem ahead_of_getElem? {place : Nat} {t : Token} (h : tokens[place]? = some t)
    (ht : t.kind ≠ .comment) :
    ahead tokens place =
      TokenLine.group (t :: (tokens.drop (place + 1)).filter (·.kind ≠ .comment)) := by
  rw [ahead, drop_of_getElem? h, List.filter_cons_of_pos (by simpa using ht)]

theorem on_behindComments (hscan : Terminated tokens) {place : Nat} (h : place < tokens.length) :
    On tokens (behindComments tokens place) := by
  obtain ⟨ts, last, rfl, hlast, -⟩ := hscan.ended
  have hmem : last ∈ (ts ++ [last]).drop place := by
    rw [List.length_append, List.length_singleton] at h
    rw [List.drop_append_of_le_length (by omega)]
    exact List.mem_append_right _ List.mem_cons_self
  have hne : ((ts ++ [last]).drop place).dropWhile (·.kind = .comment) ≠ [] := by
    rw [ne_eq, List.dropWhile_eq_nil_iff]
    intro hall
    have hcomment := hall last hmem
    rw [hlast] at hcomment
    cases hcomment
  obtain ⟨t, ts', hts'⟩ := List.exists_cons_of_ne_nil hne
  refine ⟨t, ?_, ?_⟩
  · rw [← List.head?_drop, drop_behindComments, hts']
    rfl
  · have hhead := List.head?_dropWhile_not (fun t : Token => t.kind = .comment)
      ((ts ++ [last]).drop place)
    rw [hts'] at hhead
    simpa using hhead

/-- Going from one place to another passes the tokens `spent`. -/
structure Passes (tokens : List Token) (p q : Nat) (spent : List Token) : Prop where
  drop_eq : tokens.drop p = spent ++ tokens.drop q
  stop_eq : q = p + spent.length

theorem Passes.refl (p : Nat) : Passes tokens p p [] := ⟨rfl, rfl⟩

theorem Passes.trans {p q r : Nat} {spent spent' : List Token} (h : Passes tokens p q spent)
    (h' : Passes tokens q r spent') : Passes tokens p r (spent ++ spent') := by
  constructor
  · rw [h.drop_eq, h'.drop_eq, List.append_assoc]
  · rw [h'.stop_eq, h.stop_eq, List.length_append, Nat.add_assoc]

/-- Passing tokens of a line takes them off the line. -/
theorem Passes.ahead_eq {p q : Nat} {spent : List Token} (h : Passes tokens p q spent)
    (hspent : ∀ t ∈ spent, t.kind.endsLine = false) {l : TokenLine} {ls : List TokenLine}
    (hq : ahead tokens q = l :: ls) :
    ahead tokens p = ⟨spent.filter (·.kind ≠ .comment) ++ l.tokens, l.stop⟩ :: ls := by
  rw [ahead, h.drop_eq, List.filter_append]
  exact TokenLine.group_unbroken (fun t ht => hspent t (List.mem_of_mem_filter ht)) hq

/-- Passing the newline takes off the line. -/
theorem Passes.ahead_newline {p q : Nat} {spent comments : List Token} {stop : Token}
    (h : Passes tokens p q (spent ++ stop :: comments))
    (hspent : ∀ t ∈ spent, t.kind.endsLine = false) (hstop : stop.kind.endsLine = true)
    (hcomments : ∀ t ∈ comments, t.kind = .comment) :
    ahead tokens p = ⟨spent.filter (·.kind ≠ .comment), stop⟩ :: ahead tokens q := by
  have hnone : comments.filter (·.kind ≠ .comment) = [] :=
    List.filter_eq_nil_iff.2 fun t ht => by simp [hcomments t ht]
  have hkept : stop.kind ≠ .comment := by
    rintro hkind
    rw [hkind] at hstop
    cases hstop
  rw [ahead, h.drop_eq, List.filter_append, List.filter_append,
    List.filter_cons_of_pos (by simpa using hkept), hnone, List.append_assoc]
  exact TokenLine.group_append (fun t ht => hspent t (List.mem_of_mem_filter ht)) hstop _

/-- Behind a token the cursor goes on behind the comments that follow it. -/
theorem passes_token {p : Nat} {t : Token} (h : tokens[p]? = some t) :
    ∃ comments, (∀ u ∈ comments, u.kind = .comment) ∧
      Passes tokens p (behindComments tokens (p + 1)) (t :: comments) := by
  refine ⟨(tokens.drop (p + 1)).takeWhile (·.kind = .comment), fun u hu => ?_, ?_, ?_⟩
  · simpa using List.mem_takeWhile_imp hu
  · rw [drop_of_getElem? h, drop_behindComments, List.cons_append,
      List.takeWhile_append_dropWhile]
  · rw [behindComments, List.length_cons]
    omega

/-! ### What a cursor faces -/

/-- The cursor has stood at tokens only that are no comments, and ahead of it are the rest `l` of a
line and the lines `ls`. -/
structure Faces (tokens : List Token) (c : Cursor) (l : TokenLine) (ls : List TokenLine) :
    Prop where
  inPlace : ∀ p ∈ c.visited, On tokens p
  ahead_eq : ahead tokens c.place = l :: ls

theorem current_of_group {t : Token} {ts : List Token} {l : TokenLine} {ls : List TokenLine}
    (h : TokenLine.group (t :: ts) = l :: ls) : l.current l.tokens = t := by
  rw [TokenLine.group] at h
  split at h
  · cases h
    rfl
  · split at h <;> cases h
    rfl

variable {c : Cursor} {l : TokenLine} {ls : List TokenLine}

/-- Wherever a cursor may stand, lines are ahead. -/
theorem exists_faces (hscan : Terminated tokens) (hc : ∀ p ∈ c.visited, On tokens p) :
    ∃ l ls, Faces tokens c l ls := by
  obtain ⟨t, ht, hkind⟩ := hc c.place List.mem_cons_self
  obtain ⟨hlt, -⟩ := List.getElem?_eq_some_iff.1 ht
  obtain ⟨ts, last, rfl, hlast, -⟩ := hscan.ended
  rw [List.length_append, List.length_singleton] at hlt
  have hfilter : ((ts ++ [last]).drop c.place).filter (·.kind ≠ .comment) =
      (ts.drop c.place).filter (·.kind ≠ .comment) ++ [last] := by
    rw [List.drop_append_of_le_length (by omega), List.filter_append,
      List.filter_cons_of_pos (by simp [hlast])]
    rfl
  have hends : last.kind.endsLine = true := by rw [hlast]; rfl
  obtain ⟨us, -, stop, ls, -, -, -, hgroup, -⟩ :=
    TokenLine.group_concat ((ts.drop c.place).filter (·.kind ≠ .comment)) hends
  exact ⟨_, _, hc, by rw [ahead, hfilter, hgroup]⟩

theorem Faces.getElem? (h : Faces tokens c l ls) :
    tokens[c.place]? = some (l.current l.tokens) := by
  obtain ⟨t, ht, hkind⟩ := h.inPlace c.place List.mem_cons_self
  have hgroup := h.ahead_eq
  rw [ahead_of_getElem? ht hkind] at hgroup
  rw [current_of_group hgroup, ht]

theorem Faces.stop_endsLine (h : Faces tokens c l ls) : l.stop.kind.endsLine = true := by
  have hmem : l ∈ ahead tokens c.place := h.ahead_eq ▸ List.mem_cons_self
  exact (TokenLine.of_mem_group hmem).2.2

theorem Faces.unbroken (h : Faces tokens c l ls) : ∀ t ∈ l.tokens, t.kind.endsLine = false := by
  have hmem : l ∈ ahead tokens c.place := h.ahead_eq ▸ List.mem_cons_self
  exact fun t ht => ((TokenLine.of_mem_group hmem).1 t ht).2

/-- Going from one cursor to another passes the tokens `spent`, and notes all places. -/
structure Moves (tokens : List Token) (c c' : Cursor) (spent : List Token) : Prop where
  passes : Passes tokens c.place c'.place spent
  noted : c.visited <:+ c'.visited

theorem Moves.refl (c : Cursor) : Moves tokens c c [] := ⟨.refl _, List.suffix_refl _⟩

theorem Moves.trans {c c' c'' : Cursor} {spent spent' : List Token}
    (h : Moves tokens c c' spent) (h' : Moves tokens c' c'' spent') :
    Moves tokens c c'' (spent ++ spent') :=
  ⟨h.passes.trans h'.passes, h.noted.trans h'.noted⟩

/-- What has been passed of a line and what is left of it are the line. -/
theorem Moves.tokens_eq {c c' : Cursor} {l l' : TokenLine} {ls ls' : List TokenLine}
    {spent : List Token} (h : Moves tokens c c' spent)
    (hspent : ∀ t ∈ spent, t.kind.endsLine = false) (hc : Faces tokens c l ls)
    (hc' : Faces tokens c' l' ls') : l.tokens = spent.filter (·.kind ≠ .comment) ++ l'.tokens := by
  have hahead := h.passes.ahead_eq hspent hc'.ahead_eq
  rw [hc.ahead_eq] at hahead
  cases hahead
  rfl

/-- Going along the line: no newline is passed. -/
def Along (tokens : List Token) (c c' : Cursor) : Prop :=
  ∃ spent, Moves tokens c c' spent ∧ ∀ t ∈ spent, t.kind.endsLine = false

theorem Along.refl (c : Cursor) : Along tokens c c := ⟨[], .refl c, nofun⟩

theorem Along.trans {c c' c'' : Cursor} (h : Along tokens c c') (h' : Along tokens c' c'') :
    Along tokens c c'' := by
  obtain ⟨spent, hmoves, hspent⟩ := h
  obtain ⟨spent', hmoves', hspent'⟩ := h'
  exact ⟨spent ++ spent', hmoves.trans hmoves', List.forall_mem_append.2 ⟨hspent, hspent'⟩⟩

theorem Along.length_le {c c' : Cursor} {l l' : TokenLine} {ls ls' : List TokenLine}
    (h : Along tokens c c') (hc : Faces tokens c l ls) (hc' : Faces tokens c' l' ls') :
    l'.tokens.length ≤ l.tokens.length := by
  obtain ⟨spent, hmoves, hspent⟩ := h
  rw [hmoves.tokens_eq hspent hc hc']
  exact (List.suffix_append _ l'.tokens).length_le

theorem Along.noted {c c' : Cursor} (h : Along tokens c c') : c.visited <:+ c'.visited :=
  let ⟨_, hmoves, _⟩ := h
  hmoves.noted

/-! ### The steps of a run -/

section Runs

variable {α β : Type}

theorem run_bind_of_ok {x : Reader α} {a : α} {c' : Cursor} (h : x.run c = .ok a c')
    (f : α → Reader β) : (x >>= f).run c = (f a).run c' := by
  rw [EStateM.run_bind, h]

theorem run_current (h : Faces tokens c l ls) :
    (current tokens).run c = .ok (l.current l.tokens) c := by
  obtain ⟨hlt, -⟩ := List.getElem?_eq_some_iff.1 h.getElem?
  rw [EStateM.run, current, Nat.min_eq_left (by omega), h.getElem?]

/-- Looking at the current token. -/
theorem run_current_bind (h : Faces tokens c l ls) (f : Token → Reader β) :
    (current tokens >>= f).run c = (f (l.current l.tokens)).run c :=
  run_bind_of_ok (run_current h) f

/-- Taking a token other than the end of the input. -/
theorem run_advance (hscan : Terminated tokens) (h : Faces tokens c l ls) {t : Token}
    (ht : l.current l.tokens = t) (hkind : t.kind ≠ .endOfInput) :
    ∃ c' comments, (advance tokens).run c = .ok t c' ∧ Moves tokens c c' (t :: comments) ∧
      (∀ u ∈ comments, u.kind = .comment) ∧ ∀ p ∈ c'.visited, On tokens p := by
  have hget := h.getElem?
  rw [ht] at hget
  obtain ⟨comments, hcomments, hpasses⟩ := passes_token hget
  let c' := c.goTo (behindComments tokens (c.place + 1))
  refine ⟨c', comments, ?_, ⟨hpasses, List.suffix_cons _ _⟩, hcomments, ?_⟩
  · rw [advance, run_current_bind h, ht, EStateM.run_bind, EStateM.run_modify, if_neg hkind]
    rfl
  · refine List.forall_mem_cons.2 ⟨on_behindComments hscan ?_, h.inPlace⟩
    obtain ⟨ts, last, rfl, hlast, -⟩ := hscan.ended
    obtain ⟨hlt, hget⟩ := List.getElem?_eq_some_iff.1 hget
    rw [List.length_append, List.length_singleton] at hlt ⊢
    have hne : c.place ≠ ts.length := by
      intro heq
      simp only [heq, List.getElem_append_right, le_refl, Nat.sub_self, List.getElem_singleton]
        at hget
      exact hkind (hget ▸ hlast)
    omega

/-- Taking a token of the line leaves the rest of the line ahead. -/
theorem run_advance_token (hscan : Terminated tokens) {t stop : Token} {ts : List Token}
    (h : Faces tokens c ⟨t :: ts, stop⟩ ls) :
    ∃ c', (advance tokens).run c = .ok t c' ∧ Along tokens c c' ∧
      Faces tokens c' ⟨ts, stop⟩ ls := by
  have hbreak : t.kind.endsLine = false := h.unbroken t List.mem_cons_self
  have hkind : t.kind ≠ .endOfInput := by
    intro heq
    rw [heq] at hbreak
    cases hbreak
  obtain ⟨c', comments, hadvance, hmoves, hcomments, hplace⟩ :=
    run_advance hscan h (t := t) rfl hkind
  have hspent : ∀ u ∈ t :: comments, u.kind.endsLine = false :=
    List.forall_mem_cons.2 ⟨hbreak, fun u hu => by rw [hcomments u hu]; rfl⟩
  refine ⟨c', hadvance, ⟨_, hmoves, hspent⟩, ?_⟩
  obtain ⟨l', ls', hfaces⟩ := exists_faces hscan hplace
  have hahead := hmoves.passes.ahead_eq hspent hfaces.ahead_eq
  have htcomment : t.kind ≠ .comment := by
    obtain ⟨u, hu, hne⟩ := h.inPlace c.place List.mem_cons_self
    cases hu.symm.trans h.getElem?
    exact hne
  have hnone : comments.filter (·.kind ≠ .comment) = [] :=
    List.filter_eq_nil_iff.2 fun u hu => by simp [hcomments u hu]
  rw [h.ahead_eq, List.filter_cons_of_pos (by simpa using htcomment), hnone] at hahead
  cases hahead
  exact hfaces

/-- Taking the newline leaves the lines behind it ahead. -/
theorem run_advance_newline (hscan : Terminated tokens) {stop : Token}
    (h : Faces tokens c ⟨[], stop⟩ ls) (hstop : stop.kind = .newline) :
    ∃ c' comments l' ls', (advance tokens).run c = .ok stop c' ∧
      Moves tokens c c' (stop :: comments) ∧ (∀ u ∈ comments, u.kind = .comment) ∧
      ls = l' :: ls' ∧ Faces tokens c' l' ls' := by
  have hkind : stop.kind ≠ .endOfInput := by rw [hstop]; decide
  obtain ⟨c', comments, hadvance, hmoves, hcomments, hplace⟩ := run_advance hscan h rfl hkind
  obtain ⟨l', ls', hfaces⟩ := exists_faces hscan hplace
  have hpasses : Passes tokens c.place c'.place ([] ++ stop :: comments) := hmoves.passes
  have hahead := hpasses.ahead_newline nofun h.stop_endsLine hcomments
  rw [h.ahead_eq, hfaces.ahead_eq] at hahead
  cases hahead
  exact ⟨c', comments, l', ls', hadvance, hmoves, hcomments, rfl, hfaces⟩

end Runs

end Cursor

end UnitCalc
