import UnitCalc.Proofs.Excerpts
import UnitCalc.Proofs.RelocatedReaders

/-! What the span of an expression says. A phrase is a phrase on its own tokens alone, whatever
followed it where it was read, and so is each of its parts; its span reaches from the first of these
tokens to the last. The text between the two is scanned into the same tokens, so every node of an
expression that was read from a source is read again, at its own place, from the piece of the source
at its span. -/

namespace UnitCalc

namespace Token

/-- The spans of tokens are not empty and lie one behind the other. -/
structure InOrder (ts : List Token) : Prop where
  nonempty : ∀ t ∈ ts, t.span.start < t.span.stop
  apart : ts.Pairwise fun t u => t.span.stop ≤ u.span.start

theorem Tiles.inOrder {offset : Nat} {cs : List Char} {ts : List Token} (h : Tiles offset cs ts) :
    InOrder ts :=
  ⟨fun t ht => (h.bounds t ht).2.1, h.ordered⟩

theorem InOrder.left {ts us : List Token} (h : InOrder (ts ++ us)) : InOrder ts :=
  ⟨fun t ht => h.nonempty t (List.mem_append_left us ht), (List.pairwise_append.1 h.apart).1⟩

theorem InOrder.right {ts us : List Token} (h : InOrder (ts ++ us)) : InOrder us :=
  ⟨fun t ht => h.nonempty t (List.mem_append_right ts ht), (List.pairwise_append.1 h.apart).2.1⟩

theorem reaches_singleton (t : Token) : Reaches [t] t.span := ⟨rfl, rfl⟩

/-- A span is merged from what comes first and what comes last. -/
theorem Reaches.merge {ts gap us : List Token} {a b : Span} (ha : Reaches ts a)
    (hb : Reaches us b) (h : InOrder (ts ++ gap ++ us)) :
    Reaches (ts ++ gap ++ us) (a.merge b) := by
  obtain ⟨t, ht, hstart⟩ := Option.map_eq_some_iff.1 ha.start
  obtain ⟨t', ht', hstop⟩ := Option.map_eq_some_iff.1 ha.stop
  obtain ⟨u, hu, hstart'⟩ := Option.map_eq_some_iff.1 hb.start
  obtain ⟨u', hu', hstop'⟩ := Option.map_eq_some_iff.1 hb.stop
  have hmem : t ∈ ts ++ gap := List.mem_append_left gap (List.mem_of_head? ht)
  have hmem' : t' ∈ ts ++ gap := List.mem_append_left gap (List.mem_of_getLast? ht')
  have hapart := (List.pairwise_append.1 h.apart).2.2
  have hfirst := hapart t hmem u (List.mem_of_head? hu)
  have hlast := hapart t' hmem' u' (List.mem_of_getLast? hu')
  have hpos := h.nonempty t (List.mem_append_left us hmem)
  have hpos' := h.nonempty u' (List.mem_append_right _ (List.mem_of_getLast? hu'))
  constructor
  · rw [List.append_assoc, List.head?_append, ht, Span.merge, Nat.min_eq_left (by omega), ← hstart]
    rfl
  · rw [List.getLast?_append, hu', Span.merge, Nat.max_eq_right (by omega), ← hstop']
    rfl

end Token

namespace Expr

/-- The expressions that a node is made of, in the order in which they are written. The name of a
call stands before its arguments. -/
def children : Expr → List Expr
  | number _ _ | name _ => []
  | call callee args _ => .name callee :: args
  | signed _ e _ | unitOf e _ | paren e _ => [e]
  | binary _ l r _ => [l, r]

/-- A node of an expression is the expression itself or a node of one of its children. -/
inductive Occurs (e : Expr) : Expr → Prop where
  | self : Occurs e e
  | child {root c : Expr} (hc : c ∈ root.children) (h : Occurs e c) : Occurs e root

end Expr

/-! ### Phrases on their own tokens -/

namespace Grammar

open UnitCalc.Expr Token

/-- Tokens that are a phrase of some level, all of them. -/
def Phrase (ts : List Token) (e : Expr) : Prop := ∃ l, Derives l ts e []

/-- Expressions are phrases of pieces of a list of tokens that lie one behind the other. -/
inductive Pieces : List Token → List Expr → Prop where
  | nil (ts : List Token) : Pieces ts []
  | cons {gap piece ts : List Token} {e : Expr} {es : List Expr} (he : Phrase piece e)
      (hes : Pieces ts es) : Pieces (gap ++ piece ++ ts) (e :: es)

theorem Pieces.append_left {ts : List Token} {es : List Expr} (h : Pieces ts es)
    (us : List Token) : Pieces (us ++ ts) es := by
  cases h with
  | nil => exact .nil _
  | @cons gap _ _ _ _ he hes =>
    rw [← List.append_assoc, ← List.append_assoc]
    exact .cons he hes

theorem Pieces.append_right {ts : List Token} {es : List Expr} (h : Pieces ts es)
    (us : List Token) : Pieces (ts ++ us) es := by
  induction h with
  | nil => exact .nil _
  | cons he _ ih =>
    rw [List.append_assoc]
    exact .cons he ih

theorem Pieces.mem {ts : List Token} {es : List Expr} (h : Pieces ts es) {e : Expr} (he : e ∈ es) :
    ∃ piece, piece <:+: ts ∧ Phrase piece e := by
  induction h with
  | nil => cases he
  | @cons gap piece ts e' es he' _ ih =>
    rcases List.mem_cons.1 he with rfl | he
    · exact ⟨piece, ⟨gap, ts, rfl⟩, he'⟩
    · obtain ⟨piece', hinfix, hphrase⟩ := ih he
      exact ⟨piece', hinfix.trans (List.suffix_append _ ts).isInfix, hphrase⟩

/-- Tokens may stand where others did if they make no call out of a name that was none. -/
def Follows (ts us : List Token) : Prop := ∀ t, OpensCall t ts → OpensCall t us

theorem not_opensCall_nil (t : Token) : ¬ OpensCall t [] := by
  rintro ⟨u, us, heq, -⟩
  cases heq

theorem follows_nil (us : List Token) : Follows [] us :=
  fun t h => absurd h (not_opensCall_nil t)

theorem follows_cons (t : Token) (us vs : List Token) : Follows (t :: us) (t :: vs) := by
  rintro name ⟨u, rest, heq, hu, hadj⟩
  cases heq
  exact ⟨t, vs, rfl, hu, hadj⟩

theorem follows_append {ts : List Token} (hts : ts ≠ []) (us vs : List Token) :
    Follows (ts ++ us) (ts ++ vs) := by
  obtain ⟨t, ts, rfl⟩ := List.exists_cons_of_ne_nil hts
  exact follows_cons t (ts ++ us) (ts ++ vs)

/-- Only an opening parenthesis makes a call. -/
theorem follows_of_ne {t : Token} {k : Token.Kind} (ht : t.kind = k) (hk : k ≠ .openParen)
    (ts us : List Token) : Follows (t :: ts) us := by
  rintro name ⟨u, rest, heq, hu, -⟩
  cases heq
  exact absurd (ht.symm.trans hu) hk

/-- What a phrase takes up: it is a phrase on these tokens with anything behind them that begins no
other call, its children are phrases of pieces of them, and its span reaches over all of them. -/
structure Takes (l : Level) (spent : List Token) (e : Expr) (rest : List Token) : Prop where
  nonempty : spent ≠ []
  derives : ∀ rest', Follows rest' rest → Derives l (spent ++ rest') e rest'
  pieces : Pieces spent e.children
  reaches : InOrder spent → Reaches spent e.span

theorem Takes.phrase {l : Level} {spent rest : List Token} {e : Expr} (h : Takes l spent e rest) :
    Phrase spent e := by
  have hderives := h.derives [] (follows_nil rest)
  rw [List.append_nil] at hderives
  exact ⟨l, hderives⟩

/-- Two operands and what stands between them. -/
theorem Takes.combine {l l' k : Level} {ls gap rs rest : List Token} {lhs rhs : Expr}
    {op : Operator} (hlhs : Takes l ls lhs (gap ++ rs ++ rest)) (hrhs : Takes l' rs rhs rest)
    (hmake : ∀ rest', Derives l (ls ++ (gap ++ rs ++ rest')) lhs (gap ++ rs ++ rest') →
      Derives l' (rs ++ rest') rhs rest' →
      Derives k (ls ++ (gap ++ rs ++ rest')) (combine op lhs rhs) rest') :
    Takes k (ls ++ gap ++ rs) (combine op lhs rhs) rest where
  nonempty := by simp [hlhs.nonempty]
  derives rest' hrest := by
    have hgap : gap ++ rs ≠ [] := by simp [hrhs.nonempty]
    rw [List.append_assoc ls, List.append_assoc ls]
    exact hmake rest' (hlhs.derives _ (follows_append hgap rest' rest)) (hrhs.derives rest' hrest)
  pieces := by
    have hright : Pieces (gap ++ rs ++ []) [rhs] := .cons hrhs.phrase (.nil [])
    have hboth : Pieces ([] ++ ls ++ (gap ++ rs ++ [])) [lhs, rhs] := .cons hlhs.phrase hright
    rwa [List.nil_append, List.append_nil, ← List.append_assoc] at hboth
  reaches h := (hlhs.reaches h.left.left).merge (hrhs.reaches h.right) h

theorem Takes.signed {t : Token} {spent rest : List Token} {sign : Sign} {e : Expr}
    (ht : Sign.ofKind? t.kind = some sign) (h : Takes .signed spent e rest) :
    Takes .signed (t :: spent) (.signed sign e (t.span.merge e.span)) rest where
  nonempty := List.cons_ne_nil t spent
  derives rest' hrest := .sign ht (h.derives rest' hrest)
  pieces := by
    have hpieces : Pieces ([t] ++ spent ++ []) [e] := .cons h.phrase (.nil [])
    rwa [List.append_nil] at hpieces
  reaches horder := by
    have hinner : InOrder spent := (show InOrder ([t] ++ spent) from horder).right
    have hreaches : Reaches ([t] ++ [] ++ spent) (t.span.merge e.span) :=
      (reaches_singleton t).merge (h.reaches hinner) horder
    exact hreaches

theorem Takes.enclosed {t close : Token} {spent rest : List Token} {e : Expr} {kind : Token.Kind}
    {make : Expr → Span → Expr} (ht : Encloses t.kind kind make)
    (h : Takes .comparison spent e (close :: rest)) (hclose : close.kind = kind) :
    Takes .primary ([t] ++ spent ++ [close]) (make e (t.span.merge close.span)) rest where
  nonempty := List.cons_ne_nil t _
  derives rest' _ := by
    have hinner := h.derives (close :: rest') (follows_cons close rest' rest)
    rw [List.append_assoc, List.append_assoc]
    exact Derives.enclosed ht hinner hclose
  pieces := by
    have hpieces : Pieces ([t] ++ spent ++ [close]) [e] := .cons h.phrase (.nil _)
    generalize t.kind = k at ht
    cases ht <;> exact hpieces
  reaches horder := by
    have hreaches := (reaches_singleton t).merge (reaches_singleton close) horder
    generalize t.kind = k at ht
    cases ht <;> exact hreaches

/-- What the arguments of a call take up before the closing parenthesis. -/
structure TakesArguments (spent : List Token) (es : List Expr) (close : Token) : Prop where
  arguments : ∀ rest, Arguments (spent ++ close :: rest) es close rest
  pieces : Pieces spent es

theorem TakesArguments.call {t u close : Token} {spent : List Token} {args : List Expr}
    (ht : t.kind = .identifier) (hu : u.kind = .openParen) (hadj : u.span.start = t.span.stop)
    (h : TakesArguments spent args close) (rest : List Token) :
    Takes .primary ([t] ++ (u :: spent) ++ [close])
      (.call t.ident args (t.span.merge close.span)) rest where
  nonempty := List.cons_ne_nil t _
  derives rest' _ := by
    rw [List.append_assoc, List.append_assoc]
    exact .call ht hu hadj (h.arguments rest')
  pieces := by
    have hname : Phrase [t] (.name t.ident) := ⟨.primary, .name ht (not_opensCall_nil t)⟩
    have hargs := (h.pieces.append_right [close]).append_left [u]
    have hpieces : Pieces ([] ++ [t] ++ ([u] ++ (spent ++ [close]))) (.name t.ident :: args) :=
      .cons hname hargs
    exact hpieces
  reaches horder := (reaches_singleton t).merge (reaches_singleton close) horder

mutual
theorem Derives.takes {l : Level} {ts rest : List Token} {e : Expr} (h : Derives l ts e rest) :
    ∃ spent, ts = spent ++ rest ∧ Takes l spent e rest := by
  match h with
  | .tighter hl h =>
    obtain ⟨spent, hts, htakes⟩ := h.takes
    exact ⟨spent, hts, htakes.nonempty, fun rest' hrest => .tighter hl (htakes.derives rest' hrest),
      htakes.pieces, htakes.reaches⟩
  | .binary (t := t) hl hlhs hop hrhs =>
    obtain ⟨ls, hts, hl'⟩ := hlhs.takes
    obtain ⟨rs, rfl, hr'⟩ := hrhs.takes
    refine ⟨ls ++ [t] ++ rs, by rw [hts, List.append_assoc, List.append_assoc]; rfl, ?_⟩
    exact Takes.combine hl' hr' fun rest' hl'' hr'' => .binary hl hl'' hop hr''
  | .juxtapose hlhs hrhs =>
    obtain ⟨ls, hts, hl'⟩ := hlhs.takes
    obtain ⟨rs, rfl, hr'⟩ := hrhs.takes
    refine ⟨ls ++ [] ++ rs, by rw [hts, List.append_nil, List.append_assoc], ?_⟩
    exact Takes.combine hl' hr' fun rest' hl'' hr'' => .juxtapose hl'' hr''
  | .sign ht h =>
    obtain ⟨spent, rfl, htakes⟩ := h.takes
    exact ⟨_, rfl, htakes.signed ht⟩
  | .raise (t := t) hbase ht hexponent =>
    obtain ⟨ls, hts, hl'⟩ := hbase.takes
    obtain ⟨rs, rfl, hr'⟩ := hexponent.takes
    refine ⟨ls ++ [t] ++ rs, by rw [hts, List.append_assoc, List.append_assoc]; rfl, ?_⟩
    exact Takes.combine hl' hr' fun rest' hl'' hr'' => .raise hl'' ht hr''
  | .number (t := t) ht hd hlimit =>
    exact ⟨[t], rfl, List.cons_ne_nil t [], fun _ _ => .number ht hd hlimit, .nil _,
      fun _ => reaches_singleton t⟩
  | .name (t := t) ht hrest =>
    exact ⟨[t], rfl, List.cons_ne_nil t [], fun _ h => .name ht fun hcall => hrest (h t hcall),
      .nil _, fun _ => reaches_singleton t⟩
  | .call ht hu hadj hargs =>
    obtain ⟨spent, hus, htakes⟩ := hargs.takes
    exact ⟨_, by simp [hus], htakes.call ht hu hadj rest⟩
  | .paren ht h hclose =>
    obtain ⟨spent, rfl, htakes⟩ := h.takes
    exact ⟨_, by simp, htakes.enclosed (encloses_paren ht) hclose⟩
  | .bracket ht h hclose =>
    obtain ⟨spent, rfl, htakes⟩ := h.takes
    exact ⟨_, by simp, htakes.enclosed (encloses_bracket ht) hclose⟩

theorem Arguments.takes {ts rest : List Token} {es : List Expr} {close : Token}
    (h : Arguments ts es close rest) :
    ∃ spent, ts = spent ++ close :: rest ∧ TakesArguments spent es close := by
  match h with
  | .done hclose => exact ⟨[], rfl, fun _ => .done hclose, .nil _⟩
  | .last (e := e) h hclose =>
    obtain ⟨spent, hts, htakes⟩ := h.takes
    have hpieces : Pieces ([] ++ spent ++ []) [e] := .cons htakes.phrase (.nil [])
    rw [List.nil_append, List.append_nil] at hpieces
    refine ⟨spent, hts, fun rest' => ?_, hpieces⟩
    exact .last (htakes.derives (close :: rest') (follows_cons close _ _)) hclose
  | .more h hcomma hmore =>
    obtain ⟨first, hts, htakes⟩ := h.takes
    obtain ⟨spent, rfl, hmore'⟩ := hmore.takes
    rename_i comma _ _
    have hpieces : Pieces ([] ++ first ++ ([comma] ++ spent)) _ :=
      .cons htakes.phrase (hmore'.pieces.append_left [comma])
    refine ⟨_, by simp [hts], fun rest' => ?_, hpieces⟩
    have hfirst := htakes.derives (comma :: (spent ++ close :: rest')) (follows_cons comma _ _)
    rw [List.nil_append, List.append_assoc]
    exact .more hfirst hcomma (hmore'.arguments rest')
end

theorem Phrase.takes {ts : List Token} {e : Expr} (h : Phrase ts e) : ∃ l, Takes l ts e [] := by
  obtain ⟨l, h⟩ := h
  obtain ⟨spent, hts, htakes⟩ := h.takes
  rw [List.append_nil] at hts
  exact ⟨l, hts ▸ htakes⟩

theorem Phrase.reaches {ts : List Token} {e : Expr} (h : Phrase ts e) (hts : InOrder ts) :
    Reaches ts e.span := by
  obtain ⟨l, htakes⟩ := h.takes
  exact htakes.reaches hts

/-- The spans of children run from the start of one token to the end of another, and none reaches
into the next. -/
theorem Pieces.spans {ts : List Token} {es : List Expr} (h : Pieces ts es) (hts : InOrder ts) :
    (∀ e ∈ es, ∃ t ∈ ts, ∃ u ∈ ts, e.span = ⟨t.span.start, u.span.stop⟩) ∧
      es.Pairwise fun a b => a.span.stop ≤ b.span.start := by
  induction h with
  | nil => exact ⟨List.forall_mem_nil _, .nil⟩
  | @cons gap piece ts e es he _ ih =>
    obtain ⟨hspans, hapart⟩ := ih hts.right
    have hreaches := he.reaches hts.left.right
    obtain ⟨t, ht, hstart⟩ := Option.map_eq_some_iff.1 hreaches.start
    obtain ⟨u, hu, hstop⟩ := Option.map_eq_some_iff.1 hreaches.stop
    have hpiece : ∀ v ∈ piece, v ∈ gap ++ piece := fun v hv => List.mem_append_right gap hv
    have hu := hpiece u (List.mem_of_getLast? hu)
    refine ⟨List.forall_mem_cons.2 ⟨?_, fun e' he' => ?_⟩, .cons (fun e' he' => ?_) hapart⟩
    · exact ⟨t, List.mem_append_left ts (hpiece t (List.mem_of_head? ht)), u,
        List.mem_append_left ts hu, by rw [hstart, hstop]⟩
    · obtain ⟨t', ht', u', hu', hspan⟩ := hspans e' he'
      exact ⟨t', List.mem_append_right _ ht', u', List.mem_append_right _ hu', hspan⟩
    · obtain ⟨t', ht', u', hu', hspan⟩ := hspans e' he'
      rw [hspan, ← hstop]
      exact (List.pairwise_append.1 hts.apart).2.2 u hu t' ht'

/-- Every node of a phrase is a phrase of some of its tokens, which stand together. -/
theorem Phrase.occurs {root e : Expr} (he : e.Occurs root) {ts : List Token}
    (h : Phrase ts root) : ∃ mid, mid <:+: ts ∧ Phrase mid e := by
  induction he generalizing ts with
  | self => exact ⟨ts, List.infix_rfl, h⟩
  | child hc _ ih =>
    obtain ⟨l, htakes⟩ := h.takes
    obtain ⟨piece, hpiece, hphrase⟩ := htakes.pieces.mem hc
    obtain ⟨mid, hmid, he⟩ := ih hphrase
    exact ⟨mid, hmid.trans hpiece, he⟩

/-! ### Phrases and their text -/

/-- A text whose tokens are a phrase is read as that phrase, moved to where the text starts. -/
theorem Phrase.ofString {k : Nat} {text : List Char} {ts : List Token} {e : Expr}
    (h : Phrase ts e) (htext : Token.content k text = ts) :
    ∃ e', Expr.ofString (String.ofList text) = .ok e' ∧ e'.relocate (Span.shift k) = e := by
  obtain ⟨l, h⟩ := h
  have hderives : Derives .comparison ((Token.content 0 text).map (Token.relocate (Span.shift k))) e
      [] := by
    rw [← Token.content_shift, htext]
    exact h.loosen (Nat.zero_le _)
  obtain ⟨e', he', rfl⟩ := (derives_relocate (moves_shift k _)).1 hderives
  exact ⟨e', ofString_eq_ok_iff.2 (by rwa [String.toList_ofList]), rfl⟩

theorem Phrase.inPhrases {ts : List Token} {e : Expr} (h : Phrase ts e) :
    ∀ t ∈ ts, inPhrases t.kind = true := by
  obtain ⟨l, h⟩ := h
  exact h.inPhrases

/-- Tokens of phrases are all that a text has, if they are all of its lexemes. -/
theorem content_of_tiles {k : Nat} {text : List Char} {ts : List Token} (h : Tiles k text ts)
    (hts : ∀ t ∈ ts, inPhrases t.kind = true) : Token.content k text = ts := by
  rw [Token.content, h.lexemes_eq]
  refine List.filter_eq_self.2 fun t ht => ?_
  have hkind := hts t ht
  revert hkind
  cases t.kind <;> decide

/-- What the span of a node says of a source. It is that of a non-empty piece of the source, the
spans of the children lie in it one behind the other, and the piece alone is read as the node, moved
to where the piece starts. -/
structure Faithful (cs : List Char) (e : Expr) : Prop where
  excerpt : ∃ before text after, cs = before ++ text ++ after ∧ text ≠ [] ∧
    e.span = ⟨byteLength before, byteLength before + byteLength text⟩ ∧
    ∃ e', Expr.ofString (String.ofList text) = .ok e' ∧ e'.relocate (Span.shift e.span.start) = e
  contains : ∀ c ∈ e.children, e.span.start ≤ c.span.start ∧ c.span.stop ≤ e.span.stop
  apart : e.children.Pairwise fun a b => a.span.stop ≤ b.span.start

/-- A phrase on all tokens of a text is faithful to every source that holds the text. -/
theorem Phrase.faithful {before text after : List Char} {ts : List Token} {e : Expr}
    (h : Phrase ts e) (htext : Tiles (byteLength before) text ts)
    (hspan : Reaches ts ⟨byteLength before, byteLength before + byteLength text⟩) :
    Faithful (before ++ text ++ after) e := by
  obtain ⟨l, htakes⟩ := h.takes
  have hspan := (h.reaches htext.inOrder).unique hspan
  obtain ⟨hspans, hapart⟩ := htakes.pieces.spans htext.inOrder
  refine ⟨⟨before, text, after, rfl, ?_, hspan, ?_⟩, fun c hc => ?_, hapart⟩
  · rintro rfl
    cases htext
    exact htakes.nonempty rfl
  · rw [hspan]
    exact h.ofString (content_of_tiles htext h.inPhrases)
  · obtain ⟨t, ht, u, hu, hchild⟩ := hspans c hc
    rw [hspan, hchild]
    exact ⟨(htext.bounds t ht).1, (htext.bounds u hu).2.2⟩

/-- Every node of a phrase on all tokens of a line is faithful to the source. -/
theorem Phrase.faithful_of_occurs {before xs after : List Char} (hxs : '\n' ∉ xs) {root e : Expr}
    (h : Phrase (Token.content (byteLength before) xs) root) (he : e.Occurs root) :
    Faithful (before ++ xs ++ after) e := by
  obtain ⟨mid, ⟨us, vs, hmid⟩, hphrase⟩ := h.occurs he
  obtain ⟨l, htakes⟩ := hphrase.takes
  obtain ⟨comments, htiles, -⟩ := tiles_content (byteLength before) hxs
  have hstray : ∀ t ∈ Token.content (byteLength before) xs, t.kind ≠ .stray := by
    intro t ht hkind
    have hinPhrases := h.inPhrases t ht
    rw [hkind] at hinPhrases
    cases hinPhrases
  have hnames : ∀ t ∈ mid, t.kind = .identifier → IsName t.lexeme.toList := by
    intro t ht
    refine isName_of_mem hstray ?_
    rw [← hmid]
    simp [ht]
  rw [← hmid, List.append_assoc _ vs] at htiles
  obtain ⟨ys, text, zs, rfl, htext, hreaches⟩ := htiles.excerpt htakes.nonempty hnames
  rw [← byteLength_append] at htext hreaches
  have hfaithful : Faithful (before ++ ys ++ text ++ (zs ++ after)) e :=
    hphrase.faithful htext hreaches
  simpa only [List.append_assoc] using hfaithful

end Grammar

/-! ### Programs -/

/-- The expressions that a line holds. -/
def Line.exprs : Line → List Expr
  | .blank | .unit _ _ => []
  | .binding b => [b.rhs]
  | .print e _ | .expr e => [e]

open Grammar

/-- The expression of a line is a phrase on the last of its tokens. -/
theorem Line.phrase_of_parseTokens {l : TokenLine} {line : Line} (h : parseTokens l = .ok line)
    {e : Expr} (he : e ∈ line.exprs) : ∃ heads ts, l.tokens = heads ++ ts ∧ Phrase ts e := by
  cases reads_of_parseTokens h with
  | blank | unit => cases he
  | @print t ts e' htokens _ hphrase =>
    cases List.mem_singleton.1 he
    exact ⟨[t], ts, htokens, .comparison, hphrase⟩
  | @binding name params rest e' hhead hphrase =>
    cases List.mem_singleton.1 he
    obtain ⟨heads, hheads⟩ := bindingHead?_suffix hhead
    exact ⟨heads, rest, hheads.symm, .comparison, hphrase⟩
  | expr hphrase =>
    cases List.mem_singleton.1 he
    exact ⟨[], l.tokens, rfl, .comparison, hphrase⟩

/-- Spans are faithful: the span of every node of every expression in a program is that of a piece
of the source which alone is read as the node, and it holds the spans of the node's children in
their order. -/
theorem parseProgram_faithful {source : String} {lines : List Line}
    (h : parseProgram source = .ok lines) {line : Line} (hline : line ∈ lines) {root e : Expr}
    (hroot : root ∈ line.exprs) (he : e.Occurs root) : Faithful source.toList e := by
  obtain ⟨tl, htl, hparse⟩ := parseProgram_eq_ok h line hline
  have hmem := TokenLine.mem_ofSource htl
  rw [TokenLine.ofSource_eq] at hmem
  obtain ⟨before, xs, after, hsource, hxs, htokens, -⟩ := TokenLine.exists_content hmem
  obtain ⟨heads, ts, hts, hphrase⟩ := Line.phrase_of_parseTokens hparse hroot
  rw [Nat.zero_add, hts] at htokens
  obtain ⟨l, htakes⟩ := hphrase.takes
  obtain ⟨start, rest, rfl, hrest⟩ := Token.content_drop hxs htokens.symm htakes.nonempty
  rw [← hrest, ← byteLength_append] at hphrase
  have hunbroken : '\n' ∉ rest := fun hnewline => hxs (List.mem_append_right start hnewline)
  have hfaithful : Faithful (before ++ start ++ rest ++ after) e :=
    hphrase.faithful_of_occurs hunbroken he
  rwa [hsource, ← List.append_assoc]

/-- The right side of the line `a = -b`. -/
def negation : Expr := .signed .minus (.name ⟨"b", ⟨5, 6⟩⟩) ⟨4, 6⟩

theorem parseProgram_negation :
    parseProgram "a = -b" = .ok [.binding ⟨⟨"a", ⟨0, 1⟩⟩, none, negation, ⟨0, 6⟩⟩] := by
  have hname : Derives .signed [⟨.identifier, "b", ⟨5, 6⟩⟩] (.name ⟨"b", ⟨5, 6⟩⟩) [] :=
    Derives.loosen (.name rfl (not_opensCall_nil _)) (by decide)
  have hphrase : Derives .comparison [⟨.minus, "-", ⟨4, 5⟩⟩, ⟨.identifier, "b", ⟨5, 6⟩⟩] negation
      [] :=
    Derives.loosen (.sign rfl hname) (by decide)
  have hlines : TokenLine.ofProgram "a = -b" =
      [⟨[⟨.identifier, "a", ⟨0, 1⟩⟩, ⟨.equal, "=", ⟨2, 3⟩⟩, ⟨.minus, "-", ⟨4, 5⟩⟩,
        ⟨.identifier, "b", ⟨5, 6⟩⟩], ⟨.endOfInput, "", ⟨6, 6⟩⟩⟩] := by
    decide
  rw [parseProgram_eq_collect, hlines, List.map_singleton, Line.parseTokens_binding rfl rfl hphrase]
  rfl

theorem parseProgram_faithful_negation :
    Faithful "a = -b".toList negation ∧ Faithful "a = -b".toList (.name ⟨"b", ⟨5, 6⟩⟩) := by
  have hroot : negation ∈ (Line.binding ⟨⟨"a", ⟨0, 1⟩⟩, none, negation, ⟨0, 6⟩⟩).exprs :=
    List.mem_cons_self
  have hchild : Expr.Occurs (.name ⟨"b", ⟨5, 6⟩⟩) negation := .child List.mem_cons_self .self
  constructor
  · exact parseProgram_faithful parseProgram_negation List.mem_cons_self hroot .self
  · exact parseProgram_faithful parseProgram_negation List.mem_cons_self hroot hchild

end UnitCalc
