import UnitCalc.Unicode.GraphemeBreak

/-! Graphemes: the pieces of a text that a reader takes for one character, such as a letter with
its accents, a flag, or an emoji put together from several. They are the extended grapheme
clusters of Unicode. Whether a grapheme ends between two characters hangs on their classes and on
three facts about the text before them, which are kept while the text is read. -/

namespace UnitCalc.Unicode

/-- How far the text so far has come with a pictograph that a joiner ties to the next one. -/
inductive PictographRun where
  | none
  /-- A pictograph and what extends it. -/
  | started
  /-- The same with a joiner behind. -/
  | joined
deriving DecidableEq, Repr

/-- How far the text so far has come with a conjunct. -/
inductive ConjunctRun where
  | none
  /-- A consonant and what extends it. -/
  | started
  /-- The same with a linker in it. -/
  | linked
deriving DecidableEq, Repr

/-- What matters of a text when a character follows it. -/
structure GraphemeContext where
  last : GraphemeClass
  /-- The text ends with an odd number of letters of flags. -/
  halfFlag : Bool
  pictograph : PictographRun
  conjunct : ConjunctRun
deriving DecidableEq, Repr

/-- Lets a character follow. -/
def PictographRun.next (r : PictographRun) (c : GraphemeClass) : PictographRun :=
  if c = .pictograph then .started
  else if r = .started && c.isExtending then .started
  else if r = .started && c = .joiner then .joined
  else .none

/-- Lets a character follow. -/
def ConjunctRun.next (r : ConjunctRun) : GraphemeClass → ConjunctRun
  | .consonant => .started
  | .linker => if r = .none then .none else .linked
  | .extend | .joiner => r
  | _ => .none

namespace GraphemeContext

/-- Before any text, where no character joins. -/
def start : GraphemeContext := ⟨.control, false, .none, .none⟩

/-- Lets a character follow. -/
def next (ctx : GraphemeContext) (c : GraphemeClass) : GraphemeContext :=
  ⟨c, c = .regional && !ctx.halfFlag, ctx.pictograph.next c, ctx.conjunct.next c⟩

/-- Parts of one Hangul syllable stand side by side. -/
def joinsSyllable : GraphemeClass → GraphemeClass → Bool
  | .hangulL, .hangulL | .hangulL, .hangulV | .hangulL, .hangulLV | .hangulL, .hangulLVT => true
  | .hangulLV, .hangulV | .hangulLV, .hangulT | .hangulV, .hangulV | .hangulV, .hangulT => true
  | .hangulLVT, .hangulT | .hangulT, .hangulT => true
  | _, _ => false

/-- A character of the class `c` goes on with the grapheme that ends the text. -/
def joins (ctx : GraphemeContext) (c : GraphemeClass) : Bool :=
  if ctx.last = .carriageReturn && c = .lineFeed then true
  else if ctx.last.isControl || c.isControl then false
  else
    joinsSyllable ctx.last c || c.isExtending || c = .joiner || c = .spacingMark ||
      ctx.last = .prepend || (c = .consonant && ctx.conjunct = .linked) ||
      (c = .pictograph && ctx.pictograph = .joined) || (c = .regional && ctx.halfFlag)

end GraphemeContext

/-- Cuts a text after `ctx` into the characters that go on with the grapheme before it, and the
graphemes that follow. -/
def cutGraphemes (ctx : GraphemeContext) : List Char → List Char × List (List Char)
  | [] => ([], [])
  | c :: cs =>
    let cls := GraphemeClass.ofChar c
    let (head, rest) := cutGraphemes (ctx.next cls) cs
    if ctx.joins cls then (c :: head, rest) else ([], (c :: head) :: rest)

/-- The graphemes of a text. -/
def graphemes (text : List Char) : List (List Char) := (cutGraphemes .start text).2

end UnitCalc.Unicode
