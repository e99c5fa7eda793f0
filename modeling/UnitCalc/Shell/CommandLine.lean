import UnitCalc.Decimal.Digits

/-! The command line. The options `--precision N`, `--config PATH` and `-v` or `--verbose` may
stand before and after the command, each of them once on either side, and the later side wins.
Before the command, `-V` or `--version` asks for the version and ends the reading. In `eval` the
first word that is no option begins the program, and from there on every word is a line of it. -/

namespace UnitCalc

inductive Command where
  | repl
  | run (file : String)
  | eval (lines : List String)
deriving DecidableEq, Repr

structure Options where
  precision : Option Nat := none
  config : Option String := none
  verbose : Bool := false
deriving DecidableEq, Repr

/-- What a command line asks for. -/
inductive Request where
  | version
  | invoke (command : Command) (options : Options)
deriving DecidableEq, Repr

namespace Options

/-- The options on both sides of the command; those after it win. -/
def override (before after : Options) : Options :=
  { precision := after.precision.or before.precision
    config := after.config.or before.config
    verbose := before.verbose || after.verbose }

def precision? (value : String) : Option Nat :=
  let ds := match value.toList with
    | '+' :: ds => ds
    | ds => ds
  if ds ≠ [] && ds.all Char.isDigit then
    let n := Digits.toNat ds
    if n ≤ 18446744073709551615 then some n else none
  else none

def setPrecision? (o : Options) (value : String) : Option Options :=
  if o.precision.isSome then none
  else (precision? value).map fun n => { o with precision := some n }

def setConfig? (o : Options) (value : String) : Option Options :=
  if o.config.isSome || value = "" then none else some { o with config := some value }

def setVerbose? (o : Options) : Option Options :=
  if o.verbose then none else some { o with verbose := true }

end Options

namespace CommandLine

/-- Looks like an option; a single hyphen does not. -/
def isHyphenated (word : String) : Bool := word.startsWith "-" && word ≠ "-"

/-- The outcome of looking for an option at the head of a list of words. -/
inductive Found where
  /-- An option, the options with it set, and whether it took the next word as its value. -/
  | option (options : Options) (takesNext : Bool)
  | malformed
  | notAnOption

def withoutNext : Option Options → Found
  | some o => .option o false
  | none => .malformed

/-- The value of an option in the word that follows it, if the word may be a value. -/
def withNext (isValue : String → Bool) (rest : List String) (set : String → Option Options) :
    Found :=
  match rest with
  | [] => .malformed
  | value :: _ =>
    match if isValue value then set value else none with
    | some o => .option o true
    | none => .malformed

/-- The text after `--name=`. -/
def inlineValue? (name word : String) : Option String :=
  let head := (name ++ "=").toList
  if head.isPrefixOf word.toList then some (String.ofList (word.toList.drop head.length)) else none

/-- A hyphen and then the letters of flags, `v` for more talk and `h` for help. -/
def isFlags (word : String) : Bool :=
  match word.toList with
  | '-' :: c :: cs => (c :: cs).all fun c => c = 'v' || c = 'h'
  | _ => false

/-- The long form of asking for help, with a value or without one. -/
def isLongHelp (word : String) : Bool :=
  word = "--help" || (inlineValue? "--help" word).isSome

/-- Recognises an option. Asking for help is answered with the usage, as a malformed line is. -/
def findOption (isValue : String → Bool) (o : Options) (word : String) (rest : List String) :
    Found :=
  if word = "-v" || word = "--verbose" then withoutNext o.setVerbose?
  else if word = "--precision" then withNext isValue rest o.setPrecision?
  else if word = "--config" then withNext isValue rest o.setConfig?
  else if isFlags word || isLongHelp word || (inlineValue? "--verbose" word).isSome then .malformed
  else
    match inlineValue? "--precision" word, inlineValue? "--config" word with
    | some value, _ => withoutNext (o.setPrecision? value)
    | none, some value => withoutNext (o.setConfig? value)
    | none, none => .notAnOption

/-- Where no plain word may begin with a hyphen, no value may either. -/
def isPlainValue (word : String) : Bool := !isHyphenated word

/-- In `eval` a value may begin with a hyphen, unless it is an option or `--`. -/
def isLineValue (word : String) : Bool :=
  word ≠ "--" &&
    match findOption isPlainValue {} word [] with
    | .notAnOption => true
    | _ => false

/-- Reads a list of words with at most `positional` plain words among the options; after `--` all
words are plain. -/
def plainWords (o : Options) (positional : Nat) (skip : Bool) : List String →
    Option (Options × List String)
  | [] => some (o, [])
  | word :: rest =>
    if skip then plainWords o positional false rest
    else if word = "--" then
      if rest.length ≤ positional then some (o, rest) else none
    else
      match findOption isPlainValue o word rest with
      | .option o' takesNext => plainWords o' positional takesNext rest
      | .malformed => none
      | .notAnOption =>
        if isHyphenated word || positional = 0 then none
        else (plainWords o (positional - 1) false rest).map fun (o, ws) => (o, word :: ws)

/-- The lines of `eval`: all words from the first one that is no option. -/
def evalLines (o : Options) (skip : Bool) : List String → Option (Options × List String)
  | [] => none
  | word :: rest =>
    if skip then evalLines o false rest
    else if word = "--" then
      if rest = [] then none else some (o, rest)
    else
      match findOption isLineValue o word rest with
      | .option o' takesNext => evalLines o' takesNext rest
      | .malformed => none
      | .notAnOption => some (o, word :: rest)

/-- The command that a word names, with the words after it. -/
def command? (word : String) (rest : List String) : Option (Options × Command) :=
  match word with
  | "repl" => do
    let (o, _) ← plainWords {} 0 false rest
    some (o, .repl)
  | "run" =>
    match plainWords {} 1 false rest with
    | some (o, [file]) => if file = "" then none else some (o, .run file)
    | _ => none
  | "eval" => do
    let (o, lines) ← evalLines {} false rest
    some (o, .eval lines)
  | _ => none

/-- What a word of short flags comes to. -/
inductive Flags where
  | set (options : Options)
  | version
  | malformed

/-- Takes short flags in turn, up to the one that asks for the version. -/
def flags (o : Options) : List Char → Flags
  | [] => .set o
  | 'V' :: _ => .version
  | 'v' :: cs =>
    match o.setVerbose? with
    | some o' => flags o' cs
    | none => .malformed
  | _ :: _ => .malformed

/-- The letters of a word of short flags. -/
def flagLetters? (word : String) : Option (List Char) :=
  match word.toList with
  | '-' :: c :: cs => if c = '-' then none else some (c :: cs)
  | _ => none

/-- Reads the words before and from the command on. -/
def request? (o : Options) (skip : Bool) : List String → Option Request
  | [] => some (.invoke .repl o)
  | word :: rest =>
    if skip then request? o false rest
    else if word = "--version" then some .version
    else if word = "--" then
      if rest = [] then some (.invoke .repl o) else none
    else
      match flagLetters? word with
      | some letters =>
        match flags o letters with
        | .set o' => request? o' false rest
        | .version => some .version
        | .malformed => none
      | none =>
        match findOption isPlainValue o word rest with
        | .option o' takesNext => request? o' takesNext rest
        | .malformed => none
        | .notAnOption => do
          let (after, command) ← command? word rest
          some (.invoke command (o.override after))

/-- What the arguments of the program ask for, if they are well formed. -/
def parse? (args : List String) : Option Request := request? {} false args

end CommandLine

end UnitCalc
