import UnitCalc.Program.Report
import UnitCalc.Shell.Files

/-! Interactive sessions. Each line of input is a command, which begins with a colon, or a line of
a program that runs in the session's state. Results go to the output and errors to the error
stream; neither ends the session. -/

namespace UnitCalc

inductive Emission where
  | out (text : String)
  | err (text : String)
deriving DecidableEq, Repr

/-- A line of output. -/
def Emission.outLine (s : String) : Emission := .out (s ++ "\n")

def Emission.errLine (s : String) : Emission := .err (s ++ "\n")

/-- The report on a failure. An error whose place is not in the source at hand has none. -/
abbrev Failure := Option String

/-- Runs a file's program. -/
def State.load (s : State) (files : Files) (path : String) :
    State × Except Failure (List Outcome) :=
  match files.read path with
  | .error fault => (s, .error (some s!"Failed to read file '{path}': {fault.message}"))
  | .ok source =>
    match s.runProgram source with
    | (s', .ok outcomes) => (s', .ok outcomes)
    | (s', .error e) => (s', .error (e.report? source (some path)))

structure Session where
  state : State
  prelude : List String

namespace Session

/-! ### Commands -/

inductive Command where
  | quit | help | clear | units | vars | fns | reset
  | load (path : String)
  | unknown (name : String)
deriving DecidableEq, Repr

/-- Cuts a text at its first blank. -/
def splitBlank (cs : List Char) : List Char × List Char :=
  (cs.takeWhile (· ≠ ' '), (cs.dropWhile (· ≠ ' ')).drop 1)

def Command.ofName (name : String) (argument : String) : Command :=
  match name.map Char.toLower with
  | "quit" | "q" | "exit" => .quit
  | "help" | "h" | "?" => .help
  | "clear" | "cls" => .clear
  | "units" => .units
  | "vars" => .vars
  | "fns" => .fns
  | "reset" => .reset
  | "load" | "l" => .load argument
  | _ => .unknown name

/-- The command that a line of input gives, if it begins with a colon. -/
def Command.ofInput? (input : List Char) : Option Command :=
  match trimSpace input with
  | ':' :: cs =>
    let (name, argument) := splitBlank (trimSpace (cs.dropWhile (· = ':')))
    some (.ofName (String.ofList name) (String.ofList (trimSpace argument)))
  | _ => none

/-! ### Output -/

def helpText : String :=
  "\n" ++
  "natpl REPL Commands:\n" ++
  "  :help, :h, :?    Show this help message\n" ++
  "  :quit, :q        Exit the REPL\n" ++
  "  :clear, :cls     Clear the screen\n" ++
  "  :units           List declared units\n" ++
  "  :vars            List variables and their values\n" ++
  "  :fns             List functions\n" ++
  "  :reset           Forget everything declared in this session\n" ++
  "  :load <file>     Evaluate a file into the session\n" ++
  "\n" ++
  "Language:\n" ++
  "  unit m           Declare a base unit\n" ++
  "  x = 3 km         Declare a variable (or compare, if x is defined)\n" ++
  "  f(a, b) = a b    Declare a function\n" ++
  "  print x / 2      Show an expression with its value\n" ++
  "  [x]              The unit of x\n" ++
  "  # comment        Ignored to the end of the line\n" ++
  "\n" ++
  "Examples:\n" ++
  "  natpl> unit m\n" ++
  "  natpl> unit s\n" ++
  "  natpl> 100 m / 9.58 s\n" ++
  "  10.438413361169102296450939457202505219206680584551 m s^-1\n"

/-- Moves the cursor home on an empty screen. -/
def clearText : String := "\x1b[2J\x1b[1;1H"

def unitsLines (s : State) : List String :=
  if s.units.names.isEmpty then ["No units declared"] else [" ".intercalate s.units.names]

def varsLines (s : State) : List String :=
  if s.vars.entries.isEmpty then ["No variables defined"]
  else s.vars.entries.map fun (name, v) => name ++ " = " ++ v.text

def fnsLines (s : State) : List String :=
  if s.functions.entries.isEmpty then ["No functions defined"]
  else s.functions.entries.map fun (name, f) => name ++ f.text

/-! ### Steps -/

/-- What a line of input leads to. The program stops with an error it cannot report. -/
inductive Step where
  | next (session : Session) (output : List Emission)
  | quit
  | stop (output : List Emission)

/-- Runs files one after the other, and goes on after one that fails. -/
def loadAll (files : Files) (s : State) : List String → Option (State × List Emission)
  | [] => some (s, [])
  | path :: paths =>
    match s.load files path with
    | (s', .ok _) => loadAll files s' paths
    | (_, .error none) => none
    | (s', .error (some report)) =>
      (loadAll files s' paths).map fun (s'', es) => (s'', .errLine report :: es)

/-- Forgets everything and runs the prelude again, at the same precision. -/
def reset (session : Session) (files : Files) : Step :=
  match loadAll files (.initial session.state.precision) session.prelude with
  | some (s, es) => .next { session with state := s } (es ++ [.outLine "Runtime reset"])
  | none => .stop []

def load (session : Session) (files : Files) (path : String) : Step :=
  if path = "" then .next session [.outLine "Usage: :load <file>"]
  else
    match session.state.load files path with
    | (s, .ok outcomes) =>
      .next { session with state := s } ((outcomes.filterMap Outcome.printed?).map .outLine)
    | (s, .error (some report)) => .next { session with state := s } [.errLine report]
    | (_, .error none) => .stop []

def command (session : Session) (files : Files) : Command → Step
  | .quit => .quit
  | .help => .next session [.outLine helpText]
  | .clear => .next session [.out clearText]
  | .units => .next session ((unitsLines session.state).map .outLine)
  | .vars => .next session ((varsLines session.state).map .outLine)
  | .fns => .next session ((fnsLines session.state).map .outLine)
  | .reset => session.reset files
  | .load path => session.load files path
  | .unknown name => .next session
      [.outLine ("Unknown command: :" ++ name), .outLine "Type :help for available commands"]

/-- Runs a line of a program. -/
def run (session : Session) (input : String) : Step :=
  match session.state.runProgram input with
  | (s, .ok outcomes) =>
    .next { session with state := s } ((outcomes.filterMap Outcome.echo?).map .outLine)
  | (s, .error e) =>
    match e.report? input none with
    | some report => .next { session with state := s } [.errLine report]
    | none => .stop []

def isBlankInput (input : String) : Bool := input.toList.all isSpace

def step (session : Session) (files : Files) (input : String) : Step :=
  if isBlankInput input then .next session []
  else
    match Command.ofInput? input.toList with
    | some c => session.command files c
    | none => session.run input

/-- The files that a line of input may read. -/
def pathsFor (session : Session) (input : String) : List String :=
  match Command.ofInput? input.toList with
  | some (.load path) => [path]
  | some .reset => session.prelude
  | _ => []

end Session

end UnitCalc
