import UnitCalc.Settings.Toml
import UnitCalc.Shell.CommandLine
import UnitCalc.Shell.Input
import UnitCalc.Shell.Session

/-! One execution of the program: from its arguments, its files and its standard input to what it
writes, its exit status, and the history it saves. -/

namespace UnitCalc

def version : String := "0.1.0"

/-- Where settings and history are kept unless the user says otherwise. -/
structure Places where
  settings : String
  history : String

/-- What an execution comes to. -/
structure Execution where
  status : Nat
  output : List Emission
  /-- The file to which the history of the session is saved, if it is. -/
  savedHistory : Option String := none

namespace Execution

/-- Every line set off by four blanks. -/
def indent (text : String) : String :=
  "\n".intercalate ((pieces '\n' text.toList).map fun line => "    " ++ String.ofList line)

def failure (message : String) : Execution := ⟨1, [.err ("Error: " ++ message ++ "\n")], none⟩

def failureFrom (context cause : String) : Execution :=
  failure (context ++ "\n\nCaused by:\n" ++ indent cause)

/-- The end of a program that cannot report its error. -/
def stopped (output : List Emission) : Execution := ⟨101, output, none⟩

/-! ### Preparation -/

/-- The settings at a path. -/
def readSettings (files : Files) (path : String) : Except Execution Settings :=
  match files.read path with
  | .error fault => .error (failureFrom s!"Failed to read config file '{path}'" fault.message)
  | .ok text =>
    match Settings.ofToml? text with
    | some settings => .ok settings
    | none => .error (failure s!"Invalid config file '{path}'")

/-- The settings of an execution: those at the path given with the options, which must exist, or
those at the standard place, if there are any. The options' precision comes first. -/
def settings (files : Files) (places : Places) (options : Options) : Except Execution Settings := do
  let settings ← match options.config with
    | some path => readSettings files path
    | none =>
      if files.isFile places.settings then readSettings files places.settings
      else .ok {}
  .ok { settings with precision := options.precision.getD settings.precision }

/-- Runs the prelude; a failure there is the failure of the whole execution. -/
def runPrelude (files : Files) (s : State) : List String → Except Execution State
  | [] => .ok s
  | path :: paths =>
    match s.load files path with
    | (s', .ok _) => runPrelude files s' paths
    | (_, .error (some report)) => .error (failureFrom "Failed to load prelude" report)
    | (_, .error none) => .error (stopped [])

def prepare (files : Files) (settings : Settings) : Except Execution State :=
  runPrelude files (.initial settings.precision) settings.prelude

/-! ### Commands -/

def ofFailure : Failure → Execution
  | some report => failure report
  | none => stopped []

def printedLines (outcomes : List Outcome) : List Emission :=
  (outcomes.filterMap Outcome.printed?).map .outLine

def runFile (files : Files) (s : State) (path : String) : Execution :=
  match (s.load files path).2 with
  | .ok outcomes => ⟨0, printedLines outcomes, none⟩
  | .error e => ofFailure e

/-- The value of the last line, if it gives one that is not printed anyway. -/
def lastValue : List Outcome → List Emission
  | [] => []
  | [.value v] => [.outLine v.text]
  | _ :: os => lastValue os

def evalLines (s : State) (lines : List String) : Execution :=
  let source := "\n".intercalate lines
  match (s.runProgram source).2 with
  | .ok outcomes => ⟨0, printedLines outcomes ++ lastValue outcomes, none⟩
  | .error e => ofFailure (e.report? source none)

/-! ### Interactive sessions -/

def greeting : String :=
  s!"natpl v{version}\n" ++ "Type :help for help, :quit to exit\n" ++ "\n"

def prompt : String := "natpl> "

def farewell : String := "Goodbye!"

/-- Goes through lines of input. The prompt stands before each line that is asked for, and a line
that cannot be read stops the program. The flag says whether it came to its regular end. -/
def interact (files : Files) (session : Session) : List (Option String) → List Emission × Bool
  | [] => ([.out prompt, .outLine farewell], true)
  | none :: _ => ([.out prompt], false)
  | some line :: lines =>
    match session.step files line with
    | .quit => ([.out prompt], true)
    | .stop output => (.out prompt :: output, false)
    | .next session' output =>
      let (rest, ended) := interact files session' lines
      (.out prompt :: output ++ rest, ended)

/-- The lines that are kept in the history, of those read before the session ends. -/
def historyLines (lines : List String) : List String :=
  let isQuit (line : String) : Bool := Session.Command.ofInput? line.toList = some .quit
  let read := lines.takeWhile (!isQuit ·) ++ (lines.dropWhile (!isQuit ·)).take 1
  read.filter (!Session.isBlankInput ·)

/-- The warning that the history cannot be saved, in the colours of a log. -/
def historyWarning (path : String) (fault : FileFault) : Emission :=
  .errLine ("\x1b[33m WARN\x1b[0m \x1b[2mnatpl::repl\x1b[0m\x1b[2m:\x1b[0m " ++
    "failed to save history: " ++ fault.message ++ " \x1b[3mpath\x1b[0m\x1b[2m=\x1b[0m" ++ path)

/-- Saves the history, unless it is empty or turned off: where to, and what is said about it. -/
def saveHistory (files : Files) (places : Places) (settings : Settings) (history : List String) :
    Option String × List Emission :=
  match if history.isEmpty then none else settings.historyPath? places.history with
  | none => (none, [])
  | some path =>
    match files.writeFault? path with
    | none => (some path, [])
    | some fault => (none, [historyWarning path fault])

def repl (files : Files) (places : Places) (settings : Settings) (s : State) (input : String) :
    Execution :=
  let lines := Input.lines input
  let (output, ended) := interact files ⟨s, settings.prelude⟩ lines
  let output := .out greeting :: output
  if ended then
    let (saved, warnings) := saveHistory files places settings (historyLines (lines.filterMap id))
    ⟨0, output ++ warnings, saved⟩
  else stopped output

/-! ### The program -/

def invoke (files : Files) (places : Places) (command : Command) (options : Options)
    (input : String) : Except Execution Execution := do
  let settings ← settings files places options
  let s ← prepare files settings
  match command with
  | .run file => .ok (runFile files s file)
  | .eval lines => .ok (evalLines s lines)
  | .repl => .ok (repl files places settings s input)

/-- The exit status of a command line that is not well formed. -/
def usageStatus : Nat := 2

def ofArguments (files : Files) (places : Places) (args : List String) (input : String) :
    Execution :=
  match CommandLine.parse? args with
  | none => ⟨usageStatus, [], none⟩
  | some .version => ⟨0, [.outLine s!"natpl {version}"], none⟩
  | some (.invoke command options) =>
    match invoke files places command options input with
    | .ok e | .error e => e

/-- All that goes to the standard output. -/
def stdout (e : Execution) : String :=
  String.join (e.output.filterMap fun | .out s => some s | .err _ => none)

/-- All that goes to the error stream. -/
def stderr (e : Execution) : String :=
  String.join (e.output.filterMap fun | .err s => some s | .out _ => none)

end Execution

end UnitCalc
