import UnitCalc.Shell.Execution

/-! The program: reads files, the environment and the standard input, and leaves every decision to
the shell. -/

namespace UnitCalc.Main

/-- The fault behind a failed read. A system code may come with either sign. -/
def fault : IO.Error → FileFault
  | .noFileOrDirectory .. => .missing
  | .permissionDenied .. => .permissionDenied
  | .inappropriateType _ code _ => if code = 20 || code = -20 then .notDirectory else .isDirectory
  | .invalidArgument _ _ _ => .nameTooLong
  | _ => .notText

def readPath (path : String) : IO (Except FileFault String) := do
  if let some e := pathFault? path then return .error e
  try
    let text ← IO.FS.readFile path
    return .ok text
  catch e => return .error (fault e)

/-- The files at some paths as they are now; other paths count as missing. -/
def snapshot (paths : List String) : IO Files := do
  let contents ← paths.mapM fun path => return (path, ← readPath path)
  return ⟨fun path => (contents.lookup path).getD (.error .missing), fun _ => none⟩

/-- No files, for requests that read none. -/
def noFiles : Files := ⟨fun _ => .error .missing, fun _ => none⟩

def emit : Emission → IO Unit
  | .out s => do
    let stdout ← IO.getStdout
    stdout.putStr s
    stdout.flush
  | .err s => do
    let stderr ← IO.getStderr
    stderr.putStr s

def finish (e : Execution) : IO UInt32 := do
  e.output.forM emit
  return e.status.toUInt32

def places : IO Places := do
  let home := (← IO.getEnv "HOME").getD "."
  let config := (← IO.getEnv "XDG_CONFIG_HOME").getD (home ++ "/.config")
  return ⟨config ++ "/natpl/config.toml", home ++ "/.natpl_history"⟩

/-- Adds lines to the history at a path. -/
def saveHistory (path : String) (lines : List String) : IO Unit := do
  if let some e := pathFault? path then
    emit (Execution.historyWarning path e)
    return
  let before := match ← readPath path with
    | .ok text => text
    | .error _ => ""
  try IO.FS.writeFile path (before ++ String.join (lines.map (· ++ "\n")))
  catch e => emit (Execution.historyWarning path (fault e))

/-- Reads and runs lines until the session ends, and gives the lines read, the last one first. -/
partial def interact (session : Session) (lines : List String) : IO (UInt32 × List String) := do
  emit (.out Execution.prompt)
  let text ← (← IO.getStdin).getLine
  match Input.lines text with
  | [] =>
    emit (.outLine Execution.farewell)
    return (0, lines)
  | none :: _ => return (101, lines)
  | some line :: _ =>
    let lines := line :: lines
    match session.step (← snapshot (session.pathsFor line)) line with
    | .quit => return (0, lines)
    | .stop output =>
      output.forM emit
      return (101, lines)
    | .next session output =>
      output.forM emit
      interact session lines

def repl (places : Places) (settings : Settings) (s : State) : IO UInt32 := do
  emit (.out Execution.greeting)
  let (status, lines) ← interact ⟨s, settings.prelude⟩ []
  let kept := Execution.historyLines lines.reverse
  if status = 0 && !kept.isEmpty then
    if let some path := settings.historyPath? places.history then saveHistory path kept
  return status

def invoke (command : Command) (options : Options) : IO UInt32 := do
  let places ← places
  let files ← snapshot (options.config.toList ++ [places.settings])
  match Execution.settings files places options with
  | .error e => finish e
  | .ok settings =>
    match Execution.prepare (← snapshot settings.prelude) settings with
    | .error e => finish e
    | .ok s =>
      match command with
      | .run file => finish (Execution.runFile (← snapshot [file]) s file)
      | .eval lines => finish (Execution.evalLines s lines)
      | .repl => repl places settings s

end UnitCalc.Main

open UnitCalc in
def main (args : List String) : IO UInt32 := do
  match CommandLine.parse? args with
  | some (.invoke command options) => Main.invoke command options
  | _ => Main.finish (Execution.ofArguments Main.noFiles ⟨"", ""⟩ args "")
