import UnitCalc.Line.Parser
import UnitCalc.State.Run

/-! Running whole programs. Nothing runs unless every line can be read; the run stops at the first
line that fails, and keeps what the lines before it declared. -/

namespace UnitCalc

inductive ProgramError where
  | parse (errors : List ParseError)
  | eval (line : Nat) (error : EvalError)
deriving DecidableEq

def ProgramError.message : ProgramError → String
  | parse errors => s!"{errors.length} parse error(s)"
  | eval line error => s!"line {line}: " ++ error.message

namespace State

/-- Runs lines, of which the first is number `line`, with the state reached. -/
def runLines (s : State) (line : Nat) : List Line → State × Except ProgramError (List Outcome)
  | [] => (s, .ok [])
  | l :: ls =>
    match s.runLine l with
    | .error e => (s, .error (.eval line e))
    | .ok (s', o) =>
      let (s'', r) := s'.runLines (line + 1) ls
      (s'', r.map (o :: ·))

def runProgram (s : State) (source : String) : State × Except ProgramError (List Outcome) :=
  match parseProgram source with
  | .error es => (s, .error (.parse es))
  | .ok lines => s.runLines 1 lines

end State

end UnitCalc
