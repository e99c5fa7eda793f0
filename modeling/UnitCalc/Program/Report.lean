import UnitCalc.Program.Basic
import UnitCalc.Source.Location

/-! What is shown of a run: the lines echoed and printed, and the reports of errors with the place
in the source where they arose. -/

namespace UnitCalc

/-- The text that an interactive session shows for a line. -/
def Outcome.echo? : Outcome → Option String
  | empty => none
  | value v => some v.text
  | printed e v => some (e.text ++ " = " ++ v.text)

/-- The text of a `print` line, the only output of a program. -/
def Outcome.printed? : Outcome → Option String
  | printed e v => some (e.text ++ " = " ++ v.text)
  | _ => none

/-- A message with the origin of the source, if it has one, and the place in it. -/
def placedMessage (origin : Option String) (place message : String) : String :=
  match origin with
  | some o => o ++ ":" ++ place ++ ": " ++ message
  | none => place ++ ": " ++ message

/-- The report on one error that starts at `offset`; there is none for an offset inside a
character. -/
def reportAt? (source : String) (origin : Option String) (offset : Nat) (message : String) :
    Option String :=
  (Location.ofOffset? source offset).map fun l => placedMessage origin l.text message

/-- The report on a failed program, a line for each error. Parse errors and errors of evaluation
carry offsets, which are looked up in `source`. -/
def ProgramError.report? (source : String) (origin : Option String) :
    ProgramError → Option String
  | parse errors =>
    (errors.mapM fun e => reportAt? source origin e.span.start ("parse error: " ++ e.message)).map
      "\n".intercalate
  | eval line e =>
    if e.span.isNowhere then some (placedMessage origin (toString line) e.message)
    else reportAt? source origin e.span.start e.message

end UnitCalc
