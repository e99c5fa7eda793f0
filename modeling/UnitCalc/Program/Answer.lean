import UnitCalc.Program.Basic

/-! The answer of a program: the value of its last line, when it runs from the initial state. -/

namespace UnitCalc

/-- Why a program has no answer of the kind asked for. -/
inductive NoAnswer where
  | failed (error : ProgramError)
  | noValue
  | notANumber (v : Value)
  | notABoolean (v : Value)
  | noError (v : Value)

def NoAnswer.message : NoAnswer → String
  | failed (.parse errors) => "Parse error: " ++ "; ".intercalate (errors.map (·.message))
  | failed e => "Runtime error: " ++ e.message
  | noValue => "Last line produced no value"
  | notANumber v => "Expected number, got " ++ v.kind.typeName
  | notABoolean v => "Expected boolean, got " ++ v.kind.typeName
  | noError v => "Expected an error, got " ++ v.text

def Outcome.value? : Outcome → Option Value
  | empty => none
  | value v | printed _ v => some v

/-- The value of the last line. -/
def answer (source : String) : Except NoAnswer Value :=
  match ((State.initial State.defaultPrecision).runProgram source).2 with
  | .error e => .error (.failed e)
  | .ok outcomes =>
    match outcomes.getLast?.bind Outcome.value? with
    | some v => .ok v
    | none => .error .noValue

def answerText (source : String) : Except NoAnswer String := do
  let v ← answer source
  .ok v.text

def answerNumber (source : String) : Except NoAnswer Decimal := do
  let v ← answer source
  match v.kind with
  | .number n => .ok n
  | _ => .error (.notANumber v)

def answerBool (source : String) : Except NoAnswer Bool := do
  let v ← answer source
  match v.kind with
  | .bool b => .ok b
  | _ => .error (.notABoolean v)

/-- The message of a program that is meant to fail. -/
def answerError (source : String) : Except NoAnswer String :=
  match answer source with
  | .ok v => .error (.noError v)
  | .error e => .ok e.message

end UnitCalc
