import UnitCalc.State.Basic

/-! User settings. -/

namespace UnitCalc

structure Settings where
  /-- The digits that a quotient keeps, before clamping. -/
  precision : Nat := State.defaultPrecision
  /-- Whether the interactive session keeps a history of its input. -/
  history : Bool := true
  historyFile : Option String := none
  /-- Programs that run before anything else. -/
  prelude : List String := []
deriving DecidableEq, Repr

/-- Where the history is kept, if it is: in the file of the settings, or else at `standard`. -/
def Settings.historyPath? (s : Settings) (standard : String) : Option String :=
  if s.history then some (s.historyFile.getD standard) else none

end UnitCalc
