/-
# The command line

Reads arguments and environment, performs the action they stand for, shows its
outcome and ends with its exit code.
-/
import Eponym.Command.Perform

namespace Eponym.Command

/-- The text in a file, or why it cannot be read. -/
def readContent (path : String) : IO Content := do
  match ← (IO.FS.readBinFile path).toBaseIO with
  | .ok bytes => match String.fromUTF8? bytes with
    | some s => return .ok s
    | none => return .error .notText
  | .error (.noFileOrDirectory ..) => return .error .missing
  | .error (.inappropriateType ..) => return .error .directory
  | .error e => return .error (.other (toString e))

/-- Shows an outcome, with remarks and complaints on the error stream. -/
def showOutcome (o : Outcome) : IO Unit := do
  for r in o.remarks do IO.eprintln r.text
  IO.print o.shown
  if let some complaint := o.complaint then IO.eprintln complaint

end Eponym.Command

open Eponym.Command in
/-- Runs the command that the arguments name. -/
def main (arguments : List String) : IO UInt32 := do
  let types ← IO.getEnv "NOMEN_TYPES"
  let config ← IO.getEnv "NOMEN_CONFIG"
  let environment (name : String) : Option String :=
    if name = "NOMEN_TYPES" then types else if name = "NOMEN_CONFIG" then config else none
  let o ← outcomeOf environment readContent arguments
  showOutcome o
  return o.code.toUInt32
