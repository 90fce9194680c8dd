/-
# Outcomes

What a command leaves behind: its exit code, what it shows, what it complains about,
and remarks for the log.
-/
import Eponym.Command.Arguments
import Eponym.Fault
import Eponym.Notice

namespace Eponym.Command

/-! ## Complaints -/

/-- Why a command failed, and what lies behind that, nearest first. -/
structure Complaint where
  message : String
  causes : List String
  deriving DecidableEq

namespace Complaint

/-- The complaint about a fault. -/
def ofFault (f : Fault) : Complaint := ⟨f.message, f.causes⟩

/-- A complaint as the cause of another. -/
def within (c : Complaint) (message : String) : Complaint := ⟨message, c.message :: c.causes⟩

/-- The complaint on one line. -/
def line (c : Complaint) : String := ": ".intercalate (c.message :: c.causes)

/-- The causes, one on each line, with numbers if there are several. -/
def causeLines : List String → List String
  | [] => []
  | [cause] => ["", "Caused by:", "    " ++ cause]
  | causes => ["", "Caused by:"] ++ causes.mapIdx fun i cause => s!"    {i}: {cause}"

/-- The complaint on several lines. -/
def report (c : Complaint) : String :=
  "\n".intercalate (("Error: " ++ c.message) :: causeLines c.causes)

end Complaint

/-! ## Outcomes -/

/-- A remark for the log. -/
inductive Remark where
  | warning (n : Notice)
  /-- Tells what was done; only for those who asked to be told more. -/
  | detail (text : String)
  deriving DecidableEq

/-- The text of a remark. -/
def Remark.text : Remark → String
  | warning n => s!"WARN {n.message}"
  | detail text => s!"DEBUG {text}"

/-- What a command leaves behind. -/
structure Outcome where
  code : UInt8
  shown : String
  complaint : Option String
  remarks : List Remark
  deriving DecidableEq

/-- Lines of text, each ended by a line break. -/
def textOf (lines : List String) : String := String.join (lines.map (· ++ "\n"))

namespace Outcome

/-- The outcome of a command that failed before it showed anything. -/
def ofComplaint (c : Complaint) : Outcome := ⟨1, "", some c.report, []⟩

/-- The outcome of a command that showed some lines, and whether it is content. -/
def ofLines (content : Bool) (lines : List String) (remarks : List Remark) : Outcome :=
  ⟨if content then 0 else 1, textOf lines, none, remarks⟩

/-- The outcome of arguments that name no action. -/
def ofInterruption : Interruption → Outcome
  | .help => ⟨0, helpText, none, []⟩
  | .version => ⟨0, versionText, none, []⟩
  | .misuse m =>
    let hint := "For more information, try '--help'."
    ⟨2, "", some s!"error: {m.message}\n\n{hint}", []⟩

end Outcome

end Eponym.Command
