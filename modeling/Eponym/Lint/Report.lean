/-
# Reports

The outcome of checking a batch of subjects: how many there were, and each
violation with the place of its subject in the batch.  The violations of one subject
stand together.
-/
import Eponym.Convention.Violation
import Eponym.FirstSeen

namespace Eponym

/-- A violation, and which subject of a batch it is about. -/
structure Finding where
  index : Nat
  name : String
  violation : Violation
  deriving DecidableEq

/-- The outcome of checking a batch. -/
structure Report where
  checked : Nat
  findings : List Finding
  deriving DecidableEq

namespace Report

/-- The number of violations. -/
def total (r : Report) : Nat := r.findings.length

/-- Whether there are no violations. -/
def isClean (r : Report) : Bool := r.findings.isEmpty

/-- A list without entries that equal the one in front of them. -/
def withoutRepeats : List Nat → List Nat
  | [] => []
  | [i] => [i]
  | i :: j :: is => if i = j then withoutRepeats (j :: is) else i :: withoutRepeats (j :: is)

/-- The number of subjects with a violation.  The violations of a subject stand together. -/
def affected (r : Report) : Nat :=
  (withoutRepeats (r.findings.map Finding.index)).length

/-- The number of violations of each problem, in the order of first report. -/
def counts (r : Report) : List (Problem × Nat) :=
  let problems := r.findings.map fun f => f.violation.problem
  problems.eraseDups.map fun p => (p, problems.count p)

end Report

end Eponym
