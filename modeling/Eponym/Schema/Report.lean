/-
# Data form of violations and reports

The entries of a violation stand in the object of the finding that it belongs to.

* `encode` writes a data form, `decode` reads it.
-/
import Eponym.Data.Decoder
import Eponym.Lint.Report

namespace Eponym

open Data

namespace Problem

/-- The problems by their identifiers. -/
def identified : List (String × Problem) := all.map fun p => (p.identifier, p)

/-- Reads a problem by its identifier. -/
def decode : Decoder Problem := choice identified

/-- Reads a problem among the entries of a finding, where nothing may also be an object. -/
def decodeInside : Decoder Problem := choiceOver isVoid identified

/-- The data form of a problem. -/
def encode (p : Problem) : Value := .text p.identifier

@[simp] theorem decode_encode (p : Problem) : decode p.encode = .ok p := by cases p <;> rfl

@[simp] theorem decodeInside_encode (p : Problem) : decodeInside p.encode = .ok p := by
  cases p <;> rfl

end Problem

namespace Violation

/-- Reads a violation from the entries of an object, its problem in the given way. -/
def decodeEntries (problem : Decoder Problem) (es : Entries) : Except DecodeFault Violation := do
  inspect [("identifier", check problem), ("message", check Data.text),
    ("line", check (nullable word))] es
  return {
    problem := ← required problem "identifier" es
    message := ← required Data.text "message" es
    line := ← optional (nullable word) none "line" es }

/-- Reads a violation. -/
def decode : Decoder Violation := fun v => do decodeEntries Problem.decode (← entries v)

/-- The entries of the data form of a violation. -/
def entries (v : Violation) : Entries :=
  [("identifier", v.problem.encode), ("message", .text v.message)] ++
    match v.line with
    | some n => [("line", .natural n.toNat)]
    | none => []

/-- The data form of a violation. -/
def encode (v : Violation) : Value := .object v.entries

end Violation

namespace Finding

/-- Reads a finding.  Its own fields are taken before those of the violation. -/
def decode : Decoder Finding := fun v => do
  let es ← entries v
  inspect [("subject_index", check natural), ("subject_name", check Data.text)] es
  let index ← required natural "subject_index" es
  let name ← required Data.text "subject_name" es
  return ⟨index, name, ← Violation.decodeEntries Problem.decodeInside es⟩

/-- The data form of a finding. -/
def encode (f : Finding) : Value :=
  .object ([("subject_index", .natural f.index), ("subject_name", .text f.name)] ++
    f.violation.entries)

end Finding

namespace Report

/-- Reads a report. -/
def decode : Decoder Report := fun v => do
  let es ← entries v
  inspect [("subjects_checked", check natural), ("findings", check (list Finding.decode))] es
  return {
    checked := ← required natural "subjects_checked" es
    findings := ← required (list Finding.decode) "findings" es }

/-- The data form of a report. -/
def encode (r : Report) : Value :=
  .object [("subjects_checked", .natural r.checked),
    ("findings", .list (r.findings.map Finding.encode))]

end Report

end Eponym
