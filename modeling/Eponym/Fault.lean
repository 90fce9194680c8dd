/-
# Faults

What can go wrong at the edges: a file cannot be read, a text is no type
expression, an entry is not valid, data does not have the expected form.  Naming
itself never fails.

* `Fault.field?` : the part of the input that a fault is about, where one is known.
-/

namespace Eponym

/-- The formats that data is read from. -/
inductive Format where
  | json
  | yaml
  deriving DecidableEq, Repr

/-- The name of a format. -/
def Format.name : Format → String
  | json => "JSON"
  | yaml => "YAML"

/-- What went wrong. -/
inductive Fault where
  /-- A file could not be read or written, for the given cause. -/
  | io (message cause : String)
  /-- A configuration is not usable. -/
  | config (message : String) (field : Option String)
  /-- A type expression is malformed; the position counts bytes. -/
  | parse (message input : String) (position : Nat)
  /-- An entry does not meet the conditions on it. -/
  | validation (message : String) (field : Option String)
  /-- Data does not have the expected form; the reason is given where it is known. -/
  | serialization (format : Format) (reason : Option String)
  deriving DecidableEq

namespace Fault

/-- The text that reports a fault. -/
def message : Fault → String
  | io m _ => s!"I/O error: {m}"
  | config m _ => s!"Configuration error: {m}"
  | parse m input position => s!"Parse error at byte {position} in `{input}`: {m}"
  | validation m _ => s!"Validation error: {m}"
  | serialization format reason =>
    let told := reason.getD "unexpected data"
    s!"Serialization error: {format.name} serialization failed: {told}"

/-- A failure of the system that nothing more is known of than its cause. -/
def ofSystem (cause : String) : Fault := .io "I/O operation failed" cause

/-- The part of the input that the fault is about, where it is known. -/
def field? : Fault → Option String
  | config _ field | validation _ field => field
  | io .. | parse .. | serialization .. => none

/-- What lies behind a fault, as far as it is known. -/
def causes : Fault → List String
  | io _ cause => [cause]
  | serialization _ reason => reason.toList
  | config .. | parse .. | validation .. => []

end Fault

end Eponym
