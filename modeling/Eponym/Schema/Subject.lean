/-
# Data form of subjects

A subject is stored as an object that tells its kind.  Types in it are written as
type expressions.

* `encode` writes a data form, `decode` reads it;
* `fieldName_text` : a field is found under its name.
-/
import Eponym.Data.Decoder
import Eponym.Lint.Subject
import Eponym.TypeExpression.Parser
import Eponym.TypeExpression.Printer

namespace Eponym

open Data

/-- Reads a type that is written as an expression. -/
def Descriptor.decodeExpression : Decoder Descriptor := fun v => do
  match Descriptor.parse (← Data.text v) with
  | .ok d => .ok d
  | .error fault => .error (.malformedType fault.message)

namespace Subject

/-! ## Reading -/

/-- The kinds of stored subjects. -/
inductive Tag where
  | typed (place : Place)
  | promotedProperty
  | foreachValue
  deriving DecidableEq

/-- The names of the kinds. -/
def tags : List (String × Tag) :=
  [("variable", .typed .variable), ("property", .typed .property),
    ("promoted_property", .promotedProperty),
    ("iterable_assignment", .typed .iterableAssignment), ("foreach_value", .foreachValue)]

/-- Reads a kind, which has to be a name. -/
def decodeTag : Decoder Tag
  | .text s | .plain s => choice tags (.text s)
  | _ => .error .wrongForm

/-- Reads the fields of a subject of the given kind. -/
def decodeFields (es : Entries) : Tag → Except DecodeFault Subject
  | .typed place => do
    inspect [("name", check Data.text), ("type", check Descriptor.decodeExpression),
      ("line", check (nullable word))] es
    return .typed place (← required Data.text "name" es)
      (← required Descriptor.decodeExpression "type" es)
      (← optional (nullable word) none "line" es)
  | .promotedProperty => do
    inspect [("name", check Data.text), ("type", check Descriptor.decodeExpression),
      ("declared_type", check (nullable Descriptor.decodeExpression)),
      ("line", check (nullable word))] es
    return .promotedProperty (← required Data.text "name" es)
      (← required Descriptor.decodeExpression "type" es)
      (← optional (nullable Descriptor.decodeExpression) none "declared_type" es)
      (← optional (nullable word) none "line" es)
  | .foreachValue => do
    inspect [("value_name", check Data.text), ("iterable_name", check (nullable Data.text)),
      ("iterable_type", check Descriptor.decodeExpression), ("line", check (nullable word))] es
    return .foreachValue (← required Data.text "value_name" es)
      (← optional (nullable Data.text) none "iterable_name" es)
      (← required Descriptor.decodeExpression "iterable_type" es)
      (← optional (nullable word) none "line" es)

/-- The names of the fields of a subject of the given kind, each at its number. -/
def fieldNames : Tag → List String
  | .typed _ => ["name", "type", "line"]
  | .promotedProperty => ["name", "type", "declared_type", "line"]
  | .foreachValue => ["value_name", "iterable_name", "iterable_type", "line"]

/-- Whether a scalar is written with a minus sign, as a zero may be. -/
def hasMinus : Value → Bool
  | .plain raw => raw.toList.head? = some '-'
  | _ => false

/-- The name of a field that a key is or has the number of.  A number too large is that of no
field, and none has a sign. -/
def fieldName (tag : Tag) (key : Value) : Except DecodeFault String :=
  match key.resolve with
  | .text s => .ok s
  | .natural n =>
    if hasMinus key then .error .wrongForm else .ok ((fieldNames tag)[n]?.getD "")
  | _ => .error .wrongForm

@[simp] theorem fieldName_text (tag : Tag) (s : String) : fieldName tag (.text s) = .ok s := by
  simp [fieldName]

/-- The entries of a stored subject, under keys of any kind. -/
def storedEntries : Value → Except DecodeFault (List (Value × Value))
  | .object es => .ok (es.map fun e => (.text e.1, e.2))
  | .mapping es => .ok es
  | _ => .error .wrongForm

/-- Reads a subject.  Its kind is read first; all else must have a value, and a plain scalar
in it stands for what it looks like. -/
def decode : Decoder Subject := fun v => do
  let stored ← storedEntries v
  let (kinds, fields) := stored.partition fun e => e.1.keyText? = some "kind"
  if 1 < kinds.length then .error .wrongForm
  let tag ← required decodeTag "kind" (kinds.map fun e => ("kind", e.2))
  let es ← fields.mapM fun e => (fieldName tag e.1).map (·, e.2.resolve)
  if (Value.object es).isSound then decodeFields es tag else .error .wrongForm

/-- Reads a batch of subjects. -/
def decodeBatch : Decoder (List Subject) := fun v => do
  let es ← entries v
  inspect [("subjects", check (list decode))] es
  optional (list decode) [] "subjects" es

/-! ## Writing -/

/-- The name of a kind of subject. -/
def placeName : Place → String
  | .variable => "variable"
  | .property => "property"
  | .iterableAssignment => "iterable_assignment"

/-- The data form of a type, which is its expression. -/
def encodeType (d : Descriptor) : Value := .text d.text

/-- The entry of a line, if it is known. -/
def lineEntry : Option UInt64 → Entries
  | some n => [("line", .natural n.toNat)]
  | none => []

/-- The data form of a subject. -/
def encode : Subject → Value
  | typed place name type line =>
    .object ([("kind", .text (placeName place)), ("name", .text name),
      ("type", encodeType type)] ++ lineEntry line)
  | promotedProperty name type declared line =>
    .object ([("kind", .text "promoted_property"), ("name", .text name),
      ("type", encodeType type)] ++
      (declared.map fun d => ("declared_type", encodeType d)).toList ++ lineEntry line)
  | foreachValue name iterable type line =>
    .object ([("kind", .text "foreach_value"), ("value_name", .text name)] ++
      (iterable.map fun i => ("iterable_name", Value.text i)).toList ++
      [("iterable_type", encodeType type)] ++ lineEntry line)

/-- The data form of a batch of subjects. -/
def encodeBatch (subjects : List Subject) : Value :=
  .object [("subjects", .list (subjects.map encode))]

end Subject

end Eponym
