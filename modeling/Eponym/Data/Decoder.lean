/-
# Reading values from data

A decoder turns data into a value of some type, or tells why it cannot.  Of an
object, the entries that are known are read first, in the order of their keys;
then each field is taken, in the order of declaration.  So a malformed entry is
reported before a missing one.

* `required_of_lookup`, `optional_of_lookup` : a field is what its entry says.
-/
import Eponym.Data.Scalar

namespace Eponym.Data

/-! ## Faults of data -/

/-- Why data does not have the expected form. -/
inductive DecodeFault where
  /-- A required entry of an object is missing. -/
  | missingField (name : String)
  /-- A name is none of those expected. -/
  | unknownVariant (given : String) (expected : List String)
  /-- A text that has to be a type expression is none. -/
  | malformedType (report : String)
  /-- The data is of another kind than expected. -/
  | wrongForm
  deriving DecidableEq

/-- A text that tells what is wrong, where there is more to say than that the form is. -/
def DecodeFault.reason? : DecodeFault → Option String
  | missingField name => some s!"missing field `{name}`"
  | unknownVariant given expected =>
    let choices := ", ".intercalate (expected.map fun e => s!"`{e}`")
    some s!"unknown variant `{given}`, expected one of {choices}"
  | malformedType report => some report
  | wrongForm => none

/-- Reads a value of some type from data. -/
abbrev Decoder (α : Type) := Value → Except DecodeFault α

/-! ## Scalars -/

/-- Reads a text. -/
def text : Decoder String
  | .text s => .ok s
  | .plain raw => .ok raw
  | _ => .error .wrongForm

/-- Reads a truth value. -/
def bool : Decoder Bool
  | .bool b => .ok b
  | .plain raw => match plainBool? raw with
    | some b => .ok b
    | none => .error .wrongForm
  | _ => .error .wrongForm

/-- Reads a natural number. -/
def natural : Decoder Nat
  | .natural n => if n < wordLimit then .ok n else .error .wrongForm
  | .plain raw => match resolvePlain raw with
    | .natural n => .ok n
    | _ => .error .wrongForm
  | _ => .error .wrongForm

/-- Reads a natural number that fits a machine word. -/
def word : Decoder UInt64 := fun v => (natural v).map UInt64.ofNat

/-- Reads a value that may be null. -/
def nullable {α : Type} (d : Decoder α) : Decoder (Option α)
  | .null => .ok none
  | v => (d v).map some

/-- Reads one of several names, each standing for a value.  An object whose one key is
such a name, with nothing under it, stands for the name. -/
def choiceOver {α : Type} (isNothing : Value → Bool) (variants : List (String × α)) : Decoder α :=
  let find (s : String) : Except DecodeFault α :=
    match variants.lookup s with
    | some a => .ok a
    | none => .error (.unknownVariant s (variants.map Prod.fst))
  fun v => match v with
    | .text s | .plain s => find s
    | .object [(s, content)] => match find s with
      | .ok a => if isNothing content then .ok a else .error .wrongForm
      | .error fault => .error fault
    | _ => .error .wrongForm

/-- Whether a value is null. -/
def isNull : Value → Bool
  | .null => true
  | _ => false

/-- Whether a value is null or an object without entries. -/
def isVoid : Value → Bool
  | .null | .object [] => true
  | _ => false

/-- Reads one of several names, where only null is nothing. -/
def choice {α : Type} (variants : List (String × α)) : Decoder α := choiceOver isNull variants

/-! ## Lists -/

/-- Reads several values with one decoder, up to the first fault. -/
def each {α : Type} (d : Decoder α) : List Value → Except DecodeFault (List α)
  | [] => .ok []
  | v :: vs => do
    let a ← d v
    let as ← each d vs
    .ok (a :: as)

/-- The items of a list; an empty plain scalar has none. -/
def items : Decoder (List Value)
  | .list vs => .ok vs
  | .plain "" => .ok []
  | _ => .error .wrongForm

/-- Reads a list. -/
def list {α : Type} (d : Decoder α) : Decoder (List α) := fun v => do each d (← items v)

/-! ## Objects -/

/-- The entries of an object. -/
abbrev Entries := List (String × Value)

/-- The entries of an object, or of a mapping whose keys can be taken for texts; an empty
plain scalar has none. -/
def entries : Decoder Entries
  | .object es => .ok es
  | .mapping es => es.mapM fun e => (text e.1).map (·, e.2)
  | .plain "" => .ok []
  | _ => .error .wrongForm

/-- Whether a value can be read, the value itself left out of account. -/
def check {α : Type} (d : Decoder α) : Decoder Unit := fun v => (d v).map fun _ => ()

/-- Whether one of the names is the key of two entries. -/
def repeats (names : List String) (es : Entries) : Bool :=
  names.any fun n => 1 < (es.filter fun e => e.1 = n).length

/-- Checks the entries that are known, in the order of their keys.  Others are let pass,
but a known key must not come twice. -/
def inspect (known : List (String × Decoder Unit)) (es : Entries) : Except DecodeFault Unit :=
  if repeats (known.map Prod.fst) es then .error .wrongForm
  else (es.mergeSort fun a b => !decide (b.1 < a.1)).forM fun e =>
    match known.lookup e.1 with
    | some d => d e.2
    | none => .ok ()

/-- Reads a field that has to be there. -/
def required {α : Type} (d : Decoder α) (name : String) (es : Entries) : Except DecodeFault α :=
  match es.lookup name with
  | some v => d v
  | none => .error (.missingField name)

/-- Reads a field that has a value of its own when it is left out. -/
def optional {α : Type} (d : Decoder α) (absent : α) (name : String) (es : Entries) :
    Except DecodeFault α :=
  match es.lookup name with
  | some v => d v
  | none => .ok absent

/-- A field is what its entry says. -/
theorem required_of_lookup {α : Type} {d : Decoder α} {name : String} {es : Entries} {v : Value}
    (h : es.lookup name = some v) : required d name es = d v := by simp [required, h]

/-- A field that may be left out is what its entry says if there is one. -/
theorem optional_of_lookup {α : Type} {d : Decoder α} {absent : α} {name : String} {es : Entries}
    {v : Value} (h : es.lookup name = some v) : optional d absent name es = d v := by
  simp [optional, h]

/-- A field that is left out has its own value. -/
theorem optional_of_lookup_none {α : Type} {d : Decoder α} {absent : α} {name : String}
    {es : Entries} (h : es.lookup name = none) : optional d absent name es = .ok absent := by
  simp [optional, h]

end Eponym.Data
