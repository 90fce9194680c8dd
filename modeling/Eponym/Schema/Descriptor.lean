/-
# Data form of type descriptors

A descriptor is stored as an object that tells its kind and has the fields of that
kind.  The name of a stored type loses its leading separators.

* `encode` writes the data form, `decode` reads it.
-/
import Eponym.Data.Decoder
import Eponym.TypeExpression.Descriptor

namespace Eponym

open Data

/-! ## Type names -/

/-- Reads a type name, dropping leading separators. -/
def TypeName.decode : Decoder TypeName := fun v => (Data.text v).map TypeName.ofString

/-- The data form of a type name. -/
def TypeName.encode (n : TypeName) : Value := .text n.text

@[simp] theorem TypeName.decode_encode (n : TypeName) : decode n.encode = .ok n := by
  simp [decode, encode, Data.text, Except.map]

namespace Descriptor

/-! ## Writing -/

mutual

/-- The data form of a descriptor. -/
def encode : Descriptor → Value
  | named t =>
    .object [("kind", .text "named"), ("name", t.name.encode), ("builtin", .bool t.builtin)]
  | union members => .object [("kind", .text "union"), ("members", .list (encodeList members))]
  | intersection members =>
    .object [("kind", .text "intersection"), ("members", .list (encodeList members))]
  | iterable value => .object [("kind", .text "iterable"), ("value", encode value)]
  | keyed key value =>
    .object [("kind", .text "iterable"), ("key", encode key), ("value", encode value)]
  | null => .object [("kind", .text "null")]
  | scalar name => .object [("kind", .text "scalar"), ("name", .text name)]

/-- The data forms of several descriptors. -/
def encodeList : List Descriptor → List Value
  | [] => []
  | d :: ds => encode d :: encodeList ds

end

/-! ## Kinds -/

/-- The kinds of stored descriptors. -/
inductive Tag where
  | named
  | union
  | intersection
  | iterable
  | null
  | scalar
  deriving DecidableEq

/-- The names of the kinds. -/
def tags : List (String × Tag) :=
  [("named", .named), ("union", .union), ("intersection", .intersection),
    ("iterable", .iterable), ("null", .null), ("scalar", .scalar)]

/-- Reads a kind.  Inside another descriptor a kind may also be given by its number. -/
def decodeTag (inside : Bool) : Decoder Tag
  | .text s => choice tags (.text s)
  | .natural n =>
    match inside, tags[n]? with
    | true, some (_, tag) => .ok tag
    | _, _ => .error .wrongForm
  | _ => .error .wrongForm

/-! ## Reading -/

/-- An entry of a stored descriptor, with the descriptors that its value may stand for. -/
structure Part where
  value : Value
  one : Except DecodeFault Descriptor
  many : Except DecodeFault (List Descriptor)

/-- The value of a field that has to be there, read in the given way. -/
def requirePart {α : Type} (read : Part → Except DecodeFault α) (parts : List (String × Part))
    (name : String) : Except DecodeFault α :=
  match parts.lookup name with
  | some p => read p
  | none => .error (.missingField name)

/-- Checks the known parts in the order of their keys. -/
def inspectParts (known : List (String × (Part → Except DecodeFault Unit)))
    (parts : List (String × Part)) : Except DecodeFault Unit :=
  if repeats (known.map Prod.fst) (parts.map fun p => (p.1, p.2.value)) then .error .wrongForm
  else (parts.mergeSort fun a b => !decide (b.1 < a.1)).forM fun p =>
    match known.lookup p.1 with
    | some f => f p.2
    | none => .ok ()

/-- The key type in a part, which may be null. -/
def Part.keyType (p : Part) : Except DecodeFault (Option Descriptor) :=
  match p.value with
  | .null => .ok none
  | _ => p.one.map some

/-- Forgets a value that has been read. -/
def forget {α : Type} (r : Except DecodeFault α) : Except DecodeFault Unit := r.map fun _ => ()

/-- Puts a descriptor of the given kind together from its parts. -/
def assemble (parts : List (String × Part)) : Tag → Except DecodeFault Descriptor
  | .named => do
    inspectParts [("name", fun p => check TypeName.decode p.value),
      ("builtin", fun p => check Data.bool p.value)] parts
    let name ← requirePart (fun p => TypeName.decode p.value) parts "name"
    let builtin ← match parts.lookup "builtin" with
      | some p => Data.bool p.value
      | none => .ok false
    return .named ⟨name, builtin⟩
  | .union => do
    inspectParts [("members", fun p => forget p.many)] parts
    return .union (← requirePart Part.many parts "members")
  | .intersection => do
    inspectParts [("members", fun p => forget p.many)] parts
    return .intersection (← requirePart Part.many parts "members")
  | .iterable => do
    inspectParts [("key", fun p => forget p.keyType), ("value", fun p => forget p.one)] parts
    let key ← match parts.lookup "key" with
      | some p => p.keyType
      | none => .ok none
    let value ← requirePart Part.one parts "value"
    return match key with
      | some k => .keyed k value
      | none => .iterable value
  | .null => .ok .null
  | .scalar => do
    inspectParts [("name", fun p => check Data.text p.value)] parts
    return .scalar (← requirePart (fun p => Data.text p.value) parts "name")

/-- Reads the kind of a stored descriptor and puts the descriptor together. -/
def assembleTagged (inside : Bool) (parts : List (String × Part)) :
    Except DecodeFault Descriptor := do
  if 1 < (parts.filter fun p => p.1 = "kind").length then .error .wrongForm
  assemble parts (← requirePart (fun p => decodeTag inside p.value) parts "kind")

mutual

/-- Reads a descriptor, inside another or not. -/
def decodeAt (inside : Bool) : Value → Except DecodeFault Descriptor
  | .object entries => assembleTagged inside (decodeParts entries)
  | .null | .bool _ | .natural _ | .number _ | .text _ | .plain _ | .list _ | .mapping _
  | .unreadable => .error .wrongForm

/-- Reads the values of the entries of an object as descriptors and as lists of them. -/
def decodeParts : List (String × Value) → List (String × Part)
  | [] => []
  | (k, v) :: es => (k, ⟨v, decodeAt true v, decodeMany v⟩) :: decodeParts es

/-- Reads a list of descriptors. -/
def decodeMany : Value → Except DecodeFault (List Descriptor)
  | .list items => decodeItems items
  | .object _ | .null | .bool _ | .natural _ | .number _ | .text _ | .plain _ | .mapping _
  | .unreadable => .error .wrongForm

/-- Reads several descriptors, up to the first fault. -/
def decodeItems : List Value → Except DecodeFault (List Descriptor)
  | [] => .ok []
  | v :: vs => match decodeAt true v with
    | .error fault => .error fault
    | .ok d => (decodeItems vs).map (d :: ·)

end

/-- Reads a descriptor. -/
def decode : Decoder Descriptor := decodeAt false

end Descriptor

end Eponym
