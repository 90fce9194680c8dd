/-
# Data form of type models

A type model is an object with a list of declarations.  What a declaration does not
say has a value of its own: a type is a class, extends and implements nothing, and
does not belong to the runtime.

* `encode` writes a data form, `decode` reads it.
-/
import Eponym.Schema.Descriptor
import Eponym.TypeModel.Reflection

namespace Eponym

open Data

/-! ## Kinds -/

namespace Kind

/-- The names of the kinds. -/
def names : List (String × Kind) :=
  [("class", .plainClass), ("interface", .interface), ("trait", .trait), ("enum", .enum)]

/-- The name of a kind. -/
def name : Kind → String
  | .plainClass => "class"
  | .interface => "interface"
  | .trait => "trait"
  | .enum => "enum"

/-- Reads a kind. -/
def decode : Decoder Kind := choice names

/-- The data form of a kind. -/
def encode (k : Kind) : Value := .text k.name

@[simp] theorem decode_encode (k : Kind) : decode k.encode = .ok k := by cases k <;> rfl

end Kind

/-! ## Declarations -/

namespace Declaration

/-- Reads a declaration. -/
def decode : Decoder Declaration := fun v => do
  let es ← entries v
  inspect [("name", check TypeName.decode), ("kind", check Kind.decode),
    ("extends", check (list TypeName.decode)), ("implements", check (list TypeName.decode)),
    ("builtin", check Data.bool)] es
  return {
    name := ← required TypeName.decode "name" es
    kind := ← optional Kind.decode .plainClass "kind" es
    extended := ← optional (list TypeName.decode) [] "extends" es
    implemented := ← optional (list TypeName.decode) [] "implements" es
    builtin := ← optional Data.bool false "builtin" es }

/-- An entry for a list of names, unless the list is empty. -/
def namesEntry (key : String) (names : List TypeName) : Entries :=
  if names = [] then [] else [(key, .list (names.map TypeName.encode))]

/-- The data form of a declaration. -/
def encode (d : Declaration) : Value :=
  .object ([("name", d.name.encode), ("kind", d.kind.encode)] ++
    namesEntry "extends" d.extended ++ namesEntry "implements" d.implemented ++
    [("builtin", .bool d.builtin)])

/-- Reads the declarations of a type model. -/
def decodeModel : Decoder (List Declaration) := fun v => do
  let es ← entries v
  inspect [("types", check (list decode))] es
  optional (list decode) [] "types" es

/-- The data form of a type model. -/
def encodeModel (ds : List Declaration) : Value := .object [("types", .list (ds.map encode))]

end Declaration

/-! ## Reflections -/

namespace ReflectedType

/-- Reads a parent or interface. -/
def decode : Decoder ReflectedType := fun v => do
  let es ← entries v
  inspect [("name", check Data.text), ("is_builtin", check Data.bool)] es
  return {
    name := ← required Data.text "name" es
    builtin := ← required Data.bool "is_builtin" es }

/-- The data form of a parent or interface. -/
def encode (t : ReflectedType) : Value :=
  .object [("name", .text t.name), ("is_builtin", .bool t.builtin)]

end ReflectedType

namespace Reflection

/-- Reads a reflection.  Names are taken as they stand. -/
def decode : Decoder Reflection := fun v => do
  let es ← entries v
  inspect [("name", check Data.text), ("kind", check Kind.decode),
    ("is_builtin", check Data.bool), ("parents", check (list ReflectedType.decode)),
    ("interfaces", check (list ReflectedType.decode))] es
  return {
    name := ← required Data.text "name" es
    kind := ← required Kind.decode "kind" es
    builtin := ← required Data.bool "is_builtin" es
    parents := ← required (list ReflectedType.decode) "parents" es
    interfaces := ← required (list ReflectedType.decode) "interfaces" es }

/-- The entries of the data form of a reflection. -/
def entries (r : Reflection) : Entries :=
  [("name", .text r.name), ("kind", r.kind.encode), ("is_builtin", .bool r.builtin),
    ("parents", .list (r.parents.map ReflectedType.encode)),
    ("interfaces", .list (r.interfaces.map ReflectedType.encode))]

/-- The data form of a reflection. -/
def encode (r : Reflection) : Value := .object r.entries

end Reflection

end Eponym
