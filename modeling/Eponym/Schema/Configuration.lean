/-
# Data form of configurations

A configuration may leave out whatever is to have its usual value, but no value in
it may be null.

* `encode` writes a data form, `decode` reads it.
-/
import Eponym.Configuration
import Eponym.Data.Decoder

namespace Eponym

open Data

namespace Toggles

/-- Reads which conventions are checked. -/
def decode : Decoder Toggles := fun v => do
  let es ← entries v
  inspect [("type_suffix_mismatch", check Data.bool), ("iterable_plural", check Data.bool),
    ("foreach_value", check Data.bool)] es
  return {
    typeSuffix := ← optional Data.bool true "type_suffix_mismatch" es
    iterablePlural := ← optional Data.bool true "iterable_plural" es
    foreachValue := ← optional Data.bool true "foreach_value" es }

/-- The data form of which conventions are checked. -/
def encode (t : Toggles) : Value :=
  .object [("type_suffix_mismatch", .bool t.typeSuffix),
    ("iterable_plural", .bool t.iterablePlural), ("foreach_value", .bool t.foreachValue)]

end Toggles

namespace NamingConfig

/-- Reads what concerns naming. -/
def decode : Decoder NamingConfig := fun v => do
  let es ← entries v
  inspect [("deny_type_names", check (list Data.text)),
    ("deny_candidate_names", check (list Data.text)),
    ("enable_interface_bare_name_check", check Data.bool), ("rules", check Toggles.decode)] es
  return {
    deniedTypes := ← optional (list Data.text) [] "deny_type_names" es
    deniedBases := ← optional (list Data.text) [] "deny_candidate_names" es
    bareNameCheck := ← optional Data.bool false "enable_interface_bare_name_check" es
    toggles := ← optional Toggles.decode .all "rules" es }

/-- The data form of what concerns naming. -/
def encode (c : NamingConfig) : Value :=
  .object [("deny_type_names", .list (c.deniedTypes.map Value.text)),
    ("deny_candidate_names", .list (c.deniedBases.map Value.text)),
    ("enable_interface_bare_name_check", .bool c.bareNameCheck),
    ("rules", c.toggles.encode)]

end NamingConfig

namespace Configuration

/-- Reads a configuration. -/
def decode : Decoder Configuration := fun v => do
  let es ← entries v
  inspect [("naming", check NamingConfig.decode)] es
  return { naming := ← optional NamingConfig.decode .default "naming" es }

/-- The data form of a configuration. -/
def encode (c : Configuration) : Value := .object [("naming", c.naming.encode)]

end Configuration

end Eponym
