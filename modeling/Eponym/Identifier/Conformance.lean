/-
# Conformance to a base name

An identifier conforms to a base name if it is the base name, or if it puts some
context in front of it: `readChannel` conforms to `channel`.

* `conformsChars_iff` : conformance says that a context exists, possibly none.
-/
import Eponym.Identifier.Word

namespace Eponym

/-- Whether the identifier is the base name or ends in its capitalized form. -/
def conformsChars (identifier base : List Char) : Bool :=
  identifier = base || (base ≠ [] && (capitalizeChars base).isSuffixOf identifier)

/-- Whether the identifier conforms to the base name. -/
def conforms (identifier base : String) : Bool :=
  conformsChars identifier.toList base.toList

/-- An identifier conforms if it is the base name, or a context and the capitalized base name. -/
theorem conformsChars_iff {identifier base : List Char} :
    conformsChars identifier base = true ↔
      identifier = base ∨ base ≠ [] ∧ ∃ context, identifier = context ++ capitalizeChars base := by
  simp only [conformsChars, Bool.or_eq_true, Bool.and_eq_true, decide_eq_true_eq,
    List.isSuffixOf_iff_suffix]
  exact or_congr Iff.rfl (and_congr Iff.rfl (exists_congr fun _ => eq_comm))

/-- Whether the identifier conforms to one of the base names. -/
def conformsToAny (identifier : String) (bases : List String) : Bool :=
  bases.any fun base => conforms identifier base

/-- An identifier conforms to one of some base names if there is such a base name. -/
theorem conformsToAny_iff {identifier : String} {bases : List String} :
    conformsToAny identifier bases = true ↔ ∃ base ∈ bases, conforms identifier base = true :=
  List.any_eq_true

theorem conformsToAny_eq_false {identifier : String} {bases : List String} :
    conformsToAny identifier bases = false ↔ ∀ base ∈ bases, conforms identifier base = false := by
  simp [conformsToAny]

@[simp] theorem conforms_self (base : String) : conforms base base = true :=
  conformsChars_iff.2 (.inl rfl)

/-- Whether the identifier repeats the base name with no context in front. -/
def isBare (identifier base : String) : Bool := identifier = base

end Eponym
