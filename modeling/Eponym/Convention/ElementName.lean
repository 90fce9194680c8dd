/-
# Names of elements

The variable that a loop assigns elements to is named after the iterable, in the
singular, or after the type of the elements.
-/
import Eponym.Candidates.Session
import Eponym.Convention.Violation
import Eponym.Identifier.Conformance
import Eponym.Identifier.Plural
import Eponym.TypeExpression.Printer

namespace Eponym.ElementName

variable {m : Type → Type} [Monad m]

/-! ## Allowed names -/

/-- The base names for an element: the singular of the iterable's name, unless it is
empty, and the base names of the element type that differ from it. -/
def allowedBases (iterable : Option String) (bases : List String) : List String :=
  match iterable.map elementName with
  | none => bases
  | some "" => bases
  | some base => base :: bases.filter fun b => b ≠ base

/-! ## Messages -/

/-- The description of what is yielded, or the type itself if it is not iterable. -/
def valueDescription (d : Descriptor) : String :=
  match d.valueType? with
  | some value => value.describe
  | none => d.text

/-- The text that reports a name outside the base names. -/
def mismatchMessage (name : String) (iterable : Option String) (d : Descriptor)
    (bases : List String) : String :=
  let iterableText := match iterable with
    | some i => s!"\"${i}\""
    | none => "\"<expression>\""
  s!"Foreach value name \"${name}\" does not match iterable {iterableText} " ++
    s!"(inferred value type: \"{valueDescription d}\"). Allowed base names: {listed bases}. " ++
    s!"Use one of these names directly or a contextual prefix ending with: " ++
    s!"{listedEndings bases}."

/-! ## Violations -/

/-- The report of an element's name that conforms to none of the base names. -/
def violations (name : String) (iterable : Option String) (d : Descriptor)
    (bases : List String) (line : Option UInt64) : List Violation :=
  if bases.isEmpty || conformsToAny name bases then []
  else [⟨.foreachValueMismatch, mismatchMessage name iterable d bases, line⟩]

/-- The base names of what iteration yields, none if the type is not iterable. -/
def elementBases (source : Source m) (d : Descriptor) : m (List String) :=
  match d.valueType? with
  | none => return []
  | some value => source.candidates value

/-- The violations of the name that the elements of an iterable of the type are given. -/
def check (source : Source m) (name : String) (iterable : Option String) (d : Descriptor)
    (line : Option UInt64) : m (List Violation) := do
  let bases := sorted (allowedBases iterable (← elementBases source d))
  return violations name iterable d bases line

end Eponym.ElementName
