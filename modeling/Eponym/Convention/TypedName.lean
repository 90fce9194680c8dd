/-
# Names that end in their type

A variable or property that holds an object is named after a base name of its
type, with or without context in front.  If asked for, a name that consists of
nothing but the base name of an interface is reported too, so that some context
is given.

The base names come from a `Source`, which may work them out afresh or remember
them; the convention does not depend on which.
-/
import Eponym.Candidates.Session
import Eponym.Convention.Violation
import Eponym.Identifier.Conformance
import Eponym.TypeExpression.Printer

namespace Eponym.TypedName

variable {m : Type → Type} [Monad m]

/-! ## Messages -/

/-- The text that reports a name outside the base names. -/
def mismatchMessage (name : String) (d : Descriptor) (bases : List String) : String :=
  s!"Name \"${name}\" does not match inferred type \"{d.describe}\". " ++
    s!"Allowed base names: {listed bases}. Use one of these names directly or a " ++
    s!"contextual prefix ending with: {listedEndings bases}."

/-- The text that reports the bare base name of an interface. -/
def bareNameMessage (name interface : String) : String :=
  s!"Interface-typed name \"${name}\" uses the bare interface base name \"{name}\" " ++
    s!"(inferred interface type: {interface}). Prefer a contextual prefix like " ++
    s!"\"$read{capitalize name}\"."

/-! ## Violations -/

/-- The report of a name that conforms to none of the base names. -/
def mismatches (name : String) (d : Descriptor) (bases : List String) (line : Option UInt64) :
    List Violation :=
  if conformsToAny name bases then []
  else [⟨.typeSuffixMismatch, mismatchMessage name d bases, line⟩]

/-- The report of a name that is the base name of an interface, for the first such. -/
def bareNames (name : String) (interfaces : List (String × String)) (line : Option UInt64) :
    List Violation :=
  match interfaces.find? fun i => isBare name i.1 with
  | some i => [⟨.interfaceBareName, bareNameMessage name i.2, line⟩]
  | none => []

/-- The violations of a name of the given type.  Nothing is said of a type that suggests
no base name; interfaces are looked at only if asked for. -/
def check (source : Source m) (bareCheck : Bool) (name : String) (d : Descriptor)
    (line : Option UInt64) : m (List Violation) := do
  let bases := sorted (← source.candidates d)
  if bases.isEmpty then return []
  let found := mismatches name d bases line
  if !bareCheck then return found
  return found ++ bareNames name (← source.interfaceBaseNames d) line

/-- Forgives all violations if the name conforms to a base name of the declared type. -/
def forgive (source : Source m) (name : String) (declared : Option Descriptor)
    (found : List Violation) : m (List Violation) := do
  if found.isEmpty then return found
  match declared with
  | none => return found
  | some d => return if conformsToAny name (← source.candidates d) then [] else found

/-- The violations of a name whose declared type was narrowed.  None counts if the declared
type accepts the name. -/
def checkNarrowed (source : Source m) (bareCheck : Bool) (name : String) (narrowed : Descriptor)
    (declared : Option Descriptor) (line : Option UInt64) : m (List Violation) := do
  forgive source name declared (← check source bareCheck name narrowed line)

end Eponym.TypedName
