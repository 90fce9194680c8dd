/-
# Names of iterables

Something iterable is named after what it yields, in the plural or with a
collection suffix.  `Map` is no word for it, whatever else the name says.

* `hasMapSegment_iff` : where the forbidden segment is found.
-/
import Eponym.Candidates.Session
import Eponym.Convention.Violation
import Eponym.Identifier.Conformance
import Eponym.Identifier.Plural
import Eponym.TypeExpression.Printer

namespace Eponym.CollectionName

variable {m : Type → Type} [Monad m]

/-! ## Allowed names -/

/-- Whether one of the segments of a name is `map`, in any letter case. -/
def hasMapSegment (name : String) : Bool :=
  (segmentChars name.toList).any fun s => s.map Char.toLower = "map".toList

/-- A name has a forbidden segment if one of its segments reads `map`. -/
theorem hasMapSegment_iff {name : String} :
    hasMapSegment name = true ↔
      ∃ s ∈ segmentChars name.toList, s.map Char.toLower = "map".toList := by
  simp only [hasMapSegment, List.any_eq_true, decide_eq_true_eq]

/-- The names for an iterable whose elements have the base name: its plural, and the base
name with each collection suffix. -/
def collectionNames (base : String) : List String :=
  plural base :: collectionEndings.map fun ending => base ++ ending

/-- Whether a name conforms to a name for an iterable of one of the base names. -/
def namesCollection (name : String) (bases : List String) : Bool :=
  bases.any fun base => conformsToAny name (collectionNames base)

/-! ## Messages -/

/-- The text that reports a `Map` segment. -/
def mapMessage (name : String) : String :=
  s!"Iterable name \"${name}\" contains forbidden segment \"Map\". " ++
    "Use \"List\", \"Collection\", \"Lookup\", \"ById\", or \"ByKey\" naming instead."

/-- The text that reports a name that fits no element. -/
def pluralMessage (name : String) (d : Descriptor) (bases : List String) : String :=
  s!"Iterable name \"${name}\" does not match inferred iterable element type " ++
    s!"\"{d.describeValue}\". Allowed base names: {listed bases}. Use plural form or " ++
    s!"collection suffixes: {listed collectionEndings}."

/-! ## Violations -/

/-- The violations of the name of an iterable whose elements have the base names. -/
def violations (name : String) (d : Descriptor) (bases : List String) (line : Option UInt64) :
    List Violation :=
  (if hasMapSegment name then [⟨.mapForbidden, mapMessage name, line⟩] else []) ++
    if namesCollection name bases then []
    else [⟨.iterablePluralMismatch, pluralMessage name d bases, line⟩]

/-- The violations of a name of the given type.  Nothing is said of a type that is not
iterable, or whose elements suggest no base name. -/
def check (source : Source m) (name : String) (d : Descriptor) (line : Option UInt64) :
    m (List Violation) :=
  match d.valueType? with
  | none => return []
  | some value => do
    let bases := sorted (← source.candidates value)
    return if bases.isEmpty then [] else violations name d bases line

end Eponym.CollectionName
