/-
# Lineages

The lineage of a type is the type itself, its parents nearest first, and its
interfaces, types of the runtime left out and no name twice.  A type that nothing
is known of stands alone, and a type of the runtime has an empty lineage.

* `lineageOf_none` : the first of the two special cases.
-/
import Eponym.TypeModel.Reflection

namespace Eponym

/-- Names of types in the order met, each once. -/
structure Lineage where
  members : List TypeName
  nodup : members.Nodup
  deriving DecidableEq

namespace Lineage

/-- The names of a list in order, each once. -/
def ofList (names : List TypeName) : Lineage := ⟨names.eraseDups, nodup_eraseDups names⟩

@[simp] theorem mem_ofList {n : TypeName} {names : List TypeName} :
    n ∈ (ofList names).members ↔ n ∈ names := by simp [ofList]

end Lineage

/-- The types of a reflection that belong to no runtime: itself, parents, interfaces. -/
def Reflection.userTypes (r : Reflection) : List TypeName :=
  if r.builtin then []
  else .ofString r.name ::
    ((r.parents ++ r.interfaces).filter fun t => !t.builtin).map fun t => .ofString t.name

/-- The lineage of a type of which the given is known. -/
def lineageOf (n : TypeName) : Option Reflection → Lineage
  | none => .ofList [n]
  | some r => .ofList r.userTypes

/-- The lineage of a type, as far as it is known. -/
def Knowledge.lineage (o : Knowledge) (n : TypeName) : Lineage := lineageOf n (o.reflect n.text)

@[simp] theorem lineageOf_none (n : TypeName) : (lineageOf n none).members = [n] := by
  simp [lineageOf, Lineage.ofList, List.eraseDups_cons]

end Eponym
