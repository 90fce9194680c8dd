/-
# Candidate base names

The base names that a type suggests for an identifier.  Each named member of the
type contributes the base names of its lineage; whatever is denied, or belongs
to the runtime, is left out, and each base name is listed once.

* `mem_candidatesOf`, `mem_suggest` : which base names are suggested.
-/
import Eponym.BaseName
import Eponym.Lineage
import Eponym.TypeExpression.Descriptor

namespace Eponym

/-- What decides on the base names of a type: the knowledge of types, and what is denied. -/
structure Suggester where
  knowledge : Knowledge
  denied : Denied

namespace Suggester

/-! ## Candidates of one type -/

/-- The base names that the members of a lineage suggest. -/
def candidatesFrom (r : Suggester) (members : List TypeName) : List String :=
  let allowed := members.filter fun n => !r.denied.deniesType n.text
  ((allowed.flatMap TypeName.baseNames).filter fun b => !r.denied.deniesBase b).eraseDups

/-- The base names that a named type suggests through its lineage. -/
def candidatesOf (r : Suggester) (n : TypeName) : List String :=
  r.candidatesFrom (r.knowledge.lineage n).members

/-- A base name is suggested if it is not denied, and belongs to a type of the lineage
that is not denied. -/
theorem mem_candidatesOf {r : Suggester} {n : TypeName} {b : String} :
    b ∈ r.candidatesOf n ↔ r.denied.deniesBase b = false ∧
      ∃ m ∈ (r.knowledge.lineage n).members,
        r.denied.deniesType m.text = false ∧ b ∈ m.baseNames := by
  simp only [candidatesOf, candidatesFrom, List.mem_eraseDups, List.mem_filter, List.mem_flatMap,
    Bool.not_eq_true']
  constructor
  · rintro ⟨⟨m, ⟨hm, hd⟩, hb⟩, h⟩
    exact ⟨h, m, hm, hd, hb⟩
  · rintro ⟨h, m, hm, hd, hb⟩
    exact ⟨⟨m, ⟨hm, hd⟩, hb⟩, h⟩

/-! ## Candidates of a descriptor -/

/-- Whether a named member places no constraint on an identifier. -/
def excludes (r : Suggester) (t : NamedType) : Bool :=
  t.builtin || r.denied.deniesType t.name.text

/-- The named members of a descriptor that may constrain an identifier. -/
def constraining (r : Suggester) (d : Descriptor) : List NamedType :=
  d.namedMembers.filter fun t => !r.excludes t

/-- The base names that a descriptor suggests. -/
def suggest (r : Suggester) (d : Descriptor) : List String :=
  ((r.constraining d).flatMap fun t => r.candidatesOf t.name).eraseDups

theorem mem_suggest {r : Suggester} {d : Descriptor} {b : String} :
    b ∈ r.suggest d ↔ ∃ t ∈ r.constraining d, b ∈ r.candidatesOf t.name := by
  simp [suggest]

/-! ## Base names of interfaces -/

/-- The base names of an interface that are not denied, each with the short name of the
interface; none for what is no interface or belongs to the runtime. -/
def bareNames (r : Suggester) : Option Reflection → List (String × String)
  | none => []
  | some reflection =>
    if reflection.builtin || !reflection.isInterface then []
    else ((baseNamesOf reflection.name).filter fun b => !r.denied.deniesBase b).map
      fun b => (b, shortName reflection.name)

/-- The base names of the interfaces among the named members, each with the short name of
the first interface that has it. -/
def interfaceBaseNames (r : Suggester) (d : Descriptor) : List (String × String) :=
  distinctBy Prod.fst
    ((r.constraining d).flatMap fun t => r.bareNames (r.knowledge.reflect t.name.text))

end Suggester

end Eponym
