/-
# Checking subjects

A linter checks subjects against the conventions that its configuration names.
An assigned name is checked against its type and, if the type is iterable, against
what it yields; a property against its type only; an element of a loop against the
iterable.
-/
import Eponym.Configuration
import Eponym.Convention.CollectionName
import Eponym.Convention.ElementName
import Eponym.Convention.TypedName
import Eponym.Lint.Report
import Eponym.Lint.Subject

namespace Eponym

/-- A valid configuration and the knowledge of types. -/
structure Linter where
  config : NamingConfig
  knowledge : Knowledge

namespace Linter

/-- The linter of a configuration, if that is valid. -/
def ofConfig (config : NamingConfig) (knowledge : Knowledge) : Except Fault Linter :=
  config.validated.map fun c => ⟨c, knowledge⟩

/-- What decides on base names. -/
def suggester (e : Linter) : Suggester := ⟨e.knowledge, e.config.denied⟩

section Check

variable {m : Type → Type} [Monad m]

/-- The result of a check that may be switched off. -/
def when (enabled : Bool) (found : m (List Violation)) : m (List Violation) :=
  if enabled then found else return []

/-- The violations of one subject, with base names from the given source. -/
def checkWith (e : Linter) (source : Source m) : Subject → m (List Violation)
  | .typed .property name type line =>
    when e.config.toggles.typeSuffix <|
      TypedName.check source e.config.bareNameCheck name type line
  | .typed _ name type line => do
    let suffix ← when e.config.toggles.typeSuffix <|
      TypedName.check source e.config.bareNameCheck name type line
    let plural ← when e.config.toggles.iterablePlural <|
      CollectionName.check source name type line
    return suffix ++ plural
  | .promotedProperty name type declared line =>
    when e.config.toggles.typeSuffix <|
      TypedName.checkNarrowed source e.config.bareNameCheck name type declared line
  | .foreachValue name iterable type line =>
    when e.config.toggles.foreachValue <| ElementName.check source name iterable type line

/-- The findings on a list of subjects, the first of which has the given place. -/
def findingsWith (e : Linter) (source : Source m) (index : Nat) :
    List Subject → m (List Finding)
  | [] => return []
  | s :: ss => do
    let found ← e.checkWith source s
    let rest ← findingsWith e source (index + 1) ss
    return found.map (fun v => ⟨index, s.name, v⟩) ++ rest

/-- The report on a batch of subjects. -/
def reportWith (e : Linter) (source : Source m) (subjects : List Subject) : m Report := do
  return ⟨subjects.length, ← e.findingsWith source 0 subjects⟩

end Check

/-! ## In a session -/

/-- The violations of one subject. -/
def check (e : Linter) (s : Subject) : StateM Session (List Violation) :=
  e.checkWith (Session.source e.suggester) s

/-- The report on a batch of subjects. -/
def checkAll (e : Linter) (subjects : List Subject) : StateM Session Report :=
  e.reportWith (Session.source e.suggester) subjects

/-- The base names that a type suggests, in alphabetical order. -/
def candidates (e : Linter) (d : Descriptor) : StateM Session (List String) :=
  return sorted (← Session.suggest e.suggester d)

/-- The base names of the interfaces named by a type. -/
def interfaceBaseNames (e : Linter) (d : Descriptor) :
    StateM Session (List (String × String)) :=
  Session.interfaceBaseNames e.suggester d

/-- The violations of a name under the convention about types, whatever is switched off. -/
def checkName (e : Linter) (name : String) (d : Descriptor) (line : Option UInt64) :
    StateM Session (List Violation) :=
  TypedName.check (Session.source e.suggester) e.config.bareNameCheck name d line

end Linter

end Eponym
