/-
# Sessions

A session remembers the lineage and the candidates of every type name that it has
been asked about, and keeps count of what it was asked and had to ask itself.

* `find?_remember` : what a memory answers after an entry is made.
-/
import Eponym.Candidates
import Eponym.Text.FixedPoint

namespace Eponym

/-! ## Memories -/

/-- What has been found for some type names. -/
abbrev Memory (α : Type) := List (TypeName × α)

namespace Memory

variable {α : Type}

/-- What has been found for a name. -/
def find? (m : Memory α) (n : TypeName) : Option α := m.lookup n

/-- The memory with one more entry. -/
def remember (m : Memory α) (n : TypeName) (a : α) : Memory α := (n, a) :: m

theorem find?_remember (m : Memory α) (n k : TypeName) (a : α) :
    (m.remember n a).find? k = if k = n then some a else m.find? k := by
  by_cases h : k = n
  · simp [find?, remember, h]
  · simp [find?, remember, List.lookup_cons, h, beq_eq_false_iff_ne.2 h]

end Memory

/-! ## Sessions -/

/-- What a session remembers, its counts, and the remarks made in its course. -/
structure Session where
  lineages : Memory Lineage
  candidates : Memory (List String)
  hits : Nat
  misses : Nat
  expansions : Nat
  reflections : Nat
  notices : List Notice

namespace Session

/-- The session that has been asked nothing. -/
def new : Session := ⟨[], [], 0, 0, 0, 0, []⟩

/-- Asks what is known of a type. -/
def reflect (o : Knowledge) (name : String) : StateM Session (Option Reflection) := do
  modify fun s =>
    { s with reflections := s.reflections + 1, notices := s.notices ++ o.notices name }
  return o.reflect name

/-- The lineage of a type, worked out the first time its name is met. -/
def expand (o : Knowledge) (n : TypeName) : StateM Session Lineage := do
  match (← get).lineages.find? n with
  | some lineage => return lineage
  | none =>
    let lineage := lineageOf n (← reflect o n.text)
    modify fun s =>
      { s with expansions := s.expansions + 1, lineages := s.lineages.remember n lineage }
    return lineage

/-- The candidates of a named type, worked out the first time its name is met. -/
def candidatesOf (r : Suggester) (n : TypeName) : StateM Session (List String) := do
  match (← get).candidates.find? n with
  | some found =>
    modify fun s => { s with hits := s.hits + 1 }
    return found
  | none =>
    modify fun s => { s with misses := s.misses + 1 }
    let found := r.candidatesFrom (← expand r.knowledge n).members
    modify fun s => { s with candidates := s.candidates.remember n found }
    return found

/-- The base names that a descriptor suggests. -/
def suggest (r : Suggester) (d : Descriptor) : StateM Session (List String) := do
  let found ← (r.constraining d).mapM fun t => candidatesOf r t.name
  return found.flatten.eraseDups

/-- The base names of the interfaces among the named members of a descriptor. -/
def interfaceBaseNames (r : Suggester) (d : Descriptor) :
    StateM Session (List (String × String)) := do
  let found ← (r.constraining d).mapM fun t => do
    return r.bareNames (← reflect r.knowledge t.name.text)
  return distinctBy Prod.fst found.flatten

/-- The share of the questions for candidates that the memory answered, as a number of
answers out of a number of questions; none out of one before the first question. -/
def hitRate (s : Session) : Nat × Nat :=
  if s.hits + s.misses = 0 then (0, 1) else (s.hits, s.hits + s.misses)

/-- The share of answered questions as a number with six decimals. -/
def hitRateText (s : Session) : String := Text.ratio 6 s.hitRate.1 s.hitRate.2

end Session

/-! ## Sources of base names -/

/-- Where a convention gets the base names of a type from. -/
structure Source (m : Type → Type) where
  candidates : Descriptor → m (List String)
  interfaceBaseNames : Descriptor → m (List (String × String))

/-- The base names worked out afresh each time. -/
def Suggester.source (r : Suggester) : Source Id := ⟨r.suggest, r.interfaceBaseNames⟩

/-- The base names as a session remembers them. -/
def Session.source (r : Suggester) : Source (StateM Session) :=
  ⟨Session.suggest r, Session.interfaceBaseNames r⟩

end Eponym
