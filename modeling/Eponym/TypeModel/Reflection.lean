/-
# Reflection

What a catalogue knows of a type: its parent classes, nearest first, and all its
interfaces.  Parents are found by following the first `extends` entry; the walk
ends at an undeclared type, or in front of a type it has met.  Interfaces are
found by a search in depth, each reported when it is first met.

* `climb_of_visited`, `reach_cons_of_visited` : what has been met is not met again.
-/
import Eponym.TypeModel.Catalogue

namespace Eponym

/-- A parent or interface of a type. -/
structure ReflectedType where
  name : String
  builtin : Bool
  deriving DecidableEq

/-- What is known of a type: its declared name, its parents and its interfaces. -/
structure Reflection where
  name : String
  kind : Kind
  builtin : Bool
  parents : List ReflectedType
  interfaces : List ReflectedType
  deriving DecidableEq

namespace Reflection

/-- Whether the type is an interface. -/
def isInterface (r : Reflection) : Bool := r.kind = .interface

end Reflection

namespace Catalogue

/-! ## References -/

/-- The type that a reference stands for: as declared, or else as referred to. -/
def reflected (r : Catalogue) (reference : TypeName) : ReflectedType :=
  match r.lookup reference.key with
  | some d => ⟨d.name.text, d.builtin⟩
  | none => ⟨reference.text, false⟩

/-! ## Parents -/

/-- The references to parents from a declaration upwards, and the reference at which
the walk meets a visited type, if it does. -/
def climb (r : Catalogue) (visited : List String) (d : Declaration) :
    List TypeName × Option TypeName :=
  match d.extended with
  | [] => ([], none)
  | parent :: _ =>
    if _hv : parent.key ∈ visited then ([], some parent)
    else match _hd : r.lookup parent.key with
      | none => ([parent], none)
      | some p =>
        let above := climb r (parent.key :: visited) p
        (parent :: above.1, above.2)
termination_by (r.unvisited visited).length
decreasing_by exact length_unvisited_lt _hd _hv

/-- A declaration that extends nothing has no parents. -/
theorem climb_of_nil {r : Catalogue} {visited : List String} {d : Declaration}
    (h : d.extended = []) : r.climb visited d = ([], none) := by
  rw [climb, h]

/-- The walk ends in front of a parent that has been met. -/
theorem climb_of_visited {r : Catalogue} {visited : List String} {d : Declaration}
    {parent : TypeName} {others : List TypeName} (h : d.extended = parent :: others)
    (hv : parent.key ∈ visited) : r.climb visited d = ([], some parent) := by
  rw [climb, h]; simp [hv]

/-- The walk ends at an undeclared parent. -/
theorem climb_of_undeclared {r : Catalogue} {visited : List String} {d : Declaration}
    {parent : TypeName} {others : List TypeName} (h : d.extended = parent :: others)
    (hv : parent.key ∉ visited) (hd : r.lookup parent.key = none) :
    r.climb visited d = ([parent], none) := by
  rw [climb, h]
  simp only [hv, dite_false]
  split <;> simp_all

/-- The walk goes on from a declared parent. -/
theorem climb_of_declared {r : Catalogue} {visited : List String} {d p : Declaration}
    {parent : TypeName} {others : List TypeName} (h : d.extended = parent :: others)
    (hv : parent.key ∉ visited) (hd : r.lookup parent.key = some p) :
    r.climb visited d =
      (parent :: (r.climb (parent.key :: visited) p).1,
        (r.climb (parent.key :: visited) p).2) := by
  rw [climb, h]
  simp only [hv, dite_false]
  split <;> simp_all

/-- The references to the parents of a class, and the reference that closes a cycle. -/
def ancestry (r : Catalogue) (d : Declaration) : List TypeName × Option TypeName :=
  if d.kind = .plainClass then r.climb [d.key] d else ([], none)

/-! ## Interfaces -/

/-- The references met by a search in depth from the given ones through `extends`
entries, no key twice and no visited key. -/
def reach (r : Catalogue) (visited : List String) (pending : List TypeName) : List TypeName :=
  match pending with
  | [] => []
  | n :: ns =>
    if _hv : n.key ∈ visited then reach r visited ns
    else match _hd : r.lookup n.key with
      | none => n :: reach r (n.key :: visited) ns
      | some d => n :: reach r (n.key :: visited) (d.extended ++ ns)
termination_by ((r.unvisited visited).length, pending.length)
decreasing_by
  · exact Prod.Lex.right _ (by simp)
  · rcases Nat.lt_or_eq_of_le (length_unvisited_le r visited n.key) with h | h
    · exact Prod.Lex.left _ _ h
    · rw [h]; exact Prod.Lex.right _ (by simp)
  · exact Prod.Lex.left _ _ (length_unvisited_lt _hd _hv)

@[simp] theorem reach_nil (r : Catalogue) (visited : List String) : r.reach visited [] = [] := by
  rw [reach]

/-- A reference to a visited type is passed over. -/
theorem reach_cons_of_visited {r : Catalogue} {visited : List String} {n : TypeName}
    {ns : List TypeName} (hv : n.key ∈ visited) :
    r.reach visited (n :: ns) = r.reach visited ns := by
  rw [reach]; simp [hv]

/-- An undeclared type leads nowhere. -/
theorem reach_cons_of_undeclared {r : Catalogue} {visited : List String} {n : TypeName}
    {ns : List TypeName} (hv : n.key ∉ visited) (hd : r.lookup n.key = none) :
    r.reach visited (n :: ns) = n :: r.reach (n.key :: visited) ns := by
  rw [reach]
  simp only [hv, dite_false]
  split <;> simp_all

/-- A declared type leads to the types it extends. -/
theorem reach_cons_of_declared {r : Catalogue} {visited : List String} {n : TypeName}
    {ns : List TypeName} {d : Declaration} (hv : n.key ∉ visited)
    (hd : r.lookup n.key = some d) :
    r.reach visited (n :: ns) = n :: r.reach (n.key :: visited) (d.extended ++ ns) := by
  rw [reach]
  simp only [hv, dite_false]
  split <;> simp_all

/-- The references that the search for interfaces starts from.  A class starts from
what it implements and from what its declared parents do. -/
def roots (r : Catalogue) (d : Declaration) : List TypeName :=
  match d.kind with
  | .interface => d.extended
  | .plainClass =>
    d.implemented ++ (r.ancestry d).1.flatMap fun n =>
      match r.lookup n.key with
      | some p => p.implemented
      | none => []
  | .enum => d.implemented
  | .trait => []

/-! ## The whole picture -/

/-- What the catalogue knows of a declared type. -/
def reflection (r : Catalogue) (d : Declaration) : Reflection where
  name := d.name.text
  kind := d.kind
  builtin := d.builtin
  parents := (r.ancestry d).1.map r.reflected
  interfaces := (r.reach [d.key] (r.roots d)).map r.reflected

/-- What the catalogue knows of the type with the given name. -/
def reflect (r : Catalogue) (name : String) : Option Reflection :=
  (r.declaration? name).map r.reflection

/-- The remarks that reflecting on the type with the given name gives rise to. -/
def reflectNotices (r : Catalogue) (name : String) : List Notice :=
  match r.declaration? name with
  | none => []
  | some d => match (r.ancestry d).2 with
    | none => []
    | some parent => [.cyclicHierarchy parent]

end Catalogue

/-! ## Knowledge of types -/

/-- Where knowledge of types comes from: what is known of the type with a given name, and the
remarks that asking for it gives rise to. -/
structure Knowledge where
  reflect : String → Option Reflection
  notices : String → List Notice

namespace Knowledge

/-- What a catalogue knows. -/
def catalogue (r : Catalogue) : Knowledge := ⟨r.reflect, r.reflectNotices⟩

/-- Knowledge of no type. -/
def nothing : Knowledge := ⟨fun _ => none, fun _ => []⟩

end Knowledge

end Eponym
