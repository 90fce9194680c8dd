/-
# Catalogues of declarations

A catalogue holds at most one declaration for each key; the last one registered
counts.  Names are looked up without regard to letter case.

* `lookup_register` : what a catalogue answers after a registration;
* `length_unvisited_lt` : visiting a declared type leaves fewer to visit, which is
  why walks through a catalogue end.
-/
import Eponym.TypeModel.Declaration

namespace Eponym

/-! ## Putting a declaration into a list -/

namespace Declaration

/-- The list with the declaration in the place of the one with its key, or at the end. -/
def put (d : Declaration) : List Declaration → List Declaration
  | [] => [d]
  | e :: es => if e.key = d.key then d :: es else e :: put d es

/-- The keys after putting a declaration: those before, and its own if it was missing. -/
theorem map_key_put (d : Declaration) (es : List Declaration) :
    (put d es).map key =
      if d.key ∈ es.map key then es.map key else es.map key ++ [d.key] := by
  induction es with
  | nil => simp [put]
  | cons e es ih =>
    by_cases h : e.key = d.key
    · simp [put, h]
    · simp only [put, h, if_false, List.map_cons, ih, List.mem_cons, Ne.symm h, false_or]
      split <;> simp

end Declaration

/-! ## Catalogues -/

/-- Declarations with a key each of their own. -/
structure Catalogue where
  declarations : List Declaration
  nodup_keys : (declarations.map Declaration.key).Nodup

namespace Catalogue

/-- The catalogue without declarations. -/
def empty : Catalogue := ⟨[], by simp⟩

/-- The catalogue with the declaration, which replaces an earlier one with its key. -/
def register (r : Catalogue) (d : Declaration) : Catalogue where
  declarations := d.put r.declarations
  nodup_keys := by
    rw [Declaration.map_key_put]
    split
    · exact r.nodup_keys
    · next h => exact List.nodup_append.2 ⟨r.nodup_keys, by simp, by simp_all⟩

/-- The declaration with the given key. -/
def lookup (r : Catalogue) (key : String) : Option Declaration :=
  r.declarations.find? fun d => d.key = key

/-- The declaration of the type with the given name, in any spelling. -/
def declaration? (r : Catalogue) (name : String) : Option Declaration := r.lookup (typeKey name)

/-- The number of declared types. -/
def size (r : Catalogue) : Nat := r.declarations.length

theorem key_of_lookup {r : Catalogue} {k : String} {d : Declaration} (h : r.lookup k = some d) :
    d.key = k := by simpa using List.find?_some h

theorem mem_of_lookup {r : Catalogue} {k : String} {d : Declaration} (h : r.lookup k = some d) :
    d ∈ r.declarations := List.mem_of_find?_eq_some h

/-- A registration changes the answer for one key. -/
theorem lookup_register (r : Catalogue) (d : Declaration) (k : String) :
    (r.register d).lookup k = if d.key = k then some d else r.lookup k := by
  simp only [lookup, register]
  induction r.declarations with
  | nil => by_cases h : d.key = k <;> simp [Declaration.put, h]
  | cons e es ih =>
    by_cases he : e.key = d.key
    · by_cases h : d.key = k
      · simp [Declaration.put, he, h]
      · simp [Declaration.put, he, h]
    · by_cases h : d.key = k
      · subst h; simp [Declaration.put, he, ih]
      · simp only [Declaration.put, he, if_false, List.find?_cons, ih, h]

/-! ## Adding validated declarations -/

/-- Registers declarations one after the other, up to the first with a flaw.  The first
of them has the given place in its list. -/
def extendFrom (index : Nat) (r : Catalogue) : List Declaration → Catalogue × Option Fault
  | [] => (r, none)
  | d :: ds => match d.flaw? with
    | some flaw => (r, some (flaw.fault index))
    | none => extendFrom (index + 1) (r.register d) ds

/-- Registers declarations one after the other, up to the first with a flaw. -/
def extend (r : Catalogue) (ds : List Declaration) : Catalogue × Option Fault := extendFrom 0 r ds

/-- The catalogue with all the declarations, if none has a flaw. -/
def tryExtend (r : Catalogue) (ds : List Declaration) : Except Fault Catalogue :=
  match r.extend ds with
  | (s, none) => .ok s
  | (_, some fault) => .error fault

/-! ## What is left to visit -/

/-- The declarations whose key is not among the visited ones. -/
def unvisited (r : Catalogue) (visited : List String) : List Declaration :=
  r.declarations.filter fun d => d.key ∉ visited

theorem length_unvisited_le (r : Catalogue) (visited : List String) (k : String) :
    (r.unvisited (k :: visited)).length ≤ (r.unvisited visited).length := by
  simp only [unvisited, ← List.countP_eq_length_filter]
  exact List.countP_mono_left fun d _ => by simp +contextual

/-- Visiting a declared type for the first time leaves fewer to visit. -/
theorem length_unvisited_lt {r : Catalogue} {visited : List String} {k : String} {d : Declaration}
    (hd : r.lookup k = some d) (hk : k ∉ visited) :
    (r.unvisited (k :: visited)).length < (r.unvisited visited).length := by
  have hsub : r.unvisited (k :: visited) = (r.unvisited visited).filter fun e => e.key ≠ k := by
    simp only [unvisited, List.filter_filter]
    exact List.filter_congr fun e _ => by simp
  have hm : d ∈ r.unvisited visited := by
    simpa [unvisited, key_of_lookup hd, hk] using mem_of_lookup hd
  rw [hsub]
  exact List.length_filter_lt_length_iff_exists.2 ⟨d, hm, by simp [key_of_lookup hd]⟩

end Catalogue

end Eponym
