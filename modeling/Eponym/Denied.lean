/-
# Deny lists

Two sets of names that are left out of account: types that do not constrain an
identifier, and base names that are never suggested.  Letter case does not matter
in either, nor does a leading separator in a type name.

* `mem_foldedSet` : a name is denied exactly when an entry has the same form;
* `length_foldedSet_add_repeated` : each entry is either counted or remarked on.
-/
import Eponym.FirstSeen
import Eponym.Notice
import Eponym.Text.Lowercase

namespace Eponym

/-! ## Names compared without regard to case -/

/-- The form under which type names are the same: no leading separator, small letters. -/
def typeKey (name : String) : String :=
  Text.lowercase (TypeName.ofString name).text

/-- The key of a type name. -/
def TypeName.key (n : TypeName) : String := typeKey n.text

theorem TypeName.key_eq (n : TypeName) : n.key = Text.lowercase n.text := by
  simp [key, typeKey]

@[simp] theorem TypeName.key_ofString (s : String) : (ofString s).key = typeKey s := by
  simp [key, typeKey]

/-! ## Sets of names -/

/-- The forms of the entries, each once. -/
def foldedSet (fold : String → String) (entries : List String) : List String :=
  (entries.map fold).eraseDups

@[simp] theorem mem_foldedSet {fold : String → String} {entries : List String} {k : String} :
    k ∈ foldedSet fold entries ↔ ∃ e ∈ entries, fold e = k := by
  simp [foldedSet]

/-- The entries whose form an entry before them, or a name already seen, has. -/
def repeatedEntries (fold : String → String) (seen : List String) : List String → List String
  | [] => []
  | e :: es =>
    if fold e ∈ seen then e :: repeatedEntries fold seen es
    else repeatedEntries fold (fold e :: seen) es

/-- With some names seen, the entries divide into new forms and repeated ones. -/
theorem length_filter_add_repeated (fold : String → String) (seen entries : List String) :
    ((foldedSet fold entries).filter fun k => k ∉ seen).length +
      (repeatedEntries fold seen entries).length = entries.length := by
  induction entries generalizing seen with
  | nil => rfl
  | cons e es ih =>
    by_cases h : fold e ∈ seen
    · rw [repeatedEntries, if_pos h, List.length_cons, List.length_cons, ← ih seen]
      have : ((foldedSet fold (e :: es)).filter fun k => k ∉ seen) =
          (foldedSet fold es).filter fun k => k ∉ seen := by
        simp only [foldedSet, eraseDups_cons_filter, List.map_cons, List.filter_cons, h,
          not_true_eq_false, decide_false, Bool.false_eq_true, if_false, List.filter_filter]
        refine List.filter_congr fun k _ => ?_
        by_cases hk : k = fold e <;> simp [hk, h]
      rw [this]; omega
    · rw [repeatedEntries, if_neg h, List.length_cons, ← ih (fold e :: seen)]
      have : ((foldedSet fold (e :: es)).filter fun k => k ∉ seen) =
          fold e :: (foldedSet fold es).filter fun k => k ∉ fold e :: seen := by
        simp only [foldedSet, eraseDups_cons_filter, List.map_cons, List.filter_cons, h,
          not_false_eq_true, decide_true, if_true, List.filter_filter]
        congr 1
        refine List.filter_congr fun k _ => ?_
        simp [List.mem_cons, not_or, Bool.and_comm]
      rw [this, List.length_cons]; omega

/-- Each entry is either counted as a form of its own or repeats one. -/
theorem length_foldedSet_add_repeated (fold : String → String) (entries : List String) :
    (foldedSet fold entries).length + (repeatedEntries fold [] entries).length =
      entries.length := by
  simpa [List.filter_eq_self.2] using length_filter_add_repeated fold [] entries

/-! ## The two sets -/

/-- The names that are left out of account, in the form in which they are compared. -/
structure Denied where
  typeKeys : List String
  baseNames : List String

namespace Denied

/-- The deny list of the given entries. -/
def ofEntries (types bases : List String) : Denied where
  typeKeys := foldedSet typeKey types
  baseNames := foldedSet Text.lowercase bases

/-- The remarks on the entries of a deny list: those that repeat others, types first.
A type name is given without leading separators. -/
def notices (types bases : List String) : List Notice :=
  (repeatedEntries typeKey [] types).map
      (fun name => .repeatedTypeName (TypeName.ofString name).text) ++
    (repeatedEntries Text.lowercase [] bases).map .repeatedBaseName

/-- Whether a type of this name is denied. -/
def deniesType (d : Denied) (name : String) : Bool := d.typeKeys.contains (typeKey name)

/-- Whether the base name is denied. -/
def deniesBase (d : Denied) (name : String) : Bool :=
  d.baseNames.contains (Text.lowercase name)

/-- A type is denied in any spelling. -/
theorem deniesType_congr {d : Denied} {s t : String} (h : typeKey s = typeKey t) :
    d.deniesType s = d.deniesType t := by
  rw [deniesType, deniesType, h]

theorem deniesType_ofEntries {types bases : List String} {name : String} :
    (ofEntries types bases).deniesType name = true ↔ ∃ e ∈ types, typeKey e = typeKey name := by
  simp [ofEntries, deniesType]

theorem deniesBase_ofEntries {types bases : List String} {name : String} :
    (ofEntries types bases).deniesBase name = true ↔
      ∃ e ∈ bases, Text.lowercase e = Text.lowercase name := by
  simp [ofEntries, deniesBase]

end Denied

end Eponym
