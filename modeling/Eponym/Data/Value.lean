/-
# Data

A tree of data as it stands in a file or a request.  JSON says of each scalar what
it is.  A plain scalar of YAML is whatever the reader expects, and `plain` keeps its
text.  A part that cannot be read may still be passed over, so it is in the tree too.

* `isSound_object` : an object is sound if everything in it is.
-/

namespace Eponym.Data

/-- A tree of data.  Entries of an object keep their order, and may repeat a key. -/
inductive Value where
  | null
  | bool (b : Bool)
  | natural (n : Nat)
  /-- A number that is no natural number below `2 ^ 64`. -/
  | number (numeral : String)
  | text (s : String)
  /-- A scalar without quotes, whose type depends on what is expected. -/
  | plain (raw : String)
  | list (items : List Value)
  | object (entries : List (String × Value))
  /-- Entries of which at least one has a key that is no text. -/
  | mapping (entries : List (Value × Value))
  /-- A part without a value, such as a number that is too large. -/
  | unreadable

instance : Inhabited Value := ⟨.null⟩

namespace Value

/-- A container inside others, which has no value if no level is left for it. -/
def ifLevel (levels : Nat) (v : Value) : Value := if levels = 0 then unreadable else v

mutual

/-- Whether every part of the data has a value. -/
def isSound : Value → Bool
  | unreadable => false
  | list items => areSound items
  | object entries => entriesSound entries
  | mapping entries => pairsSound entries
  | null | bool _ | natural _ | number _ | text _ | plain _ => true

/-- Whether every part of several pieces of data has a value. -/
def areSound : List Value → Bool
  | [] => true
  | v :: vs => isSound v && areSound vs

/-- Whether every part of the entries of an object has a value. -/
def entriesSound : List (String × Value) → Bool
  | [] => true
  | (_, v) :: es => isSound v && entriesSound es

/-- Whether every part of the entries of a mapping has a value. -/
def pairsSound : List (Value × Value) → Bool
  | [] => true
  | (k, v) :: es => isSound k && isSound v && pairsSound es

end

theorem isSound_object (es : List (String × Value)) :
    isSound (object es) = es.all fun e => isSound e.2 := by
  simp only [isSound]
  induction es with
  | nil => rfl
  | cons e es ih => simp [entriesSound, ih]

end Value

end Eponym.Data
