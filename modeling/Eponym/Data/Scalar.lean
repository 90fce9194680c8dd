/-
# Plain scalars

What a scalar without quotes stands for where nothing particular is expected: nothing,
a truth value, a number, or else its own text.  A number that is too large for a whole
number and too large for a finite one is a text.

* `ofEntries_text` : a mapping whose keys are texts is an object;
* `resolve_text`, `resolve_natural` : only plain scalars are changed.
-/
import Eponym.Data.Magnitude
import Eponym.Data.Value

namespace Eponym.Data

/-! ## Digits -/

/-- The value of a digit in a base up to sixteen. -/
def digitValue? (base : Nat) (c : Char) : Option Nat :=
  let n :=
    if c.isDigit then c.toNat - '0'.toNat
    else if 'a' ≤ c ∧ c ≤ 'f' then c.toNat - 'a'.toNat + 10
    else if 'A' ≤ c ∧ c ≤ 'F' then c.toNat - 'A'.toNat + 10
    else base
  if n < base then some n else none

/-- The number that digits in a base write, if there are any. -/
def digitsValue? (base : Nat) : List Char → Option Nat
  | [] => none
  | cs => cs.foldlM (fun n c => (digitValue? base c).map (n * base + ·)) 0

/-! ## Numerals -/

/-- Whether there is a minus sign, and the text without a sign in front. -/
def splitSign : List Char → Bool × List Char
  | '-' :: s => (true, s)
  | '+' :: s => (false, s)
  | s => (false, s)

/-- Whether a numeral without its sign is all digits and starts with a needless zero. -/
def hasNeedlessZero (s : List Char) : Bool :=
  s.head? = some '0' && 1 < s.length && s.all Char.isDigit

/-- The whole number that a numeral without its sign writes, in the base it announces. -/
def wholeNumber? : List Char → Option Nat
  | '0' :: 'x' :: s => digitsValue? 16 s
  | '0' :: 'o' :: s => digitsValue? 8 s
  | '0' :: 'b' :: s => digitsValue? 2 s
  | s => digitsValue? 10 s

/-- The exponent that the end of a numeral writes, which is zero if there is none. -/
def exponent? : List Char → Option Int
  | [] => some 0
  | c :: s =>
    let (negative, digits) := splitSign s
    if c = 'e' ∨ c = 'E' then
      (digitsValue? 10 digits).map fun n => if negative then -(n : Int) else n
    else none

/-- The digits and the exponent of a decimal numeral without its sign. -/
def decimal? (s : List Char) : Option (Nat × Int) :=
  let (whole, r) := (s.takeWhile Char.isDigit, s.dropWhile Char.isDigit)
  let (fraction, r) := match r with
    | '.' :: r => (r.takeWhile Char.isDigit, r.dropWhile Char.isDigit)
    | r => ([], r)
  match digitsValue? 10 (whole ++ fraction), exponent? r with
  | some d, some e => some (d, e - fraction.length)
  | _, _ => none

/-! ## Plain scalars -/

/-- The words that stand for nothing. -/
def nullWords : List String := ["", "null", "Null", "NULL", "~"]

/-- The truth value that a plain scalar may stand for. -/
def plainBool? (raw : String) : Option Bool :=
  if ["true", "True", "TRUE"].contains raw then some true
  else if ["false", "False", "FALSE"].contains raw then some false
  else none

/-- The names of the numbers that are not finite. -/
def unboundedNames : List String :=
  [".inf", ".Inf", ".INF", "+.inf", "+.Inf", "+.INF", "-.inf", "-.Inf", "-.INF", ".nan", ".NaN",
    ".NAN"]

/-- What a plain scalar that writes a whole number stands for.  One that takes more than a
machine word, but not more than two, has no value. -/
def wholeValue? (raw : String) (negative : Bool) (n : Nat) : Option Value :=
  if negative then
    if n = 0 then some (.natural 0)
    else if n ≤ Text.twoPow 63 then some (.number raw)
    else if n ≤ Text.twoPow 127 then some .unreadable
    else none
  else if n < wordLimit then some (.natural n)
  else if n < wordLimit * wordLimit then some .unreadable
  else none

/-- What a plain scalar that is no word stands for. -/
def resolveNumeral (raw : String) : Value :=
  let (negative, s) := splitSign raw.toList
  if hasNeedlessZero s then .text raw
  else match (wholeNumber? s).bind (wholeValue? raw negative) with
    | some v => v
    | none => match decimal? s with
      | some (d, e) => if isFinite d e then .number raw else .text raw
      | none => .text raw

/-- What a plain scalar stands for where nothing particular is expected. -/
def resolvePlain (raw : String) : Value :=
  if nullWords.contains raw then .null
  else if unboundedNames.contains raw then .number raw
  else match plainBool? raw with
    | some b => .bool b
    | none => resolveNumeral raw

/-! ## Resolution -/

namespace Value

mutual

/-- The data with every plain scalar replaced by what it stands for. -/
def resolve : Value → Value
  | plain raw => resolvePlain raw
  | list items => list (resolveItems items)
  | object entries => object (resolveEntries entries)
  | mapping entries => mapping (resolvePairs entries)
  | null => null
  | bool b => bool b
  | natural n => natural n
  | number s => number s
  | text s => text s
  | unreadable => unreadable

/-- Several pieces of data with their plain scalars replaced. -/
def resolveItems : List Value → List Value
  | [] => []
  | v :: vs => v.resolve :: resolveItems vs

/-- The entries of an object with their plain scalars replaced. -/
def resolveEntries : List (String × Value) → List (String × Value)
  | [] => []
  | (k, v) :: es => (k, v.resolve) :: resolveEntries es

/-- The entries of a mapping with their plain scalars replaced. -/
def resolvePairs : List (Value × Value) → List (Value × Value)
  | [] => []
  | (k, v) :: es => (k.resolve, v.resolve) :: resolvePairs es

end

@[simp] theorem resolve_text (s : String) : (text s).resolve = text s := by simp [resolve]

@[simp] theorem resolve_natural (n : Nat) : (natural n).resolve = natural n := by simp [resolve]

/-! ## Keys -/

/-- The text that a key is, be a text expected or not. -/
def keyText? (v : Value) : Option String :=
  match v.resolve with
  | text s => some s
  | _ => none

/-- The data with the given entries. -/
def ofEntries (es : List (Value × Value)) : Value :=
  match es.mapM fun e => (keyText? e.1).map (·, e.2) with
  | some entries => object entries
  | none => mapping es

@[simp] theorem keyText?_text (s : String) : keyText? (text s) = some s := by simp [keyText?]

/-- Entries with texts as keys make an object. -/
theorem ofEntries_text (es : List (String × Value)) :
    ofEntries (es.map fun e => (text e.1, e.2)) = object es := by
  have h : (es.map fun e => (text e.1, e.2)).mapM (fun e => (keyText? e.1).map (·, e.2))
      = some es := by
    rw [List.mapM_map]
    induction es with
    | nil => rfl
    | cons e es ih => simp [ih]
  simp only [ofEntries, h]

end Value

end Eponym.Data
