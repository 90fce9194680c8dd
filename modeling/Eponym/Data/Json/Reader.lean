/-
# Reading JSON

Exactly the texts of the standard are read; there is nothing after the value but
white space.  A part can be well-formed and still have no value: a text with half a
character in it, a number that is too large, or a container too far inside others.
-/
import Eponym.Data.Scalar

namespace Eponym.Data.Json

/-! ## White space and texts -/

/-- Whether a character is white space between signs. -/
def isSpace (c : Char) : Bool := c = ' ' || c = '\t' || c = '\n' || c = '\r'

/-- The text without the white space at its head. -/
def skipSpace (s : List Char) : List Char := s.dropWhile isSpace

/-- The character that a letter after a backslash stands for. -/
def escaped? : Char → Option Char
  | '"' => some '"'
  | '\\' => some '\\'
  | '/' => some '/'
  | 'b' => some '\x08'
  | 'f' => some '\x0c'
  | 'n' => some '\n'
  | 'r' => some '\r'
  | 't' => some '\t'
  | _ => none

/-- Whether a unit of sixteen bits is the first half of a character. -/
def isHighHalf (u : Nat) : Bool := 0xD800 ≤ u && u < 0xDC00

/-- Whether a unit of sixteen bits is the second half of a character. -/
def isLowHalf (u : Nat) : Bool := 0xDC00 ≤ u && u < 0xE000

/-- The character whose two halves are given. -/
def joinHalves (high low : Nat) : Char :=
  Char.ofNat (0x10000 + (high - 0xD800) * 0x400 + (low - 0xDC00))

/-- A text, in reverse, with one more character, unless a half or the text is broken. -/
def extend (done : Option (List Char)) (half : Option Nat) (c : Char) : Option (List Char) :=
  if half.isSome then none else done.map (c :: ·)

/-- Reads a text up to the closing quote.  What has been read is given in reverse, unless
it has half a character in it, with the first half of one that waits for its second. -/
def readText (done : Option (List Char)) (half : Option Nat) :
    List Char → Option (Option (List Char) × List Char)
  | [] => none
  | '"' :: r => some (if half.isSome then none else done.map List.reverse, r)
  | '\\' :: 'u' :: a :: b :: c :: d :: r =>
    match digitsValue? 16 [a, b, c, d], half with
    | none, _ => none
    | some u, some h =>
      if isLowHalf u then readText (done.map (joinHalves h u :: ·)) none r
      else readText none none r
    | some u, none =>
      if isHighHalf u then readText done (some u) r
      else if isLowHalf u then readText none none r
      else readText (extend done none (Char.ofNat u)) none r
  | '\\' :: e :: r =>
    match escaped? e with
    | some c => readText (extend done half c) none r
    | none => none
  | c :: r => if c < ' ' then none else readText (extend done half c) none r

/-- Whether a character stands for itself in a text. -/
def isVerbatim (c : Char) : Bool := c ≠ '"' && c ≠ '\\' && ' ' ≤ c

/-- The value of a text, which has none if it is broken. -/
def textValue : Option (List Char) → Value
  | some s => .text (String.ofList s)
  | none => .unreadable

/-! ## Numbers -/

/-- The digits at the head, at least one. -/
def readDigits (s : List Char) : Option (List Char × List Char) :=
  match s.takeWhile Char.isDigit with
  | [] => none
  | ds => some (ds, s.dropWhile Char.isDigit)

/-- The digits of a whole number, which has no needless zero. -/
def readWhole : List Char → Option (List Char × List Char)
  | '0' :: r => some (['0'], r)
  | s => readDigits s

/-- The fraction at the head, with its point, if there is one. -/
def readFraction : List Char → Option (List Char × List Char)
  | '.' :: r => (readDigits r).map fun (ds, r) => ('.' :: ds, r)
  | s => some ([], s)

/-- The exponent at the head, with its letter and sign, if there is one. -/
def readExponent : List Char → Option (List Char × List Char)
  | c :: r =>
    if c = 'e' ∨ c = 'E' then
      match r with
      | '+' :: r => (readDigits r).map fun (ds, r) => (c :: '+' :: ds, r)
      | '-' :: r => (readDigits r).map fun (ds, r) => (c :: '-' :: ds, r)
      | r => (readDigits r).map fun (ds, r) => (c :: ds, r)
    else some ([], c :: r)
  | [] => some ([], [])

/-- The number that digits write after those of `n`, as long as it fits a machine word,
and how many digits are left. -/
def takeDigits (n : Nat) : List Char → Nat × Nat
  | [] => (n, 0)
  | c :: s =>
    let m := n * 10 + (c.toNat - '0'.toNat)
    if m < wordLimit then takeDigits m s else (n, s.length + 1)

/-- The digits of a decimal that are kept, and its exponent.  Of the whole part the digits
left count for the exponent; of the fraction they are dropped. -/
def significand (whole fraction : List Char) : Nat × Int :=
  let (n, more) := takeDigits 0 whole
  let (m, left) := takeDigits n fraction
  (m, (more : Int) - (fraction.length - left : Nat))

/-- The exponent that the end of a numeral, as it is read, writes. -/
def exponentValue (s : List Char) : Int := (exponent? s).getD 0

/-- Whether a decimal has a finite value, worked out as the product of two rounded numbers. -/
def isInRange (n : Nat) : Int → Bool
  | .negSucc _ => true
  | .ofNat k =>
    n = 0 || (k < 309 && roundToBits 53 n * roundToBits 53 (Text.tenPow k) < finiteLimit)

/-- The number at the head.  Only a numeral of nothing but digits is a natural number. -/
def readNumber (s : List Char) : Option (Value × List Char) := do
  let (sign, r) := match s with
    | '-' :: r => (['-'], r)
    | r => ([], r)
  let (whole, r) ← readWhole r
  let (fraction, r) ← readFraction r
  let (exponent, r) ← readExponent r
  let (n, power) := significand whole (fraction.drop 1)
  if sign = [] ∧ fraction = [] ∧ exponent = [] ∧ power = 0 then some (.natural n, r)
  else if isInRange n (power + exponentValue exponent) then
    some (.number (String.ofList (sign ++ whole ++ fraction ++ exponent)), r)
  else some (.unreadable, r)

/-! ## Values -/

/-- Removes a word from the head of a text. -/
def dropWord (word s : List Char) : Option (List Char) :=
  if word.isPrefixOf s then some (s.drop word.length) else none

/-- A value that is neither object nor list, without white space in front. -/
def readScalar (s : List Char) : Option (Value × List Char) :=
  match s with
  | '"' :: r => (readText (some []) none r).map fun (s, r) => (textValue s, r)
  | 'n' :: _ => (dropWord ['n', 'u', 'l', 'l'] s).map fun r => (.null, r)
  | 't' :: _ => (dropWord ['t', 'r', 'u', 'e'] s).map fun r => (.bool true, r)
  | 'f' :: _ => (dropWord ['f', 'a', 'l', 's', 'e'] s).map fun r => (.bool false, r)
  | _ => readNumber s

section Containers

variable {α : Type}

/-- Reads the entries of a container up to the closing sign, at least one and at most the
given number. -/
def readEntries (close : Char) (entry : List Char → Option (α × List Char)) :
    Nat → List Char → Option (List α × List Char)
  | 0, _ => none
  | n + 1, s => do
    let (a, r) ← entry s
    match skipSpace r with
    | c :: r =>
      if c = close then some ([a], r)
      else if c = ',' then do
        let (as, r) ← readEntries close entry n r
        some (a :: as, r)
      else none
    | [] => none

/-- Reads what is inside a container, after the opening sign. -/
def readInside (close : Char) (entry : List Char → Option (α × List Char)) (n : Nat)
    (s : List Char) : Option (List α × List Char) :=
  match skipSpace s with
  | c :: r => if c = close then some ([], r) else readEntries close entry n s
  | [] => none

/-- Reads an entry of an object: a text, a colon and a value. -/
def readPair (value : List Char → Option (α × List Char)) (s : List Char) :
    Option ((Value × α) × List Char) := do
  match skipSpace s with
  | '"' :: r =>
    let (k, r) ← readText (some []) none r
    match skipSpace r with
    | ':' :: r =>
      let (v, r) ← value r
      some ((textValue k, v), r)
    | _ => none
  | _ => none

end Containers

/-- Reads a value, in which the given number of containers may stand inside one another.
The first number bounds the signs that are read. -/
def readValue : Nat → Nat → List Char → Option (Value × List Char)
  | 0, _, _ => none
  | n + 1, levels, s =>
    match skipSpace s with
    | '[' :: r =>
      (readInside ']' (readValue n (levels - 1)) n r).map
        fun (vs, r) => (.ifLevel levels (.list vs), r)
    | '\x7b' :: r =>
      (readInside '\x7d' (readPair (readValue n (levels - 1))) n r).map
        fun (es, r) => (.ifLevel levels (.ofEntries es), r)
    | r => readScalar r

/-- The value that a text stands for.  Containers that stand inside more than the given
number of others have no value. -/
def readWithin (levels : Nat) (s : String) : Option Value := do
  let (v, r) ← readValue (s.length + 1) levels s.toList
  if skipSpace r = [] then some v else none

/-- How many containers that have a value a file may have inside one another. -/
def levelLimit : Nat := 127

/-- The value that the text of a file stands for. -/
def read (s : String) : Option Value := readWithin levelLimit s

end Eponym.Data.Json
