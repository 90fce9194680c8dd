/-
# Writing JSON

Data is written on one line, or with every entry on a line of its own, two more
spaces in for each container.  A part without a value is written as null.
-/
import Eponym.Data.Json.Reader

namespace Eponym.Data.Json

/-! ## Texts -/

/-- The hexadecimal digit of a value below sixteen. -/
def hexDigit (n : Nat) : Char := if n < 10 then Char.ofNat (48 + n) else Char.ofNat (87 + n)

/-- How a character is written in a text. -/
def escape (c : Char) : List Char :=
  if c = '"' then ['\\', '"']
  else if c = '\\' then ['\\', '\\']
  else if c = '\x08' then ['\\', 'b']
  else if c = '\x0c' then ['\\', 'f']
  else if c = '\n' then ['\\', 'n']
  else if c = '\r' then ['\\', 'r']
  else if c = '\t' then ['\\', 't']
  else if c < ' ' then ['\\', 'u', '0', '0', hexDigit (c.toNat / 16), hexDigit (c.toNat % 16)]
  else [c]

/-- A text in quotes. -/
def quote (s : String) : String := String.ofList ('"' :: s.toList.flatMap escape ++ ['"'])

/-! ## On one line -/

/-- Texts with a separator between them, in a pair of signs. -/
def enclosed (opening close : String) (parts : List String) : String :=
  opening ++ ",".intercalate parts ++ close

mutual

/-- The data on one line. -/
def write : Value → String
  | .null | .unreadable => "null"
  | .bool b => if b then "true" else "false"
  | .natural n => toString n
  | .number numeral => numeral
  | .text s | .plain s => quote s
  | .list items => enclosed "[" "]" (writeItems items)
  | .object entries => enclosed "\x7b" "\x7d" (writeEntries entries)
  | .mapping entries => enclosed "\x7b" "\x7d" (writePairs entries)

/-- Several pieces of data, each on one line. -/
def writeItems : List Value → List String
  | [] => []
  | v :: vs => write v :: writeItems vs

/-- The entries of an object, each on one line. -/
def writeEntries : List (String × Value) → List String
  | [] => []
  | (k, v) :: es => (quote k ++ ":" ++ write v) :: writeEntries es

/-- The entries of a mapping, each on one line. -/
def writePairs : List (Value × Value) → List String
  | [] => []
  | (k, v) :: es => (write k ++ ":" ++ write v) :: writePairs es

end

/-! ## On several lines -/

/-- A line break and the spaces at the given depth. -/
def lineBreak (depth : Nat) : String := "\n" ++ String.ofList (List.replicate (2 * depth) ' ')

/-- Texts on lines of their own at the given depth, in a pair of signs. -/
def stacked (depth : Nat) (opening close : String) : List String → String
  | [] => opening ++ close
  | parts =>
    opening ++ lineBreak (depth + 1) ++ ("," ++ lineBreak (depth + 1)).intercalate parts ++
      lineBreak depth ++ close

mutual

/-- The data with a line for each entry, standing at the given depth. -/
def writeLines (depth : Nat) : Value → String
  | .list items => stacked depth "[" "]" (itemLines (depth + 1) items)
  | .object entries => stacked depth "\x7b" "\x7d" (entryLines (depth + 1) entries)
  | .mapping entries => stacked depth "\x7b" "\x7d" (pairLines (depth + 1) entries)
  | .null => write .null
  | .bool b => write (.bool b)
  | .natural n => write (.natural n)
  | .number numeral => write (.number numeral)
  | .text s => write (.text s)
  | .plain s => write (.plain s)
  | .unreadable => write .unreadable

/-- Several pieces of data at the given depth. -/
def itemLines (depth : Nat) : List Value → List String
  | [] => []
  | v :: vs => writeLines depth v :: itemLines depth vs

/-- The entries of an object at the given depth. -/
def entryLines (depth : Nat) : List (String × Value) → List String
  | [] => []
  | (k, v) :: es => (quote k ++ ": " ++ writeLines depth v) :: entryLines depth es

/-- The entries of a mapping at the given depth. -/
def pairLines (depth : Nat) : List (Value × Value) → List String
  | [] => []
  | (k, v) :: es => (write k ++ ": " ++ writeLines depth v) :: pairLines depth es

end

end Eponym.Data.Json
