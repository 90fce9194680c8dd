/-
# Writing YAML

Data is written in blocks: each entry of a mapping and each item of a sequence
starts a line, and a sequence stands as far in as the key above it.  A text is written
without quotes if it is read back as that text, on several lines as a literal block if
it can be, and in quotes otherwise.
-/
import Eponym.Data.Yaml.Reader

namespace Eponym.Data.Yaml

/-! ## Characters -/

/-- Whether a character is written as it is, even in double quotes. -/
def isPrintable (c : Char) : Bool :=
  c = '\n' || (' ' ≤ c && c ≤ '~') || ('\u00a0' ≤ c && c ≤ '\ufffd' && c ≠ '\ufeff') ||
    '\uffff' < c

/-- Whether a character for which the first condition holds stands in front of one for
which the second does. -/
def hasPair (p q : Char → Bool) : List Char → Bool
  | c :: d :: s => (p c && q d) || hasPair p q (d :: s)
  | _ => false

/-- Whether a text would lose white space, or is not printable. -/
def isFragile (s : List Char) : Bool := !s.all isPrintable || hasPair (· = ' ') isBreak s

/-! ## Without quotes -/

/-- Whether a plain scalar stands for a text, and looks like nothing else. -/
def isUnambiguous (s : String) : Bool :=
  !hasNeedlessZero (splitSign s.toList).2 &&
    match resolvePlain s with
    | .text _ => true
    | _ => false

/-- Whether a text starts like a line that ends a document or starts one. -/
def startsLikeMarker : List Char → Bool
  | '-' :: '-' :: '-' :: _ => true
  | '.' :: '.' :: '.' :: _ => true
  | _ => false

/-- Whether some tokens are nothing but the given text without quotes. -/
def isPlainToken (s : String) : Option (List Token) → Bool
  | some [.scalar (.plain raw)] => raw = s
  | _ => false

/-- Whether a text is written without quotes. -/
def isPlain (s : String) : Bool :=
  s.toList.all (fun c => isPrintable c && !isBreak c) && !startsLikeMarker s.toList &&
    isUnambiguous s && isPlainToken s (tokens? s.toList)

/-! ## In quotes -/

/-- The spaces in front of a line. -/
def spaces (n : Nat) : List Char := List.replicate n ' '

/-- A text with indentation in front of what follows line breaks. -/
def indented (indent : Nat) (afterBreak : Bool) : List Char → List Char
  | [] => []
  | c :: s =>
    if isBreak c then c :: indented indent true s
    else if afterBreak then spaces indent ++ c :: indented indent false s
    else c :: indented indent false s

/-- A text in single quotes. -/
def singleQuoted (indent : Nat) (s : List Char) : List Char :=
  '\'' :: indented indent false (doubleSingles s ++ ['\''])

/-- The hexadecimal digit of a value below sixteen. -/
def upperHexDigit (n : Nat) : Char :=
  if n < 10 then Char.ofNat (48 + n) else Char.ofNat (55 + n)

/-- The last hexadecimal digits of a number, as many as asked for. -/
def upperHex : Nat → Nat → List Char
  | 0, _ => []
  | width + 1, n => upperHex width (n / 16) ++ [upperHexDigit (n % 16)]

/-- The letter after a backslash that stands for a character. -/
def escapeLetter? (c : Char) : Option Char :=
  [('\x00', '0'), ('\x07', 'a'), ('\x08', 'b'), ('\t', 't'), ('\n', 'n'), ('\x0b', 'v'),
    ('\x0c', 'f'), ('\r', 'r'), ('\x1b', 'e'), ('"', '"'), ('\\', '\\'), ('\u0085', 'N'),
    ('\u2028', 'L'), ('\u2029', 'P')].lookup c

/-- How a character is written in double quotes. -/
def escape (c : Char) : List Char :=
  match escapeLetter? c with
  | some l => ['\\', l]
  | none =>
    if isPrintable c then [c]
    else if c.toNat < 0x100 then '\\' :: 'x' :: upperHex 2 c.toNat
    else '\\' :: 'u' :: upperHex 4 c.toNat

/-- A text in double quotes. -/
def doubleQuoted (s : List Char) : List Char := '"' :: s.flatMap escape ++ ['"']

/-! ## Literal blocks -/

/-- What the sign of a literal block announces: the indentation, if the text starts with
white space, and what ends it. -/
def literalSigns (s : List Char) : List Char :=
  let hint := match s with
    | c :: _ => if c = ' ' || isBreak c then ['2'] else []
    | [] => []
  let ending := match s.reverse with
    | c :: r => if !isBreak c then ['-'] else if r.head?.all isBreak then ['+'] else []
    | [] => ['-']
  hint ++ ending

/-- A text as a literal block. -/
def literal (indent : Nat) (s : List Char) : List Char :=
  '|' :: literalSigns s ++ '\n' :: indented indent true s

/-! ## Texts -/

/-- A text on one line, or on several if it is in single quotes, those after the first at
the given indentation. -/
def quotedText (indent : Nat) (s : String) : String :=
  if isPlain s then s
  else if isFragile s.toList || hasPair isBreak (· = ' ') s.toList then
    String.ofList (doubleQuoted s.toList)
  else String.ofList (singleQuoted indent s.toList)

/-- A text as it stands in the data. -/
def scalarText (indent : Nat) (s : String) : String :=
  if s.contains '\n' then
    if isFragile s.toList || s.toList.getLast? = some ' ' then String.ofList (doubleQuoted s.toList)
    else String.ofList (literal indent s.toList)
  else quotedText indent s

/-- Ends a line that has not ended yet. -/
def endLine (s : String) : String := if s.toList.getLast?.any isBreak then s else s ++ "\n"

/-! ## Data -/

/-- What stands between a sign and the first piece of a container at the given indentation:
behind a key, the container starts on a line of its own. -/
def lead (behindKey : Bool) (indent : Nat) : String :=
  if behindKey then "\n" ++ String.ofList (spaces indent) else ""

/-- Pieces of a container that each end a line, at the given indentation. -/
def stack (behindKey : Bool) (indent : Nat) (pieces : List String) : String :=
  lead behindKey indent ++ (String.ofList (spaces indent)).intercalate pieces

/-- A value on one line, or a text. -/
def line (behindKey : Bool) (s : String) : String :=
  endLine (if behindKey then " " ++ s else s)

mutual

/-- A value behind the sign of an item or a key, two columns further in than the sign.  A
list behind a key stands level with it. -/
def block (behindKey : Bool) (indent : Nat) : Value → String
  | .list [] => line behindKey "[]"
  | .object [] | .mapping [] => line behindKey "\x7b\x7d"
  | .list (v :: vs) =>
    let level := if behindKey then indent - 2 else indent
    stack behindKey level (itemBlocks level (v :: vs))
  | .object (e :: es) => stack behindKey indent (entryBlocks indent (e :: es))
  | .mapping (e :: es) => stack behindKey indent (pairBlocks indent (e :: es))
  | .null | .unreadable => line behindKey "null"
  | .bool b => line behindKey (if b then "true" else "false")
  | .natural n => line behindKey (toString n)
  | .number numeral => line behindKey numeral
  | .text s | .plain s => line behindKey (scalarText indent s)

/-- The items of a list at the given indentation. -/
def itemBlocks (indent : Nat) : List Value → List String
  | [] => []
  | v :: vs => ("- " ++ block false (indent + 2) v) :: itemBlocks indent vs

/-- The entries of an object at the given indentation. -/
def entryBlocks (indent : Nat) : List (String × Value) → List String
  | [] => []
  | (k, v) :: es =>
    (quotedText indent k ++ ":" ++ block true (indent + 2) v) :: entryBlocks indent es

/-- The entries of a mapping at the given indentation. -/
def pairBlocks (indent : Nat) : List (Value × Value) → List String
  | [] => []
  | (k, v) :: es =>
    ("? " ++ block false (indent + 2) k ++ String.ofList (spaces indent) ++ ":" ++
      block true (indent + 2) v) :: pairBlocks indent es

end

/-- The text of a value. -/
def write (v : Value) : String := block false 0 v

end Eponym.Data.Yaml
