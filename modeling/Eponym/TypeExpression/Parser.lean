/-
# Reading type expressions

A type expression such as `?Foo`, `Foo|null` or `array<int, Foo[]>` follows the
grammar

    union    := both ('|' both)*
    both     := suffixed ('&' suffixed)*
    suffixed := primary ('[' ']')*
    primary  := '?' suffixed | '(' union ')' | name ('<' union (',' union)* '>')?

where white space may stand in front of every sign.  A reading function takes the
text that is left and answers with a descriptor and what is left after it.  The
number of primaries inside one another is bounded, and the functions recurse on
that bound; so is the height of every descriptor that is built.

* `Failure.position` : a failure is told by the text that was left, which says how
  many bytes had been read.
-/
import Eponym.Fault
import Eponym.Identifier.Plural
import Eponym.Identifier.Word
import Eponym.TypeExpression.Descriptor

namespace Eponym.TypeExpression

/-! ## Faults of a type expression -/

/-- Why a text is no type expression. -/
inductive SyntaxFault where
  | nestedTooDeeply
  | unexpectedEnd
  | unexpected (c : Char)
  | expected (c : Char)
  | invalidName (name : List Char)
  | tooManyArguments (name : List Char)
  deriving DecidableEq

/-- The most primaries inside one another, and the greatest height of a descriptor. -/
def depthLimit : Nat := 256

/-- The first byte of a character in UTF-8. -/
def firstByte (c : Char) : Nat :=
  let n := c.toNat
  if n < 0x80 then n
  else if n < 0x800 then 0xC0 + n / 0x40
  else if n < 0x10000 then 0xE0 + n / 0x1000
  else 0xF0 + n / 0x40000

/-- The text that reports the fault.  An unexpected character is shown by its first
byte, as the character with that number. -/
def SyntaxFault.message : SyntaxFault → String
  | nestedTooDeeply => s!"type expression nested too deeply (limit {depthLimit})"
  | unexpectedEnd => "unexpected end of type expression"
  | unexpected c => s!"unexpected `{Char.ofNat (firstByte c)}`"
  | expected c => s!"expected `{c}`"
  | invalidName name => s!"invalid type name `{String.ofList name}`"
  | tooManyArguments name => s!"`{String.ofList name}` takes at most two type arguments"

/-- A fault, and the text that was left where it was found. -/
structure Failure where
  fault : SyntaxFault
  rest : List Char
  deriving DecidableEq

/-- The number of bytes read before the failure. -/
def Failure.position (f : Failure) (input : List Char) : Nat :=
  byteLength input - byteLength f.rest

/-- An answer, and the text that is left after what it was read from. -/
abbrev Partway (α : Type) := α × List Char

/-- A function that reads a descriptor from the head of a text. -/
abbrev Reader := List Char → Except Failure (Partway Descriptor)

/-! ## Characters -/

/-- Whether a character is white space between signs. -/
def isSpace (c : Char) : Bool :=
  c = ' ' || c = '\t' || c = '\n' || c = '\x0c' || c = '\r'

/-- Whether a name may start with the character. -/
def isNameStart (c : Char) : Bool := c.isAlpha || c = '_' || c = separator

/-- Whether a name may go on with the character. -/
def isNameChar (c : Char) : Bool := c.isAlphanum || c = '_' || c = separator || c = '-'

/-- The text without the white space at its head. -/
def skipSpace (s : List Char) : List Char := s.dropWhile isSpace

/-! ## Signs -/

/-- What is left after a sign that has to follow. -/
def expect (sign : Char) (s : List Char) : Except Failure (List Char) :=
  match skipSpace s with
  | [] => .error ⟨.expected sign, []⟩
  | c :: r => if c = sign then .ok r else .error ⟨.expected sign, c :: r⟩

/-- The descriptor, unless it is too high. -/
def build (d : Descriptor) (s : List Char) : Except Failure (Partway Descriptor) :=
  if d.height ≤ depthLimit then .ok (d, s) else .error ⟨.nestedTooDeeply, s⟩

/-- The further entries of a list, each after a sign.  At most `n` are read; the
length of the text is enough, since each sign takes a character. -/
def readFurther (sign : Char) (item : Reader) :
    Nat → List Char → Except Failure (Partway (List Descriptor))
  | 0, s => .ok ([], skipSpace s)
  | n + 1, s => match skipSpace s with
    | [] => .ok ([], [])
    | c :: r =>
      if c = sign then do
        let (d, r) ← item r
        let (ds, r) ← readFurther sign item n r
        .ok (d :: ds, r)
      else .ok ([], c :: r)

/-- The entries of a list with a sign between them. -/
def readList (sign : Char) (item : Reader) (s : List Char) :
    Except Failure (Partway (List Descriptor)) := do
  let (d, r) ← item s
  let (ds, r) ← readFurther sign item r.length r
  .ok (d :: ds, r)

/-- A list of one entry is that entry; a longer list is put together. -/
def combine (join : List Descriptor → Descriptor) :
    List Descriptor → List Char → Except Failure (Partway Descriptor)
  | [d], s => .ok (d, s)
  | ds, s => build (join ds) s

/-! ## Levels of the grammar -/

section Levels

variable (primary : Reader)

/-- The pairs of brackets after a descriptor, at most `n`. -/
def readBrackets : Nat → Descriptor → List Char → Except Failure (Partway Descriptor)
  | 0, d, s => .ok (d, skipSpace s)
  | n + 1, d, s => match skipSpace s with
    | [] => .ok (d, [])
    | c :: r =>
      if c = '[' then do
        let r ← expect ']' r
        let (d, r) ← build (.iterable d) r
        readBrackets n d r
      else .ok (d, c :: r)

/-- A primary and the brackets after it. -/
def readSuffixed (s : List Char) : Except Failure (Partway Descriptor) := do
  let (d, r) ← primary s
  readBrackets r.length d r

/-- Suffixed types joined by `&`. -/
def readBoth (s : List Char) : Except Failure (Partway Descriptor) := do
  let (ds, r) ← readList '&' (readSuffixed primary) s
  combine .intersection ds r

/-- Intersections joined by `|`. -/
def readUnion (s : List Char) : Except Failure (Partway Descriptor) := do
  let (ds, r) ← readList '|' (readBoth primary) s
  combine .union ds r

/-- The arguments in angle brackets after a name, if there are any. -/
def readArguments (s : List Char) : Except Failure (Partway (List Descriptor)) :=
  match skipSpace s with
  | [] => .ok ([], [])
  | c :: r =>
    if c = '<' then do
      let (ds, r) ← readList ',' (readUnion primary) r
      let r ← expect '>' r
      .ok (ds, r)
    else .ok ([], c :: r)

/-! ## Names -/

/-- The words for what is iterable. -/
def iterableKeywords : List String :=
  ["array", "iterable", "list", "non-empty-array", "non-empty-list"]

/-- The words for types that no declaration names. -/
def scalarKeywords : List String :=
  ["int", "integer", "float", "double", "string", "bool", "boolean", "true", "false", "mixed",
    "void", "never", "object", "callable", "resource", "scalar", "numeric", "array-key",
    "positive-int", "negative-int", "non-empty-string", "numeric-string", "class-string",
    "self", "static"]

/-- What a name with arguments stands for.  Letter case does not matter in a keyword.
The arguments of a class do not change its name. -/
def interpret (name : List Char) (arguments : List Descriptor) (start s : List Char) :
    Except Failure (Partway Descriptor) :=
  let keyword := String.ofList (name.map Char.toLower)
  if iterableKeywords.contains keyword then
    match arguments with
    | [] => build (.iterable (.scalar "mixed")) s
    | [value] => build (.iterable value) s
    | [key, value] => build (.keyed key value) s
    | _ => .error ⟨.tooManyArguments name, start⟩
  else if keyword = "null" then .ok (.null, s)
  else if scalarKeywords.contains keyword then .ok (.scalar (String.ofList name), s)
  else .ok (.ofName (String.ofList name), s)

/-- A name and its arguments.  The name needs a segment, and must not end in a separator. -/
def readName (s : List Char) : Except Failure (Partway Descriptor) := do
  let (word, r) := splitRun isNameChar s
  let name := stripSeparators word
  if name = [] ∨ name.getLast? = some separator then
    .error ⟨.invalidName word, s⟩
  else
    let (arguments, r) ← readArguments primary r
    interpret name arguments s r

end Levels

/-! ## Whole expressions -/

/-- A primary inside which at most the given number, itself counted, may be nested. -/
def readPrimary : Nat → List Char → Except Failure (Partway Descriptor)
  | 0, s => .error ⟨.nestedTooDeeply, s⟩
  | n + 1, s => match skipSpace s with
    | [] => .error ⟨.unexpectedEnd, []⟩
    | c :: r =>
      if c = '?' then do
        let (d, r) ← readSuffixed (readPrimary n) r
        build (.union [d, .null]) r
      else if c = '(' then do
        let (d, r) ← readUnion (readPrimary n) r
        let r ← expect ')' r
        .ok (d, r)
      else if isNameStart c then readName (readPrimary n) (c :: r)
      else .error ⟨.unexpected c, c :: r⟩

/-- The descriptor that an expression stands for. -/
def read (s : List Char) : Except Failure Descriptor := do
  let (d, r) ← readUnion (readPrimary depthLimit) s
  match skipSpace r with
  | [] => .ok d
  | c :: r => .error ⟨.unexpected c, c :: r⟩

end TypeExpression

open TypeExpression in
/-- The descriptor that a type expression stands for. -/
def Descriptor.parse (input : String) : Except Fault Descriptor :=
  match read input.toList with
  | .ok d => .ok d
  | .error f => .error (.parse f.fault.message input (f.position input.toList))

end Eponym
