/-
# Reading YAML

The data that the tokens of a text stand for.  What is left out is an empty plain
scalar.  A text holds one document; anchors, tags and directives are no part of the
format that is read here.  JSON is, for the most part.

A reader takes tokens from the head of a list and gives back the others.  The functions
recurse on a bound on the tokens that are taken.
-/
import Eponym.Data.Yaml.Token

namespace Eponym.Data.Yaml

/-- What stands where a value is left out. -/
def nothing : Value := .plain ""

/-- Where a value stands, which decides on the blocks that it may be. -/
inductive Site where
  /-- In a collection in brackets, where it is no block. -/
  | brackets
  /-- After the sign of an item, or alone. -/
  | item
  /-- After the sign of a key or value, where items may stand level with the keys. -/
  | entry
  deriving DecidableEq

/-- Reads something from the head of some tokens. -/
abbrev TokenReader (α : Type) := List Token → Option (α × List Token)

section Parts

/-- Reads a value at the given site. -/
abbrev SiteReader := Site → TokenReader Value

variable (value : SiteReader)

/-! ## Blocks -/

/-- Reads the value of an item of a block. -/
def readItem : TokenReader Value
  | .dash :: ts => some (nothing, .dash :: ts)
  | .closeBlock :: ts => some (nothing, .closeBlock :: ts)
  | ts => value .item ts

/-- Reads the items of a block. -/
def readItems : Nat → TokenReader (List Value)
  | 0, _ => none
  | n + 1, .dash :: ts => do
    let (v, ts) ← readItem value ts
    let (vs, ts) ← readItems n ts
    some (v :: vs, ts)
  | _ + 1, .closeBlock :: ts => some ([], ts)
  | _ + 1, _ => none

/-- Reads a key or a value of an entry of a block. -/
def readPart : TokenReader Value
  | .key :: ts => some (nothing, .key :: ts)
  | .value :: ts => some (nothing, .value :: ts)
  | .closeBlock :: ts => some (nothing, .closeBlock :: ts)
  | ts => value .entry ts

/-- Reads the value of an item that stands level with the keys of a block. -/
def readLevelItem : TokenReader Value
  | .key :: ts => some (nothing, .key :: ts)
  | .value :: ts => some (nothing, .value :: ts)
  | ts => readItem value ts

/-- Reads items that stand level with the keys of a block, which end in front of the next
key. -/
def readLevelItems : Nat → TokenReader (List Value)
  | 0, _ => none
  | n + 1, .dash :: ts => do
    let (v, ts) ← readLevelItem value ts
    let (vs, ts) ← readLevelItems n ts
    some (v :: vs, ts)
  | _ + 1, ts => some ([], ts)

/-- Reads the entries of a block. -/
def readEntries : Nat → TokenReader (List (Value × Value))
  | 0, _ => none
  | n + 1, .key :: ts => do
    let (k, ts) ← readPart value ts
    let (v, ts) ← match ts with
      | .value :: ts => readPart value ts
      | ts => some (nothing, ts)
    let (es, ts) ← readEntries n ts
    some ((k, v) :: es, ts)
  | _ + 1, .closeBlock :: ts => some ([], ts)
  | _ + 1, _ => none

/-! ## Collections in brackets -/

/-- Whether a part of a collection in brackets ends here. -/
def endsPart : List Token → Bool
  | .comma :: _ | .closeBracket :: _ | .closeBrace :: _ => true
  | _ => false

/-- Whether a key in a collection in brackets ends here. -/
def endsKey : List Token → Bool
  | .value :: _ => true
  | ts => endsPart ts

/-- Reads what follows a key in a collection in brackets. -/
def readAfterKey : TokenReader Value
  | .value :: ts => if endsPart ts then some (nothing, ts) else value .brackets ts
  | ts => some (nothing, ts)

/-- Reads an entry of a mapping in braces, which may be nothing but a key. -/
def readBraceEntry : TokenReader (Value × Value)
  | .key :: ts => do
    let (k, ts) ← if endsKey ts then some (nothing, ts) else value .brackets ts
    let (v, ts) ← readAfterKey value ts
    some ((k, v), ts)
  | ts => do
    let (k, ts) ← value .brackets ts
    some ((k, nothing), ts)

/-- Reads an entry that stands alone in brackets, after the sign of its key.  The token
behind a key that is left out goes with it. -/
def readLoneEntry (ts : List Token) : Option ((Value × Value) × List Token) := do
  let (k, ts) ← if endsKey ts then some (nothing, ts.tail) else value .brackets ts
  let (v, ts) ← readAfterKey value ts
  some ((k, v), ts)

variable {α : Type}

/-- Reads the parts of a collection up to the given sign, with a comma between them. -/
def readParts (isClose : Token → Bool) (part : TokenReader α) : Nat → TokenReader (List α)
  | 0, _ => none
  | _ + 1, [] => none
  | n + 1, token :: ts =>
    if isClose token then some ([], ts)
    else do
      match ← part (token :: ts) with
      | (a, .comma :: ts) =>
        let (as, ts) ← readParts isClose part n ts
        some (a :: as, ts)
      | (a, token :: ts) => if isClose token then some ([a], ts) else none
      | (_, []) => none

end Parts

/-! ## Values -/

/-- Whether a token ends a list in brackets. -/
def Token.isCloseBracket : Token → Bool
  | .closeBracket => true
  | _ => false

/-- Whether a token ends a mapping in braces. -/
def Token.isCloseBrace : Token → Bool
  | .closeBrace => true
  | _ => false

/-- Reads a value, in which the given number of containers may stand inside one another.
The first number bounds the tokens that are taken. -/
def readValue : Nat → Nat → SiteReader
  | 0, _, _, _ => none
  | n + 1, levels, site, ts =>
    let inside := readValue n (levels - 1)
    let list (r : List Value × List Token) := (Value.ifLevel levels (.list r.1), r.2)
    let mapping (r : List (Value × Value) × List Token) :=
      (Value.ifLevel levels (.ofEntries r.1), r.2)
    match ts with
    | .scalar v :: ts => some (v, ts)
    | .openBracket :: ts =>
      let item : TokenReader Value
        | .key :: ts => (readLoneEntry (readValue n (levels - 2)) ts).map fun (e, ts) =>
          (Value.ifLevel (levels - 1) (.ofEntries [e]), ts)
        | ts => inside .brackets ts
      (readParts Token.isCloseBracket item n ts).map list
    | .openBrace :: ts =>
      (readParts Token.isCloseBrace (readBraceEntry inside) n ts).map mapping
    | .openItems :: ts => if site = .brackets then none else (readItems inside n ts).map list
    | .openEntries :: ts =>
      if site = .brackets then none else (readEntries inside n ts).map mapping
    | .dash :: _ => if site = .entry then (readLevelItems inside n ts).map list else none
    | _ => none

/-- How many containers that have a value a text may have inside one another. -/
def levelLimit : Nat := 128

/-! ## Documents -/

/-- Reads the content of a document. -/
def readContent (ts : List Token) : Option (Value × List Token) :=
  readValue (2 * ts.length + 1) levelLimit .item ts

/-- Whether a token stands between documents. -/
def Token.isMarker : Token → Bool
  | .startDocument | .endDocument => true
  | _ => false

/-- The value of the one document that some tokens are. -/
def readDocument (ts : List Token) : Option Value := do
  let (v, ts) ← match ts with
    | [] => some (nothing, [])
    | .startDocument :: [] => some (nothing, [])
    | .startDocument :: t :: ts =>
      if t.isMarker then some (nothing, t :: ts) else readContent (t :: ts)
    | ts => readContent ts
  match ts with
  | [] => some v
  | .endDocument :: ts => if ts.all fun | .endDocument => true | _ => false then some v else none
  | _ => none

/-- The value that a text stands for. -/
def read (s : String) : Option Value := do readDocument (← tokens? s.toList)

end Eponym.Data.Yaml
