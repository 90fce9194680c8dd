/-
# Tokens of YAML

A text is cut into signs and scalars.  Indentation becomes signs too: a block starts in
front of the first dash or key that stands further in than the block around it, and ends
in front of what stands further out.  That something is a key shows only at the colon
after it, so the last place where one may have started is remembered, in each collection
in brackets that is still open, and the sign for a key is put there afterwards.
-/
import Eponym.Data.Yaml.Scalar

namespace Eponym.Data.Yaml

/-- A piece of a text. -/
inductive Token where
  /-- The start of a block of items. -/
  | openItems
  /-- The start of a block of entries. -/
  | openEntries
  /-- The end of a block. -/
  | closeBlock
  | openBracket
  | closeBracket
  | openBrace
  | closeBrace
  /-- The sign of an item of a block. -/
  | dash
  | comma
  | key
  | value
  | scalar (v : Value)
  | startDocument
  | endDocument

/-- A place where a key may have started. -/
structure KeyPlace where
  /-- The number of tokens in front of it. -/
  index : Nat
  /-- Whether a key has to start there. -/
  isRequired : Bool
  start : Placed

/-- The longest that a key may be, in bytes. -/
def keyLimit : Nat := 1024

/-- Whether a key that started at a place has to be over.  It ends on its line. -/
def KeyPlace.isOver (k : KeyPlace) (c : Placed) : Bool :=
  k.start.line < c.line || k.start.offset + keyLimit < c.offset

/-- What has been cut off a text, and what is left of it. -/
structure Cutting where
  left : List Placed
  tokens : Array Token := #[]
  /-- The columns of the blocks that are open, the innermost first. -/
  columns : List Nat := []
  /-- Where a key may have started outside brackets. -/
  blockKey : Option KeyPlace := none
  /-- Where one may have started in each collection in brackets that is open, the innermost
  first. -/
  bracketKeys : List (Option KeyPlace) := []
  /-- Whether a key, or a block, may start here. -/
  keyAllowed : Bool := true

namespace Cutting

/-! ## Tokens -/

/-- Whether a collection in brackets is open. -/
def inFlow (t : Cutting) : Bool := !t.bracketKeys.isEmpty

/-- How far in a line starts at least that goes on with the innermost block. -/
def least (t : Cutting) : Nat :=
  match t.columns with
  | [] => 0
  | n :: _ => n + 1

/-- Adds a token. -/
def push (t : Cutting) (token : Token) : Cutting := { t with tokens := t.tokens.push token }

/-- Puts a token behind the given number of others. -/
def insert (t : Cutting) (index : Nat) (token : Token) : Cutting :=
  { t with tokens := t.tokens.insertIdxIfInBounds index token }

/-! ## Blocks -/

/-- Opens a block at a column behind the given number of tokens, if that is further in than
the block around it.  In brackets there are no blocks. -/
def openBlock (t : Cutting) (token : Token) (column index : Nat) : Cutting :=
  if t.inFlow || column < t.least then t
  else { t.insert index token with columns := column :: t.columns }

/-- Closes the blocks whose columns the given condition holds of. -/
def closeBlocks (t : Cutting) (p : Nat → Bool) : Cutting :=
  if t.inFlow then t
  else
    let closed := (t.columns.takeWhile p).length
    { t with
      tokens := t.tokens ++ Array.replicate closed .closeBlock
      columns := t.columns.dropWhile p }

/-! ## Keys -/

/-- Where a key may have started in the innermost collection or block. -/
def keyPlace (t : Cutting) : Option KeyPlace :=
  match t.bracketKeys with
  | [] => t.blockKey
  | k :: _ => k

/-- Changes where a key may have started. -/
def setKeyPlace (t : Cutting) (k : Option KeyPlace) : Cutting :=
  match t.bracketKeys with
  | [] => { t with blockKey := k }
  | _ :: ks => { t with bracketKeys := k :: ks }

/-- Forgets the place in a block from which a key would reach too far, unless a key has to
start there. -/
def expire (t : Cutting) (c : Placed) : Option Cutting :=
  match t.blockKey with
  | some k =>
    if !k.isOver c then some t else if k.isRequired then none else some { t with blockKey := none }
  | none => some t

/-- Forgets where a key may have started, unless one has to. -/
def dropKey (t : Cutting) : Option Cutting :=
  match t.keyPlace with
  | some k => if k.isRequired then none else some (t.setKeyPlace none)
  | none => some t

/-- Remembers that a key may start here.  At the column of a block of entries it has to. -/
def saveKey (t : Cutting) (c : Placed) : Option Cutting := do
  if t.keyAllowed then
    let t ← t.dropKey
    let isRequired := !t.inFlow && t.columns.head? = some c.column
    some (t.setKeyPlace (some ⟨t.tokens.size, isRequired, c⟩))
  else some t

/-! ## Signs -/

/-- The sign at the head of a text that opens a collection in brackets. -/
def cutOpening (t : Cutting) (token : Token) (c : Placed) (s : List Placed) :
    Option Cutting := do
  let t ← t.saveKey c
  some { t.push token with
    left := s, bracketKeys := none :: t.bracketKeys, keyAllowed := true }

/-- The sign that closes a collection in brackets. -/
def cutClosing (t : Cutting) (token : Token) (s : List Placed) : Option Cutting := do
  let t ← t.dropKey
  some { t.push token with
    left := s, bracketKeys := t.bracketKeys.tail, keyAllowed := false }

/-- The sign between the parts of a collection in brackets. -/
def cutComma (t : Cutting) (s : List Placed) : Option Cutting := do
  let t ← t.dropKey
  some { t.push .comma with left := s, keyAllowed := true }

/-- Opens a block of the given kind for a sign that stands at the head of a line or after
another such sign. -/
def openAt (t : Cutting) (token : Token) (c : Placed) : Option Cutting :=
  if t.inFlow then some t
  else if t.keyAllowed then some (t.openBlock token c.column t.tokens.size)
  else none

/-- The sign of an item of a block. -/
def cutDash (t : Cutting) (c : Placed) (s : List Placed) : Option Cutting := do
  let t ← (← t.openAt .openItems c).dropKey
  some { t.push .dash with left := s, keyAllowed := true }

/-- The sign in front of a key, which it may have. -/
def cutKey (t : Cutting) (c : Placed) (s : List Placed) : Option Cutting := do
  let t ← (← t.openAt .openEntries c).dropKey
  some { t.push .key with left := s, keyAllowed := !t.inFlow }

/-- The sign after a key.  It makes a key of what started at the place that is remembered,
and may open a block there. -/
def cutValue (t : Cutting) (c : Placed) (s : List Placed) : Option Cutting :=
  match t.keyPlace.filter fun k => !k.isOver c with
  | some k =>
    let t := (t.insert k.index .key).openBlock .openEntries k.start.column k.index
    some { (t.push .value).setKeyPlace none with left := s, keyAllowed := false }
  | none => do
    let t ← t.openAt .openEntries c
    some { t.push .value with left := s, keyAllowed := !t.inFlow }

/-- A line that starts or ends a document, which all blocks end with. -/
def cutMarker (t : Cutting) (c : Placed) (s : List Placed) : Option Cutting := do
  let t ← (t.closeBlocks fun _ => true).dropKey
  let token := if c.char = '-' then Token.startDocument else Token.endDocument
  some { t.push token with left := s.drop 2, keyAllowed := false }

/-! ## Scalars -/

/-- The token of a scalar whose text says what it is. -/
def textToken (s : List Char) : Token := .scalar (.text (String.ofList s))

/-- A scalar in quotes. -/
def cutQuoted (t : Cutting) (c : Placed) (s : List Placed) : Option Cutting := do
  let t ← t.saveKey c
  let (text, left) ←
    if c.char = '\'' then readSingle [] .empty s else readDouble [] .empty .none s
  some { t.push (textToken text) with left, keyAllowed := false }

/-- A scalar without quotes.  A key may follow it on a line of its own. -/
def cutPlain (t : Cutting) (c : Placed) (s : List Placed) : Option Cutting := do
  let t ← t.saveKey c
  let (text, keyAllowed, left) ← readPlain t.inFlow t.least [] .empty (c :: s)
  some { t.push (.scalar (.plain (String.ofList text))) with left, keyAllowed }

/-- A block of text. -/
def cutBlock (t : Cutting) (c : Placed) (s : List Placed) : Option Cutting := do
  let t ← t.dropKey
  let (text, left) ← readBlock (c.char = '>') t.least s
  some { t.push (textToken text) with left, keyAllowed := true }

/-- Cuts a token off a text that starts with none of the white space between tokens. -/
def cutNext (t : Cutting) (c : Placed) (s : List Placed) : Option Cutting :=
  let atEnd := t.inFlow || endsWord s
  if c.column = 0 && c.char = '%' then none
  else if isMarker (c :: s) then t.cutMarker c s
  else match c.char with
    | '[' => t.cutOpening .openBracket c s
    | '\x7b' => t.cutOpening .openBrace c s
    | ']' => t.cutClosing .closeBracket s
    | '\x7d' => t.cutClosing .closeBrace s
    | ',' => t.cutComma s
    | '\'' | '"' => t.cutQuoted c s
    | d =>
      if d = '-' && endsWord s then t.cutDash c s
      else if d = '?' && atEnd then t.cutKey c s
      else if d = ':' && atEnd then t.cutValue c s
      else if (d = '|' || d = '>') && !t.inFlow then t.cutBlock c s
      else if startsPlain t.inFlow (c :: s) then t.cutPlain c s
      else none

/-! ## Whole texts -/

/-- Passes over white space and comments.  At the head of a line of a block, where a key
may start, a tab is not white space.  Tells whether a key may start after it. -/
def skipSpace (flow : Bool) (keyAllowed comment : Bool) : List Placed → Bool × List Placed
  | [] => (keyAllowed, [])
  | c :: s =>
    if isBreak c.char then skipSpace flow (keyAllowed || !flow) false s
    else if comment then skipSpace flow keyAllowed true s
    else if c.char = ' ' || (c.char = '\t' && (flow || !keyAllowed)) ||
      (c.char = '\ufeff' && c.column = 0) then skipSpace flow keyAllowed false s
    else if c.char = '#' then skipSpace flow keyAllowed true s
    else (keyAllowed, c :: s)

/-- The tokens of a text, at most the given number of them. -/
def cutAll : Nat → Cutting → Option (List Token)
  | 0, _ => none
  | n + 1, t =>
    match skipSpace t.inFlow t.keyAllowed false t.left with
    | (_, []) =>
      if t.inFlow then none
      else ((t.closeBlocks fun _ => true).dropKey).map fun t => t.tokens.toList
    | (keyAllowed, c :: s) => do
      let t ← { t with keyAllowed }.expire c
      cutAll n (← (t.closeBlocks (c.column < ·)).cutNext c s)

end Cutting

/-- The tokens of a text. -/
def tokens? (s : List Char) : Option (List Token) :=
  if s.all isReadable then Cutting.cutAll (s.length + 1) { left := place s } else none

end Eponym.Data.Yaml
