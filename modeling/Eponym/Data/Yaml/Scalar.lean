/-
# Scalars of YAML

A scalar may go on over several lines.  A single line break in it is then read as a
space, and of several the first is left out; white space around line breaks is dropped.
Only literal blocks keep all that is not indentation.
-/
import Eponym.Data.Scalar
import Eponym.Data.Yaml.Character

namespace Eponym.Data.Yaml

/-! ## Gaps -/

/-- The white space since the last other character of a scalar, each part in reverse. -/
inductive Gap where
  /-- White space within a line. -/
  | blanks (s : List Char)
  /-- The first line break, unless it does not count, and those after it. -/
  | breaks (first : Option Char) (more : List Char)

namespace Gap

/-- No white space. -/
def empty : Gap := blanks []

/-- A gap with one more white-space character. -/
def add (c : Char) : Gap → Gap
  | blanks s => if isBreak c then breaks (some c) [] else blanks (c :: s)
  | breaks first more => if isBreak c then breaks first (c :: more) else breaks first more

/-- Whether a line has ended in the gap. -/
def hasBreak : Gap → Bool
  | blanks _ => false
  | breaks .. => true

/-- All that the gap is, in reverse. -/
def kept : Gap → List Char
  | blanks s => s
  | breaks first more => more ++ first.toList

/-- What the gap is read as, in reverse. -/
def folded : Gap → List Char
  | breaks (some '\n') [] => [' ']
  | breaks (some '\n') more => more
  | gap => gap.kept

end Gap

/-- The text of which the part up to a gap is given in reverse. -/
def finish (done : List Char) (gap : Gap) : List Char := (gap.folded ++ done).reverse

/-! ## Plain scalars -/

/-- Whether a plain scalar may start with the first of some characters. -/
def startsPlain (flow : Bool) : List Placed → Bool
  | [] => false
  | c :: s =>
    if c.char = '-' then !startsWith isBlank s
    else if c.char = '?' || c.char = ':' then !flow && !endsWord s
    else !(isBlank c.char || isBreak c.char || isBracketSign c.char ||
      "#&*!|>'\"%@`".toList.contains c.char)

/-- Reads a plain scalar, whose later lines start at least that far in.  Tells its text,
whether lines have ended after it, and what is left. -/
def readPlain (flow : Bool) (least : Nat) (done : List Char) (gap : Gap) :
    List Placed → Option (List Char × Bool × List Placed)
  | [] => some (done.reverse, gap.hasBreak, [])
  | c :: s =>
    let outside := !flow && gap.hasBreak && c.column < least
    if isBlank c.char then
      if gap.hasBreak && c.column < least && c.char = '\t' then none
      else readPlain flow least done (gap.add c.char) s
    else if isBreak c.char then readPlain flow least done (gap.add c.char) s
    else if outside || isMarker (c :: s) || (c.char = '#' && gap.kept ≠ []) then
      some (done.reverse, gap.hasBreak, c :: s)
    else if flow && c.char = ':' && startsWith (fun d => isBracketSign d || d = '?') s then none
    else if (c.char = ':' && endsWord s) || (flow && isBracketSign c.char) then
      some (done.reverse, gap.hasBreak, c :: s)
    else readPlain flow least (c.char :: (gap.folded ++ done)) .empty s

/-! ## Quoted scalars -/

/-- Reads a scalar in single quotes, after the first of them.  A quote in it is written
twice. -/
def readSingle (done : List Char) (gap : Gap) : List Placed → Option (List Char × List Placed)
  | [] => none
  | c :: s =>
    if isBlank c.char || isBreak c.char then readSingle done (gap.add c.char) s
    else if isMarker (c :: s) then none
    else if c.char = '\'' then
      match s with
      | d :: s' =>
        if d.char = '\'' then readSingle ('\'' :: (gap.folded ++ done)) .empty s'
        else some (finish done gap, s)
      | [] => some (finish done gap, [])
    else readSingle (c.char :: (gap.folded ++ done)) .empty s

/-- The character that a letter after a backslash stands for. -/
def escaped? : Char → Option Char
  | '0' => some '\x00'
  | 'a' => some '\x07'
  | 'b' => some '\x08'
  | 't' => some '\t'
  | '\t' => some '\t'
  | 'n' => some '\n'
  | 'v' => some '\x0b'
  | 'f' => some '\x0c'
  | 'r' => some '\r'
  | 'e' => some '\x1b'
  | ' ' => some ' '
  | '"' => some '"'
  | '/' => some '/'
  | '\\' => some '\\'
  | 'N' => some '\u0085'
  | '_' => some '\u00a0'
  | 'L' => some '\u2028'
  | 'P' => some '\u2029'
  | _ => none

/-- How many digits follow a letter after a backslash that announces a number. -/
def escapeWidth? : Char → Option Nat
  | 'x' => some 2
  | 'u' => some 4
  | 'U' => some 8
  | _ => none

/-- The character with the given number, which is no half of one. -/
def numbered? (n : Nat) : Option Char :=
  if h : n.isValidChar then some (Char.ofNatAux n h) else none

/-- How far an escape sequence has been read. -/
inductive Escape where
  | none
  | opened
  /-- So many digits are left, and those read write the number. -/
  | digits (left n : Nat)

/-- Reads a scalar in double quotes, after the first of them. -/
def readDouble (done : List Char) (gap : Gap) :
    Escape → List Placed → Option (List Char × List Placed)
  | _, [] => none
  | .none, c :: s =>
    if isBlank c.char || isBreak c.char then readDouble done (gap.add c.char) .none s
    else if isMarker (c :: s) then none
    else if c.char = '"' then some (finish done gap, s)
    else if c.char = '\\' then readDouble (gap.folded ++ done) .empty .opened s
    else readDouble (c.char :: (gap.folded ++ done)) .empty .none s
  | .opened, c :: s =>
    if isBreak c.char then readDouble done (.breaks none []) .none s
    else match escaped? c.char, escapeWidth? c.char with
      | some d, _ => readDouble (d :: done) gap .none s
      | none, some width => readDouble done gap (.digits width 0) s
      | none, none => none
  | .digits left n, c :: s =>
    match digitValue? 16 c.char with
    | none => none
    | some d =>
      if 1 < left then readDouble done gap (.digits (left - 1) (n * 16 + d)) s
      else match numbered? (n * 16 + d) with
        | some e => readDouble (e :: done) gap .none s
        | none => none

/-- A text with each single quote written twice. -/
def doubleSingles : List Char → List Char
  | [] => []
  | c :: s => if c = '\'' then '\'' :: '\'' :: doubleSingles s else c :: doubleSingles s

/-! ## Blocks -/

/-- What ends the last line of a block: one line break, none, or as many as there are. -/
inductive Ending where
  | one
  | none
  | every
  deriving DecidableEq

/-- The text of which the part up to the last gap is given in reverse. -/
def Ending.finish (done : List Char) (gap : Gap) : Ending → List Char
  | none => done.reverse
  | one => match gap with
    | .breaks (some c) _ => (c :: done).reverse
    | _ => done.reverse
  | every => (gap.kept ++ done).reverse

/-- The ending that a sign announces. -/
def ending? : Char → Option Ending
  | '-' => some .none
  | '+' => some .every
  | _ => none

/-- The indentation and the ending that the signs of a block announce. -/
def blockSigns? : List Char → Option (Option Nat × Ending)
  | [] => some (none, .one)
  | [c] => match ending? c, digitValue? 10 c with
    | some e, _ => some (none, e)
    | none, some n => if n = 0 then none else some (some n, .one)
    | none, none => none
  | [c, d] => match ending? c, digitValue? 10 d, digitValue? 10 c, ending? d with
    | some e, some n, _, _ | _, _, some n, some e => if n = 0 then none else some (some n, e)
    | _, _, _, _ => none
  | _ => none

/-- Reads the line of a block after its first sign: what it announces, and nothing but a
comment. -/
def readBlockSigns (s : List Placed) : Option ((Option Nat × Ending) × List Placed) := do
  let isSign (c : Placed) : Bool := c.char.isDigit || (ending? c.char).isSome
  let signs ← blockSigns? ((s.takeWhile isSign).map Placed.char)
  let left := (s.dropWhile isSign).dropWhile (isBlank ·.char)
  let left := if startsWith (· = '#') left then left.dropWhile (!isBreak ·.char) else left
  match left with
  | [] => some (signs, [])
  | c :: r => if isBreak c.char then some (signs, r) else none

/-- The indentation of a block: that of its first line with content, and of no line in
front of it more, but at least the given one. -/
def blockIndent? (least : Nat) : List Placed → Option Nat
  | [] => some least
  | c :: s =>
    if c.char = ' ' then blockIndent? least s
    else if c.char = '\t' then none
    else if isBreak c.char then blockIndent? (max least c.column) s
    else some (max least c.column)

/-- Reads the lines of a block with the given indentation.  In a folded block, breaks
between lines that do not start with white space are folded. -/
def readLines (folded : Bool) (indent : Nat) (done : List Char) (gap : Gap) (afterBlank : Bool) :
    List Placed → Option (List Char × Gap × List Placed)
  | [] => some (done, gap, [])
  | c :: s =>
    if isBreak c.char then readLines folded indent done (gap.add c.char) afterBlank s
    else if c.column < indent then
      if c.char = ' ' then readLines folded indent done gap afterBlank s
      else if c.char = '\t' then none
      else some (done, gap, c :: s)
    else if indent < c.column then readLines folded indent (c.char :: done) gap afterBlank s
    else
      let blank := isBlank c.char
      let between := if folded && !afterBlank && !blank then gap.folded else gap.kept
      readLines folded indent (c.char :: (between ++ done)) .empty blank s

/-- Reads a block, after its first sign, whose lines stand at least that far in. -/
def readBlock (folded : Bool) (least : Nat) (s : List Placed) :
    Option (List Char × List Placed) := do
  let ((announced, ending), s) ← readBlockSigns s
  let indent ← match announced with
    | some n => some (least - 1 + n)
    | none => blockIndent? (max least 1) s
  let (done, gap, s) ← readLines folded indent [] (.breaks none []) false s
  some (ending.finish done gap, s)

end Eponym.Data.Yaml
