/-
# Characters of a YAML text

Every character that is read knows where it stands: where a line goes on, how far in it
starts and how long a key is depend on that.  Ends of lines have several spellings, and
all but the two separators of Unicode are read as a line feed.
-/

namespace Eponym.Data.Yaml

/-! ## Classes -/

/-- Whether a character may stand in a text, be it in quotes or not. -/
def isReadable (c : Char) : Bool :=
  c = '\t' || c = '\n' || c = '\r' || (' ' ≤ c && c ≤ '~') || c = '\u0085' ||
    ('\u00a0' ≤ c && c ≠ '\ufffe' && c ≠ '\uffff')

/-- Whether a character is white space within a line. -/
def isBlank (c : Char) : Bool := c = ' ' || c = '\t'

/-- Whether a character ends a line. -/
def isBreak (c : Char) : Bool := c = '\n' || c = '\u2028' || c = '\u2029'

/-- Whether a character separates the parts of a collection in brackets or encloses it. -/
def isBracketSign (c : Char) : Bool :=
  c = ',' || c = '[' || c = ']' || c = '\x7b' || c = '\x7d'

/-! ## Places -/

/-- A character and its place: the line, the characters in front of it on that line, and
the bytes in front of it in the text. -/
structure Placed where
  char : Char
  line : Nat
  column : Nat
  offset : Nat

/-- The characters of a text with their places, after those of `done`, which is reversed. -/
def placeFrom (done : List Placed) (line column offset : Nat) : List Char → List Placed
  | [] => done.reverse
  | c :: s =>
    let done := ⟨c, line, column, offset⟩ :: done
    if isBreak c then placeFrom done (line + 1) 0 (offset + c.utf8Size) s
    else placeFrom done line (column + 1) (offset + c.utf8Size) s

/-- The text with one spelling for the ends of lines, after `done`, which is reversed. -/
def unifyBreaks (done : List Char) : List Char → List Char
  | [] => done.reverse
  | '\r' :: '\n' :: s => unifyBreaks ('\n' :: done) s
  | '\r' :: s => unifyBreaks ('\n' :: done) s
  | '\u0085' :: s => unifyBreaks ('\n' :: done) s
  | c :: s => unifyBreaks (c :: done) s

/-- The characters of a text with their places. -/
def place (s : List Char) : List Placed := placeFrom [] 0 0 0 (unifyBreaks [] s)

/-! ## What comes next -/

/-- Whether white space or nothing is next. -/
def endsWord : List Placed → Bool
  | [] => true
  | c :: _ => isBlank c.char || isBreak c.char

/-- Whether a character of the given class is next. -/
def startsWith (p : Char → Bool) : List Placed → Bool
  | [] => false
  | c :: _ => p c.char

/-- Whether the line is one that starts or ends a document. -/
def isMarker : List Placed → Bool
  | a :: b :: c :: s =>
    a.column = 0 && (a.char = '-' || a.char = '.') && b.char = a.char && c.char = a.char &&
      endsWord s
  | _ => false

end Eponym.Data.Yaml
