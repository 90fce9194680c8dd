/-
# Writing types

The expression that stands for a descriptor: members joined by `|` or `&`, with
parentheses around a union or intersection that is itself a member, and `array`
for whatever is iterable.  In messages a type is quoted by the short names of the
types it names.
-/
import Eponym.TypeExpression.Descriptor

namespace Eponym.Descriptor

/-! ## Expressions -/

/-- Whether the descriptor needs parentheses as a member of another. -/
def isCompound : Descriptor → Bool
  | union _ | intersection _ => true
  | named _ | iterable _ | keyed _ _ | null | scalar _ => false

/-- The text in parentheses if asked for. -/
def enclose (compound : Bool) (s : List Char) : List Char :=
  if compound then '(' :: s ++ [')'] else s

mutual

/-- The expression that stands for a descriptor. -/
def chars : Descriptor → List Char
  | named t => t.name.text.toList
  | union members => joined '|' members
  | intersection members => joined '&' members
  | iterable value => ['a', 'r', 'r', 'a', 'y', '<'] ++ chars value ++ ['>']
  | keyed key value =>
    ['a', 'r', 'r', 'a', 'y', '<'] ++ chars key ++ [',', ' '] ++ chars value ++ ['>']
  | null => ['n', 'u', 'l', 'l']
  | scalar name => name.toList

/-- The expressions of several members with the sign between them. -/
def joined (sign : Char) : List Descriptor → List Char
  | [] => []
  | [d] => enclose d.isCompound (chars d)
  | d :: e :: ds => enclose d.isCompound (chars d) ++ sign :: joined sign (e :: ds)

end

/-- The expression of a member, in parentheses if it is compound. -/
def memberChars (d : Descriptor) : List Char := enclose d.isCompound d.chars

/-- The expression that stands for a descriptor. -/
def text (d : Descriptor) : String := String.ofList d.chars

instance : ToString Descriptor := ⟨text⟩

/-! ## Descriptions in messages -/

/-- The short names of the named members in alphabetical order, joined by `|`; a type
that names no other is given by its expression. -/
def describe (d : Descriptor) : String :=
  match (d.namedMembers.map fun t => t.name.short).eraseDups with
  | [] => d.text
  | names => "|".intercalate (names.mergeSort fun a b => !decide (b < a))

/-- The description of what iteration yields, or of the type if it is not iterable. -/
def describeValue (d : Descriptor) : String := (d.valueType?.getD d).describe

end Eponym.Descriptor
