/-
# Base names of a type

The short name of a type, in camel case, is the base name that identifiers of the
type build on.  Some affixes carry no meaning for an identifier: `Abstract` in
front is dropped, so are `Interface`, `Abstract` and `Trait` behind, while `Dto`,
`Vo` and `Entity` may be kept or dropped.  `Factory` and `Collection` do carry
meaning and stay.

* `TypeName.baseNames_ofString` : leading separators do not count.
-/
import Eponym.TypeName
import Eponym.Identifier.Word
import Eponym.Identifier.Plural

namespace Eponym

/-! ## Affixes -/

/-- The texts dropped in front of a capital. -/
def droppedHeads : List String := ["Abstract"]

/-- The endings that are always dropped. -/
def mandatoryEndings : List String := ["Interface", "Abstract", "Trait"]

/-- The endings that may be dropped; both forms are base names. -/
def optionalEndings : List String := ["Dto", "Vo", "Entity"]

/-- The endings that are never dropped. -/
def keptEndings : List String := ["Factory", "Collection"]

/-- Which rule about endings decided on the base names. -/
inductive EndingRule where
  | kept
  | mandatory
  | optional
  | none
  deriving DecidableEq, Repr

/-- What is left of a short name after a dropped head, if one stands in front of a capital. -/
def afterHead? (head s : List Char) : Option (List Char) :=
  if head.isPrefixOf s then
    match s.drop head.length with
    | [] => none
    | c :: r => if c.isUpper then some (c :: r) else none
  else none

/-- The short name without its dropped head; a name that is nothing else keeps it. -/
def dropHead (s : List Char) : List Char :=
  ((droppedHeads.findSome? fun h => afterHead? h.toList s)).getD s

/-- What stands in front of the first of the endings that the name has. -/
def beforeEnding? (endings : List String) (s : List Char) : Option (List Char) :=
  endings.findSome? fun e => stripEnding? e.toList s

/-! ## Base names -/

/-- The base names of a short name whose head is dropped, and the rule that decided. -/
def endingBaseNames (s : List Char) : List (List Char) × EndingRule :=
  if (beforeEnding? keptEndings s).isSome then ([camelCaseChars s], .kept)
  else match beforeEnding? mandatoryEndings s with
  | some [] => ([camelCaseChars s], .mandatory)
  | some r => ([camelCaseChars r], .mandatory)
  | none => match beforeEnding? optionalEndings s with
    | some [] => ([camelCaseChars s], .optional)
    | some r =>
      if camelCaseChars r = camelCaseChars s then ([camelCaseChars s], .optional)
      else ([camelCaseChars s, camelCaseChars r], .optional)
    | none => ([camelCaseChars s], .none)

/-- The base names of a possibly qualified name, and the rule that decided. -/
def baseNameChars (s : List Char) : List (List Char) × EndingRule :=
  endingBaseNames (dropHead (shortNameChars s))

/-- The base names of a possibly qualified name. -/
def baseNamesOf (name : String) : List String :=
  (baseNameChars name.toList).1.map String.ofList

/-- The rule about endings that decides on the base names of a name. -/
def endingRuleOf (name : String) : EndingRule := (baseNameChars name.toList).2

/-- The base names of a type. -/
def TypeName.baseNames (n : TypeName) : List String := baseNamesOf n.text

/-- A name that is read from a text has the base names of the text. -/
theorem TypeName.baseNames_ofString (s : String) : (ofString s).baseNames = baseNamesOf s := by
  rw [baseNames, baseNamesOf, baseNamesOf, ofString, String.toList_ofList, baseNameChars,
    baseNameChars, shortNameChars_stripSeparators]

example : baseNamesOf "App\\AbstractChannelInterface" = ["channel"] := by decide +kernel
example : baseNamesOf "UserDto" = ["userDto", "user"] := by decide +kernel

end Eponym
