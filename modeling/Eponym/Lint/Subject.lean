/-
# Subjects

The identifiers that are checked, each with what is known of its type.
-/
import Eponym.TypeExpression.Descriptor

namespace Eponym

/-- The kinds of subjects whose name has one type. -/
inductive Place where
  /-- A variable or property that is assigned a value. -/
  | variable
  /-- A property with a declared type. -/
  | property
  /-- An assignment of a value known to be iterable. -/
  | iterableAssignment
  deriving DecidableEq, Repr

/-- An identifier to be checked. -/
inductive Subject where
  /-- A name and the type of what it holds. -/
  | typed (place : Place) (name : String) (type : Descriptor) (line : Option UInt64)
  /-- A property declared as a parameter, whose declared type may have been narrowed. -/
  | promotedProperty (name : String) (type : Descriptor) (declared : Option Descriptor)
      (line : Option UInt64)
  /-- The variable that a loop assigns elements to. -/
  | foreachValue (name : String) (iterable : Option String) (type : Descriptor)
      (line : Option UInt64)
  deriving DecidableEq

/-- The identifier that is checked. -/
def Subject.name : Subject → String
  | typed _ name _ _ | promotedProperty name _ _ _ | foreachValue name _ _ _ => name

end Eponym
