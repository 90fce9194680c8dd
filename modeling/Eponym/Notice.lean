/-
# Notices

What is worth a remark although nothing fails: an entry that repeats another, or
a class that is its own ancestor.
-/
import Eponym.TypeName

namespace Eponym

/-- A remark on the input. -/
inductive Notice where
  /-- A denied type name repeats an earlier one. -/
  | repeatedTypeName (name : String)
  /-- A denied base name repeats an earlier one. -/
  | repeatedBaseName (name : String)
  /-- The chain of parent classes runs into itself at the named parent. -/
  | cyclicHierarchy (parent : TypeName)
  deriving DecidableEq

/-- The text of a remark. -/
def Notice.message : Notice → String
  | repeatedTypeName name => s!"Duplicate deny-list type name ignored: {name}"
  | repeatedBaseName name => s!"Duplicate deny-list candidate name ignored: {name}"
  | cyclicHierarchy parent => s!"Cyclic class hierarchy through {parent.text}"

end Eponym
