/-
# Violations

What a convention reports: which problem an identifier has, a text that says which
names are allowed, and the line, where it is known.
-/
import Eponym.Identifier.Word

namespace Eponym

/-- The problems that the conventions know. -/
inductive Problem where
  /-- The name does not end in a base name of its type. -/
  | typeSuffixMismatch
  /-- The name is a base name of its interface and nothing else. -/
  | interfaceBareName
  /-- The name of an iterable is neither a plural nor that of a collection. -/
  | iterablePluralMismatch
  /-- The name of an iterable has a `Map` segment. -/
  | mapForbidden
  /-- The name of an element fits neither the iterable nor the type of its elements. -/
  | foreachValueMismatch
  deriving DecidableEq, Repr

namespace Problem

/-- All problems. -/
def all : List Problem :=
  [typeSuffixMismatch, interfaceBareName, iterablePluralMismatch, mapForbidden,
    foreachValueMismatch]

/-- The identifier under which a problem is reported. -/
def identifier : Problem → String
  | typeSuffixMismatch => "naming.typeSuffixMismatch"
  | interfaceBareName => "naming.interfaceBareName"
  | iterablePluralMismatch => "naming.iterablePluralMismatch"
  | mapForbidden => "naming.mapForbidden"
  | foreachValueMismatch => "naming.foreachValueVarMismatch"

end Problem

/-- A problem that an identifier has. -/
structure Violation where
  problem : Problem
  message : String
  line : Option UInt64
  deriving DecidableEq

/-- A violation on one line of text. -/
def Violation.text (v : Violation) : String :=
  match v.line with
  | some line => s!"{line}: {v.message} [{v.problem.identifier}]"
  | none => s!"{v.message} [{v.problem.identifier}]"

/-! ## Names in messages -/

/-- Names with commas between them. -/
def listed (names : List String) : String := ", ".intercalate names

/-- The capitalized names with commas between them. -/
def listedEndings (bases : List String) : String := listed (bases.map capitalize)

/-- Names in alphabetical order. -/
def sorted (names : List String) : List String := names.mergeSort fun a b => !decide (b < a)

@[simp] theorem mem_sorted {name : String} {names : List String} :
    name ∈ sorted names ↔ name ∈ names := List.mem_mergeSort

@[simp] theorem sorted_eq_nil {names : List String} : sorted names = [] ↔ names = [] := by
  simp only [List.eq_nil_iff_forall_not_mem, mem_sorted]

end Eponym
