/-
# Declarations of types

A type model is a list of declarations: classes, interfaces, traits and enums,
each with the types it extends and the interfaces it implements.

* `Declaration.flaw?_eq_none_iff` : the conditions that a declaration has to meet.
-/
import Eponym.Denied
import Eponym.Fault
import Eponym.Text.Blank

namespace Eponym

/-! ## Declarations -/

/-- The kinds of declared types. -/
inductive Kind where
  | plainClass
  | interface
  | trait
  | enum
  deriving DecidableEq, Repr

/-- The declaration of a type.  A class extends a class, an interface extends
interfaces; `builtin` types belong to the runtime. -/
structure Declaration where
  name : TypeName
  kind : Kind
  extended : List TypeName
  implemented : List TypeName
  builtin : Bool
  deriving DecidableEq

namespace Declaration

/-- The key under which the declaration is found. -/
def key (d : Declaration) : String := d.name.key

/-! ## Conditions -/

/-- What is wrong with a declaration. -/
inductive Flaw where
  | emptyName
  | blankInName (name : TypeName)
  | severalParents (name : TypeName)
  | extendsTypes (name : TypeName)
  | implementsInterfaces (name : TypeName)
  deriving DecidableEq

/-- The text that reports a flaw. -/
def Flaw.message : Flaw → String
  | emptyName => "Type name cannot be empty"
  | blankInName name => s!"Type name `{name.text}` contains whitespace"
  | severalParents name => s!"Class `{name.text}` cannot extend more than one class"
  | extendsTypes name => s!"`{name.text}` cannot extend other types"
  | implementsInterfaces name => s!"`{name.text}` cannot implement interfaces"

/-- The part of a declaration that has the flaw, as an extension of its path. -/
def Flaw.part : Flaw → String
  | emptyName | blankInName _ => ""
  | severalParents _ | extendsTypes _ => ".extends"
  | implementsInterfaces _ => ".implements"

/-- The first flaw of a declaration, if it has any. -/
def flaw? (d : Declaration) : Option Flaw :=
  if d.name.text = "" then some .emptyName
  else if Text.containsBlank d.name.text then some (.blankInName d.name)
  else match d.kind with
    | .plainClass => if 1 < d.extended.length then some (.severalParents d.name) else none
    | .enum => if d.extended ≠ [] then some (.extendsTypes d.name) else none
    | .interface => if d.implemented ≠ [] then some (.implementsInterfaces d.name) else none
    | .trait =>
      if d.extended ≠ [] then some (.extendsTypes d.name)
      else if d.implemented ≠ [] then some (.implementsInterfaces d.name) else none

/-- The conditions that a declaration has to meet. -/
theorem flaw?_eq_none_iff {d : Declaration} :
    d.flaw? = none ↔ d.name.text ≠ "" ∧ Text.containsBlank d.name.text = false ∧
      (d.kind = .plainClass → d.extended.length ≤ 1) ∧
      (d.kind = .enum ∨ d.kind = .trait → d.extended = []) ∧
      (d.kind = .interface ∨ d.kind = .trait → d.implemented = []) := by
  unfold flaw?
  by_cases hname : d.name.text = ""
  · simp [hname]
  by_cases hblank : Text.containsBlank d.name.text = true
  · simp [hname, hblank]
  cases hk : d.kind with
  | plainClass => simp [hname, hblank]
  | «interface» => simp [hname, hblank]
  | enum => simp [hname, hblank]
  | trait => by_cases hext : d.extended = [] <;> simp [hname, hblank, hext]

/-- The report of a flaw in the declaration with the given place in its list. -/
def Flaw.fault (flaw : Flaw) (index : Nat) : Fault :=
  .validation flaw.message (some s!"types[{index}]{flaw.part}")

end Declaration

end Eponym
