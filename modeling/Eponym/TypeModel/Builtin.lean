/-
# Types of the language runtime

The classes and interfaces that are there without being declared.  They never
give an identifier a base name, but they may stand among the parents and
interfaces of types that do.
-/
import Eponym.TypeModel.Catalogue

namespace Eponym.Catalogue

/-- An interface of the runtime and the interfaces it extends. -/
def builtinInterface (name : String) (extended : List String) : Declaration :=
  ⟨.ofString name, .interface, extended.map .ofString, [], true⟩

/-- A class of the runtime, the class it extends and the interfaces it implements. -/
def builtinClass (name : String) (extended implemented : List String) : Declaration :=
  ⟨.ofString name, .plainClass, extended.map .ofString, implemented.map .ofString, true⟩

/-- The types of the runtime. -/
def builtinDeclarations : List Declaration := [
  builtinInterface "Traversable" [],
  builtinInterface "Iterator" ["Traversable"],
  builtinInterface "IteratorAggregate" ["Traversable"],
  builtinInterface "ArrayAccess" [],
  builtinInterface "Countable" [],
  builtinInterface "Stringable" [],
  builtinInterface "JsonSerializable" [],
  builtinInterface "Serializable" [],
  builtinInterface "UnitEnum" [],
  builtinInterface "BackedEnum" ["UnitEnum"],
  builtinInterface "Throwable" ["Stringable"],
  builtinInterface "DateTimeInterface" [],
  builtinClass "Exception" [] ["Throwable"],
  builtinClass "Error" [] ["Throwable"],
  builtinClass "ErrorException" ["Exception"] [],
  builtinClass "RuntimeException" ["Exception"] [],
  builtinClass "LogicException" ["Exception"] [],
  builtinClass "DomainException" ["LogicException"] [],
  builtinClass "InvalidArgumentException" ["LogicException"] [],
  builtinClass "UnexpectedValueException" ["RuntimeException"] [],
  builtinClass "DateTime" [] ["DateTimeInterface"],
  builtinClass "DateTimeImmutable" [] ["DateTimeInterface"],
  builtinClass "DateTimeZone" [] [],
  builtinClass "DateInterval" [] [],
  builtinClass "ArrayObject" [] ["IteratorAggregate", "ArrayAccess", "Serializable", "Countable"],
  builtinClass "ArrayIterator" [] ["Iterator", "ArrayAccess", "Serializable", "Countable"],
  builtinClass "Generator" [] ["Iterator"],
  builtinClass "Closure" [] [],
  builtinClass "stdClass" [] [],
  builtinClass "SplObjectStorage" [] ["Countable", "Iterator", "Serializable", "ArrayAccess"]]

/-- The catalogue that holds the types of the runtime. -/
def builtins : Catalogue := builtinDeclarations.foldl register empty

-- No two types of the runtime share a key.
example : builtins.size = builtinDeclarations.length := by decide +kernel

end Eponym.Catalogue
