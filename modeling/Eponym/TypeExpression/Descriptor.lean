/-
# Type descriptors

What is known about the type of a value: a named type, a union or intersection of
descriptors, something iterable, null or a scalar.

* `valueType?_iterable`, `valueType?_null` : what iteration yields, case by case.
-/
import Eponym.FirstSeen
import Eponym.TypeName

namespace Eponym

/-- A named type, and whether it belongs to the runtime. -/
structure NamedType where
  name : TypeName
  builtin : Bool
  deriving DecidableEq

/-- A description of a type.  An iterable may be known by its keys as well. -/
inductive Descriptor where
  | named (type : NamedType)
  | union (members : List Descriptor)
  | intersection (members : List Descriptor)
  | iterable (value : Descriptor)
  | keyed (key value : Descriptor)
  | null
  | scalar (name : String)

namespace Descriptor

instance : Inhabited Descriptor := ⟨null⟩

/-- The descriptor of a type outside the runtime. -/
def ofName (name : String) : Descriptor := named ⟨TypeName.ofString name, false⟩

/-! ## Equality -/

mutual

/-- Decides whether two descriptors are the same. -/
def decEq : (a b : Descriptor) → Decidable (a = b)
  | named s, named t => decidable_of_iff (s = t) (by simp)
  | union s, union t => @decidable_of_iff _ (s = t) (by simp) (decEqList s t)
  | intersection s, intersection t => @decidable_of_iff _ (s = t) (by simp) (decEqList s t)
  | iterable s, iterable t => @decidable_of_iff _ (s = t) (by simp) (decEq s t)
  | keyed j s, keyed k t =>
    @decidable_of_iff _ (j = k ∧ s = t) (by simp) (@instDecidableAnd _ _ (decEq j k) (decEq s t))
  | null, null => isTrue rfl
  | scalar s, scalar t => decidable_of_iff (s = t) (by simp)
  | named _, union _ | named _, intersection _ | named _, iterable _ | named _, keyed _ _
  | named _, null | named _, scalar _ | union _, named _ | union _, intersection _
  | union _, iterable _ | union _, keyed _ _ | union _, null | union _, scalar _
  | intersection _, named _ | intersection _, union _ | intersection _, iterable _
  | intersection _, keyed _ _ | intersection _, null | intersection _, scalar _
  | iterable _, named _ | iterable _, union _ | iterable _, intersection _
  | iterable _, keyed _ _ | iterable _, null | iterable _, scalar _ | keyed _ _, named _
  | keyed _ _, union _ | keyed _ _, intersection _ | keyed _ _, iterable _ | keyed _ _, null
  | keyed _ _, scalar _ | null, named _ | null, union _ | null, intersection _
  | null, iterable _ | null, keyed _ _ | null, scalar _ | scalar _, named _
  | scalar _, union _ | scalar _, intersection _ | scalar _, iterable _ | scalar _, keyed _ _
  | scalar _, null => isFalse (by simp)

/-- Decides whether two lists of descriptors are the same. -/
def decEqList : (s t : List Descriptor) → Decidable (s = t)
  | [], [] => isTrue rfl
  | a :: s, b :: t =>
    @decidable_of_iff _ (a = b ∧ s = t) (by simp)
      (@instDecidableAnd _ _ (decEq a b) (decEqList s t))
  | [], _ :: _ | _ :: _, [] => isFalse (by simp)

end

instance : DecidableEq Descriptor := decEq

/-! ## Named members -/

mutual

/-- The named leaves outside iterables, from left to right. -/
def leaves : Descriptor → List NamedType
  | named t => [t]
  | union members | intersection members => leavesList members
  | iterable _ | keyed _ _ | null | scalar _ => []

/-- The named leaves of a list of descriptors. -/
def leavesList : List Descriptor → List NamedType
  | [] => []
  | d :: ds => leaves d ++ leavesList ds

end

theorem leavesList_eq (ds : List Descriptor) : leavesList ds = ds.flatMap leaves := by
  induction ds with
  | nil => rfl
  | cons d ds ih => simp [leavesList, ih]

/-- The named types a value of the type may have, each name once, in order of appearance.
What an iterable holds does not count. -/
def namedMembers (d : Descriptor) : List NamedType := distinctBy NamedType.name d.leaves

/-! ## Iteration -/

/-- The descriptor of a choice between value types: none, the only one, or a union. -/
def ofChoice : List Descriptor → Option Descriptor
  | [] => none
  | [d] => some d
  | ds => some (union ds)

mutual

/-- What iteration over a value yields, if the value is certainly iterable.

A union is iterable if every member is, and yields what the members yield; an
intersection yields what its first iterable member does.  A named type is not
known to be iterable. -/
def valueType? : Descriptor → Option Descriptor
  | iterable value | keyed _ value => some value
  | union members => (allValueTypes? members).bind fun ds => ofChoice ds.eraseDups
  | intersection members => firstValueType? members
  | named _ | null | scalar _ => none

/-- What each of the descriptors yields, if all are iterable. -/
def allValueTypes? : List Descriptor → Option (List Descriptor)
  | [] => some []
  | d :: ds => match valueType? d with
    | none => none
    | some v => (allValueTypes? ds).map (v :: ·)

/-- What the first iterable one of the descriptors yields. -/
def firstValueType? : List Descriptor → Option Descriptor
  | [] => none
  | d :: ds => match valueType? d with
    | some v => some v
    | none => firstValueType? ds

end

@[simp] theorem valueType?_iterable (v : Descriptor) : valueType? (iterable v) = some v := by
  simp [valueType?]

@[simp] theorem valueType?_keyed (k v : Descriptor) : valueType? (keyed k v) = some v := by
  simp [valueType?]

@[simp] theorem valueType?_named (t : NamedType) : valueType? (named t) = none := by
  simp [valueType?]

@[simp] theorem valueType?_null : valueType? null = none := by simp [valueType?]

@[simp] theorem valueType?_scalar (s : String) : valueType? (scalar s) = none := by
  simp [valueType?]

/-- Whether a value of the type is certainly iterable. -/
def isIterable (d : Descriptor) : Bool := d.valueType?.isSome

/-! ## Height -/

mutual

/-- The number of levels of a descriptor; a leaf has one. -/
def height : Descriptor → Nat
  | named _ | null | scalar _ => 1
  | union members | intersection members => heightList members + 1
  | iterable value => height value + 1
  | keyed key value => max (height key) (height value) + 1

/-- The greatest number of levels among several descriptors. -/
def heightList : List Descriptor → Nat
  | [] => 0
  | d :: ds => max (height d) (heightList ds)

end

end Descriptor

end Eponym
