/-
# Names of types

A type name is a path of segments between backslashes, written without a leading
one: `\App\User` and `App\User` are one name.  The last segment is the short name.

* `TypeName.ofString_text` : a name read back from its text is the name itself;
* `shortNameChars_append` : the short name is what follows the last separator.
-/

namespace Eponym

/-- The character between the segments of a type name. -/
def separator : Char := '\\'

/-- A text without its leading separators. -/
def stripSeparators (s : List Char) : List Char := s.dropWhile (· = separator)

/-- A type name, which does not start with a separator. -/
structure TypeName where
  text : String
  head_ne : text.toList.head? ≠ some separator
  deriving DecidableEq

namespace TypeName

/-- The head of a text without its leading separators is no separator. -/
theorem head_stripSeparators (s : List Char) : (stripSeparators s).head? ≠ some separator := by
  induction s with
  | nil => simp [stripSeparators]
  | cons c s ih =>
    by_cases h : c = separator
    · simpa [stripSeparators, h] using ih
    · simp [stripSeparators, h]

/-- The name that a text spells, its leading separators dropped. -/
def ofString (s : String) : TypeName where
  text := String.ofList (stripSeparators s.toList)
  head_ne := by simpa using head_stripSeparators s.toList

instance : Inhabited TypeName := ⟨ofString ""⟩

/-- Names are the same if their texts are. -/
@[ext] theorem ext {a b : TypeName} (h : a.text = b.text) : a = b := by
  cases a; cases b; simp_all

/-- A name read back from its text is the name itself. -/
@[simp] theorem ofString_text (n : TypeName) : ofString n.text = n := by
  ext1
  have h := n.head_ne
  rw [← String.toList_inj]
  cases hs : n.text.toList with
  | nil => simp [ofString, stripSeparators, hs]
  | cons c s =>
    have hc : c ≠ separator := by simpa [hs] using h
    simp [ofString, stripSeparators, hs, hc]

/-- Whether the name has no character. -/
def isEmpty (n : TypeName) : Bool := n.text.isEmpty

end TypeName

/-! ## Short names -/

/-- The characters after the last separator, or all of them if there is none. -/
def shortNameChars : List Char → List Char
  | [] => []
  | c :: s =>
    if separator ∈ s then shortNameChars s else if c = separator then s else c :: s

theorem shortNameChars_eq_self {s : List Char} (h : separator ∉ s) : shortNameChars s = s := by
  cases s with
  | nil => rfl
  | cons c s =>
    simp only [List.mem_cons, not_or] at h
    simp [shortNameChars, h.2, Ne.symm h.1]

/-- What stands in front of a separator does not matter. -/
theorem shortNameChars_append (p s : List Char) :
    shortNameChars (p ++ separator :: s) = shortNameChars s := by
  induction p with
  | nil =>
    by_cases h : separator ∈ s
    · simp [shortNameChars, h]
    · simp [shortNameChars, h, shortNameChars_eq_self h]
  | cons c p ih => simp [shortNameChars, ih]

/-- Leading separators do not matter. -/
theorem shortNameChars_stripSeparators (s : List Char) :
    shortNameChars (stripSeparators s) = shortNameChars s := by
  induction s with
  | nil => rfl
  | cons c s ih =>
    by_cases h : c = separator
    · have hshort : shortNameChars (c :: s) = shortNameChars s := by
        rw [h]
        exact shortNameChars_append [] s
      have hstrip : stripSeparators (c :: s) = stripSeparators s := by simp [stripSeparators, h]
      rw [hstrip, hshort, ih]
    · simp [stripSeparators, h]

/-- The text after the last separator of a possibly qualified name. -/
def shortName (name : String) : String := String.ofList (shortNameChars name.toList)

/-- The last segment of a type name. -/
def TypeName.short (n : TypeName) : String := shortName n.text

end Eponym
