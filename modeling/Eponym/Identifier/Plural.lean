/-
# Plural and singular

The plural of a name follows fixed rules about how the name ends, and so does
the singular of a plural or of a name with a collection suffix.  There is no
dictionary of irregular words, the one exception being `children`.

* `stripEnding?_eq_some` : an ending comes off exactly when the name has it;
* `pluralChars_eq_nil` : only the empty name has an empty plural.
-/

namespace Eponym

/-! ## Endings -/

/-- The text without an ending that it has. -/
def stripEnding? (ending s : List Char) : Option (List Char) :=
  if ending.isSuffixOf s then some (s.take (s.length - ending.length)) else none

/-- An ending comes off exactly when the text is the rest followed by it. -/
theorem stripEnding?_eq_some {ending s r : List Char} :
    stripEnding? ending s = some r ↔ s = r ++ ending := by
  unfold stripEnding?
  constructor
  · intro h
    split at h
    · next hs =>
      obtain ⟨t, rfl⟩ := List.isSuffixOf_iff_suffix.1 hs
      simp at h
      rw [h]
    · simp at h
  · rintro rfl
    simp [List.isSuffixOf_iff_suffix]

/-- Whether a text has one of the endings. -/
def hasEnding (endings : List String) (s : List Char) : Bool :=
  endings.any fun e => e.toList.isSuffixOf s

theorem hasEnding_iff {endings : List String} {s : List Char} :
    hasEnding endings s = true ↔ ∃ e ∈ endings, ∃ r, s = r ++ e.toList := by
  simp only [hasEnding, List.any_eq_true, List.isSuffixOf_iff_suffix]
  exact exists_congr fun e => and_congr_right fun _ => exists_congr fun r => eq_comm

/-! ## Plural -/

/-- The endings that take `es` in the plural. -/
def sibilantEndings : List String := ["s", "x", "z", "ch", "sh"]

/-- Whether a character is an ASCII vowel, in either case. -/
def isVowel (c : Char) : Bool := ['a', 'e', 'i', 'o', 'u'].contains c.toLower

/-- Whether a name ends in a `y` that some character other than a vowel precedes. -/
def endsInConsonantY (s : List Char) : Bool :=
  match s.reverse with
  | 'y' :: c :: _ => !isVowel c
  | _ => false

/-- The plural of a name: `ies` for a `y` after no vowel, `es` after a sibilant, else `s`. -/
def pluralChars (s : List Char) : List Char :=
  if s = [] then []
  else if endsInConsonantY s then s.dropLast ++ "ies".toList
  else if hasEnding sibilantEndings s then s ++ "es".toList
  else s ++ "s".toList

/-- Only the empty name has an empty plural. -/
@[simp] theorem pluralChars_eq_nil {s : List Char} : pluralChars s = [] ↔ s = [] := by
  unfold pluralChars
  split
  · simp_all
  · split
    · simp_all
    · split <;> simp_all

/-! ## Singular -/

/-- The suffixes that a collection may carry in place of a plural, in the order tried. -/
def collectionEndings : List String := ["List", "Collection", "Lookup", "ById", "ByKey"]

/-- The name without its first matching collection suffix, if anything would remain. -/
def withoutCollectionEndingChars (s : List Char) : List Char :=
  match collectionEndings.findSome? fun e =>
      (stripEnding? e.toList s).filter fun r => r ≠ [] with
  | some r => r
  | none => s

/-- The plural endings that lose `es`. -/
def esEndings : List String := ["sses", "shes", "ches", "xes", "zes"]

/-- The number of bytes that a text takes in UTF-8. -/
def byteLength (s : List Char) : Nat := s.foldr (fun c n => c.utf8Size + n) 0

/-- The singular of a name without collection suffix.  Endings are recognised in
either letter case.  A name of at most four bytes keeps an `ie` in front of its `s`. -/
def singularFormChars (s : List Char) : List Char :=
  let small := s.map Char.toLower
  if hasEnding ["ies"] small ∧ 4 < byteLength s then s.take (s.length - 3) ++ "y".toList
  else if hasEnding esEndings small then s.take (s.length - 2)
  else if hasEnding ["s"] small ∧ ¬hasEnding ["ss"] small ∧ 1 < s.length then s.dropLast
  else s

/-- The singular of a plural or of a name with a collection suffix. -/
def singularChars (s : List Char) : List Char := singularFormChars (withoutCollectionEndingChars s)

/-! ## The name of one element -/

/-- The singular of the name of something iterated over.  `children`, in any letter
case and after any text, becomes `child`; all else follows the rules. -/
def elementNameChars (s : List Char) : List Char :=
  let cut := s.length - "children".length
  if (s.drop cut).map Char.toLower = "children".toList then
    if s.take cut = [] then "child".toList else s.take cut ++ "Child".toList
  else singularChars s

/-! ## On texts -/

/-- The plural of a name. -/
def plural (name : String) : String := String.ofList (pluralChars name.toList)

/-- The singular of a plural or of a name with a collection suffix. -/
def singular (name : String) : String := String.ofList (singularChars name.toList)

/-- The name without its first matching collection suffix. -/
def withoutCollectionEnding (name : String) : String :=
  String.ofList (withoutCollectionEndingChars name.toList)

/-- The singular of the name of something iterated over. -/
def elementName (name : String) : String := String.ofList (elementNameChars name.toList)

example : plural "category" = "categories" := by decide +kernel
example : singular "nodeById" = "node" := by decide +kernel
example : elementName "pageChildren" = "pageChild" := by decide +kernel

end Eponym
