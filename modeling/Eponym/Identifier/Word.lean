/-
# The words of an identifier

A name such as `URLParser2` is made of words: an acronym head, a word with an
optional capital, or a run of digits.  Only ASCII letters and digits form words;
a character that starts none is skipped.

* `leadingWord_append` : the word at the head and what follows make up the name;
* `words_cons_of_leadingWord` : how the words of a name are found, one by one.

Camel case joins the words again, the first in lower case and each later one
with a capital.  `segments` cuts an identifier in front of each capital instead.
-/

namespace Eponym

/-! ## The word at the head -/

/-- The leading characters of a class, and the rest. -/
def splitRun (p : Char → Bool) (s : List Char) : List Char × List Char :=
  (s.takeWhile p, s.dropWhile p)

@[simp] theorem splitRun_append (p : Char → Bool) (s : List Char) :
    (splitRun p s).1 ++ (splitRun p s).2 = s := List.takeWhile_append_dropWhile

/-- The length of the acronym at the head of a name, zero if there is none.

The capitals at the head form an acronym if a digit or the end follows.  If a
small letter follows, the last capital belongs to the next word. -/
def acronymLength (s : List Char) : Nat :=
  let (run, rest) := splitRun Char.isUpper s
  match rest with
  | [] => run.length
  | c :: _ => if c.isDigit then run.length else if c.isLower then run.length - 1 else 0

/-- The length of the word of small letters at the head, with or without a capital. -/
def smallWordLength : List Char → Nat
  | [] => 0
  | c :: s =>
    if c.isUpper then
      match (s.takeWhile Char.isLower).length with
      | 0 => 0
      | n + 1 => n + 2
    else ((c :: s).takeWhile Char.isLower).length

/-- The length of the run of digits at the head. -/
def digitsLength (s : List Char) : Nat := (s.takeWhile Char.isDigit).length

/-- The length of the word at the head: an acronym, else a small word, else digits. -/
def leadingLength (s : List Char) : Nat :=
  match acronymLength s, smallWordLength s with
  | 0, 0 => digitsLength s
  | 0, n + 1 => n + 1
  | n + 1, _ => n + 1

/-- The word at the head, empty if no word starts there, and what follows it. -/
def leadingWord (s : List Char) : List Char × List Char :=
  s.splitAt (leadingLength s)

@[simp] theorem leadingWord_append (s : List Char) :
    (leadingWord s).1 ++ (leadingWord s).2 = s := by
  simp [leadingWord]

/-! ## All words -/

/-- The words of a name, in order; a character that starts no word is skipped. -/
def words (s : List Char) : List (List Char) :=
  match s with
  | [] => []
  | c :: t =>
    match _h : leadingWord (c :: t) with
    | ([], _) => words t
    | (d :: w, rest) => (d :: w) :: words rest
termination_by s.length
decreasing_by
  · simp
  · have := congrArg List.length (leadingWord_append (c :: t))
    simp only [_h, List.length_append, List.length_cons] at this ⊢
    omega

@[simp] theorem words_nil : words [] = [] := by simp [words]

/-- A word at the head is the first of the words. -/
theorem words_cons_of_leadingWord {s w rest : List Char} (h : leadingWord s = (w, rest))
    (hw : w ≠ []) : words s = w :: words rest := by
  have ha := leadingWord_append s
  rw [h] at ha
  obtain ⟨d, w, rfl⟩ := List.exists_cons_of_ne_nil hw
  simp only [List.cons_append] at ha
  subst ha
  rw [words]
  split
  · next h' => rw [h] at h'; simp at h'
  · next h' => rw [h] at h'; simp_all

/-- A character that starts no word is passed over. -/
theorem words_cons_of_skip {c : Char} {t rest : List Char}
    (h : leadingWord (c :: t) = ([], rest)) : words (c :: t) = words t := by
  rw [words]
  split
  · rfl
  · next h' => rw [h] at h'; simp at h'

/-! ## Capitals -/

/-- The text with its first character as a capital, if that is an ASCII letter. -/
def capitalizeChars : List Char → List Char
  | [] => []
  | c :: s => c.toUpper :: s

/-- The text with its first character as a small letter, if that is an ASCII letter. -/
def decapitalizeChars : List Char → List Char
  | [] => []
  | c :: s => c.toLower :: s

@[simp] theorem length_capitalizeChars (s : List Char) :
    (capitalizeChars s).length = s.length := by cases s <;> rfl

@[simp] theorem capitalizeChars_eq_nil {s : List Char} : capitalizeChars s = [] ↔ s = [] := by
  cases s <;> simp [capitalizeChars]

/-! ## Camel case -/

/-- Words joined in camel case: the first in small letters, each later one capitalized.
A later run of digits has no letter to change. -/
def joinCamel : List (List Char) → List Char
  | [] => []
  | w :: ws => w.map Char.toLower ++ ws.flatMap fun v => capitalizeChars (v.map Char.toLower)

/-- The camel-case form of a name; one without words only loses its first capital. -/
def camelCaseChars (s : List Char) : List Char :=
  match words s with
  | [] => decapitalizeChars s
  | w :: ws => joinCamel (w :: ws)

/-! ## Segments -/

/-- The identifier cut in front of each ASCII capital.  The first segment is empty
if the identifier is, or starts with a capital. -/
def segmentChars : List Char → List (List Char)
  | [] => [[]]
  | c :: s =>
    match segmentChars s with
    | [] => [[c]]
    | g :: gs => if c.isUpper then [] :: (c :: g) :: gs else (c :: g) :: gs

theorem segmentChars_ne_nil (s : List Char) : segmentChars s ≠ [] := by
  cases s with
  | nil => simp [segmentChars]
  | cons c s =>
    rw [segmentChars]
    split
    · simp
    · split <;> simp

/-- The segments make up the identifier. -/
@[simp] theorem flatten_segmentChars (s : List Char) : (segmentChars s).flatten = s := by
  induction s with
  | nil => rfl
  | cons c s ih =>
    rw [segmentChars]
    split
    · next h => exact absurd h (segmentChars_ne_nil s)
    · next g gs h =>
      rw [h] at ih
      simp only [List.flatten_cons] at ih
      split <;> simp [ih]

/-! ## On texts -/

/-- The words of a name. -/
def wordsOf (name : String) : List String := (words name.toList).map String.ofList

/-- The camel-case form of a name. -/
def camelCase (name : String) : String := String.ofList (camelCaseChars name.toList)

/-- The name with an ASCII capital first. -/
def capitalize (name : String) : String := String.ofList (capitalizeChars name.toList)

/-- The name with a small ASCII letter first. -/
def decapitalize (name : String) : String := String.ofList (decapitalizeChars name.toList)

/-- The segments of an identifier, each but the first starting with a capital. -/
def segments (identifier : String) : List String :=
  (segmentChars identifier.toList).map String.ofList

@[simp] theorem toList_capitalize (name : String) :
    (capitalize name).toList = capitalizeChars name.toList := by simp [capitalize]

@[simp] theorem toList_camelCase (name : String) :
    (camelCase name).toList = camelCaseChars name.toList := by simp [camelCase]

end Eponym
