/-
# Camel case once more

A name of ASCII letters is read the same in camel case: the words of its camel-case form are the
words of the name as they are spelled there, so that camel case changes nothing a second time.
Small letters end where the next word begins with its capital.  A word of a single capital is the
only one that stays an acronym; it stands at the end of the name or in front of a capital with a
small letter behind it, and both are so in the form as well.

* `Leads.laterWord` : a word behind others is read as it is spelled there;
* `words_flatMap_laterWord` : so are all words behind others;
* `words_camelCaseChars` : the words of a camel-case form;
* `camelCase_camelCase` : camel case of a camel-case form.
-/
import Eponym.Proofs.Identifier.Boundary

namespace Eponym

/-! ## Words as they are spelled -/

/-- A word as it is spelled behind another in camel case. -/
def laterWord (w : List Char) : List Char := capitalizeChars (w.map Char.toLower)

/-- The words of a name as they are spelled in camel case. -/
def camelWords : List (List Char) → List (List Char)
  | [] => []
  | w :: ws => w.map Char.toLower :: ws.map laterWord

/-- Words put together as they are spelled in camel case are joined in camel case. -/
theorem flatten_camelWords (ws : List (List Char)) : (camelWords ws).flatten = joinCamel ws := by
  cases ws with
  | nil => rfl
  | cons w ws =>
    rw [camelWords, List.flatten_cons, ← List.flatMap_def]
    rfl

/-- A word behind another is spelled the same a second time. -/
theorem laterWord_laterWord (w : List Char) : laterWord (laterWord w) = laterWord w := by
  show capitalizeChars ((capitalizeChars (w.map Char.toLower)).map Char.toLower) = _
  rw [map_toLower_capitalizeChars, map_toLower_map_toLower]
  rfl

/-- All words are spelled the same a second time. -/
theorem camelWords_camelWords (ws : List (List Char)) :
    camelWords (camelWords ws) = camelWords ws := by
  cases ws with
  | nil => rfl
  | cons w ws =>
    have hlater : (ws.map laterWord).map laterWord = ws.map laterWord := by
      rw [List.map_map]
      exact List.map_congr_left fun v _ => laterWord_laterWord v
    show (w.map Char.toLower).map Char.toLower :: (ws.map laterWord).map laterWord = _
    rw [map_toLower_map_toLower, hlater]
    rfl

section Stability

variable {d u : Char} {run s t w rest rest' : List Char}

/-! ## Words behind others -/

theorem isLower_of_mem_map_toLower (ht : ∀ c ∈ t, c.isAlpha = true) :
    ∀ c ∈ t.map Char.toLower, c.isLower = true := by
  rintro _ hc
  obtain ⟨d, hd, rfl⟩ := List.mem_map.1 hc
  rw [Char.isLower_toLower_eq_isAlpha]
  exact ht d hd

theorem laterWord_cons (hu : u.isUpper = true) :
    laterWord (u :: t) = u :: t.map Char.toLower := by
  rw [laterWord, List.map_cons, capitalizeChars, toUpper_toLower hu]

/-- Behind a word of letters that leads a name stands no small letter. -/
theorem Leads.head?_isLower (h : Leads w rest) (hw : ∀ c ∈ w, c.isAlpha = true) :
    ∀ c ∈ rest.head?, c.isLower = false := by
  cases h with
  | acronym _ _ hrest => exact hrest.head?_isLower
  | small _ _ hrest => exact hrest
  | capitalized _ hrest => exact hrest
  | digits hne hdigits =>
    obtain ⟨c, hc⟩ := List.exists_mem_of_ne_nil w hne
    exact absurd (hdigits c hc) (Bool.eq_false_iff.1 (isDigit_of_isAlpha (hw c hc)))

/-- An acronym may end behind a capital that is a word by itself. -/
theorem Leads.endsAcronym (h : Leads [u] rest) (hu : u.isUpper = true) : EndsAcronym rest := by
  have hmem : u ∈ [u] := List.mem_singleton_self u
  cases h with
  | acronym _ _ hrest => exact hrest
  | small _ hw => exact absurd hu (Bool.eq_false_iff.1 (isUpper_of_isLower (hw u hmem)))
  | capitalized hw => cases hw
  | digits _ hw => exact absurd hu (Bool.eq_false_iff.1 (isUpper_of_isDigit (hw u hmem)))

/-- Whether a text may stand in the place of another behind a word: no small letter is at its
head, and an acronym may end in front of it if one may in front of the other. -/
structure MayReplace (rest rest' : List Char) : Prop where
  head : ∀ c ∈ rest'.head?, c.isLower = false
  endsAcronym : EndsAcronym rest → EndsAcronym rest'

/-- A word of letters behind others still leads what may stand behind it, as it is spelled. -/
theorem Leads.laterWord (h : Leads (u :: t) rest) (hu : u.isUpper = true)
    (ht : ∀ c ∈ t, c.isAlpha = true) (hrest : MayReplace rest rest') :
    Leads (laterWord (u :: t)) rest' := by
  rw [laterWord_cons hu]
  have hsmall := isLower_of_mem_map_toLower ht
  cases t with
  | nil =>
    refine .acronym (List.cons_ne_nil u []) ?_ (hrest.endsAcronym (h.endsAcronym hu))
    exact List.forall_mem_singleton.2 hu
  | cons l t => exact .capitalized (isCapitalized_iff.2 ⟨u, _, _, rfl, hu, hsmall⟩) hrest.head

/-- A word of letters with a capital at its head may be replaced by the word as it is spelled
behind others, whatever follows then. -/
theorem mayReplace_laterWord (hu : u.isUpper = true) (ht : ∀ c ∈ t, c.isAlpha = true)
    (hrest : ∀ c ∈ rest.head?, c.isLower = false) (rest' : List Char) :
    MayReplace (u :: t ++ rest) (laterWord (u :: t) ++ rest') := by
  rw [laterWord_cons hu]
  refine ⟨by simpa using isLower_of_isUpper hu, fun hends => ?_⟩
  have hsmall := isLower_of_mem_map_toLower ht
  cases t with
  | nil =>
    -- a small letter would stand behind the capital
    cases hends with
    | digit hd => exact absurd hu (Bool.eq_false_iff.1 (isUpper_of_isDigit hd))
    | capital _ hl => exact absurd hl (Bool.eq_false_iff.1 (hrest _ rfl))
  | cons l t => exact .capital hu (hsmall _ List.mem_cons_self)

/-- What is passed over ends in a character that is no letter. -/
theorem Passed.not_letters (h : Passed run d) :
    ¬ ∀ c ∈ run ++ d :: t, c.isAlpha = true := by
  intro hs
  have hd : d.isAlpha = true := hs d (List.mem_append_right run List.mem_cons_self)
  exact Bool.eq_false_iff.1 h.stop (isAlphanum_of_isAlpha hd)

/-- Words behind others are read as they are spelled. -/
theorem words_flatMap_laterWord (hs : ∀ c ∈ s, c.isAlpha = true)
    (hhead : ∀ c ∈ s.head?, c.isLower = false) :
    words ((words s).flatMap laterWord) = (words s).map laterWord ∧
      MayReplace s ((words s).flatMap laterWord) := by
  induction s using reading_induction with
  | nil =>
    rw [words_nil]
    exact ⟨words_nil, hhead, id⟩
  | word w rest h ih =>
    obtain ⟨hw, hrest⟩ := List.forall_mem_append.1 hs
    obtain ⟨hwords, hreplace⟩ := ih hrest (h.head?_isLower hw)
    obtain ⟨u, t, rfl⟩ := List.exists_cons_of_ne_nil h.ne_nil
    obtain ⟨hu, ht⟩ := List.forall_mem_cons.1 hw
    have hupper : u.isUpper = true := isUpper_of_isAlpha hu (hhead u rfl)
    -- the first word may be a single capital, so that what follows it has to let an acronym end
    rw [words_of_leads h, List.flatMap_cons, List.map_cons]
    refine ⟨?_, mayReplace_laterWord hupper ht (h.head?_isLower hw) _⟩
    rw [words_of_leads (h.laterWord hupper ht hreplace), hwords]
  | passed run d t h => exact absurd hs h.not_letters

/-! ## All words -/

/-- A name of letters has no letter outside its words, so its camel-case form is these joined. -/
theorem camelCaseChars_of_letters (hs : ∀ c ∈ s, c.isAlpha = true) :
    camelCaseChars s = joinCamel (words s) := by
  by_cases hwords : words s = []
  · have hflatten := flatten_words fun c hc => isAlphanum_of_isAlpha (hs c hc)
    rw [hwords] at hflatten
    obtain rfl : [] = s := hflatten
    rw [camelCaseChars_eq_nil.2 rfl, words_nil]
    rfl
  · exact camelCaseChars_of_words hwords

/-- The camel-case form of a name of letters is read as the words of the name, as they are spelled
there. -/
theorem words_camelCaseChars (hs : ∀ c ∈ s, c.isAlpha = true) :
    words (camelCaseChars s) = camelWords (words s) := by
  rw [camelCaseChars_of_letters hs]
  induction s using reading_induction with
  | nil =>
    rw [words_nil]
    exact words_nil
  | word w rest h =>
    obtain ⟨hw, hrest⟩ := List.forall_mem_append.1 hs
    obtain ⟨hwords, hreplace⟩ := words_flatMap_laterWord hrest (h.head?_isLower hw)
    have hlead : Leads (w.map Char.toLower) ((words rest).flatMap laterWord) :=
      .small (mt List.map_eq_nil_iff.1 h.ne_nil) (isLower_of_mem_map_toLower hw) hreplace.head
    rw [words_of_leads h, ← flatten_camelWords, camelWords, List.flatten_cons, ← List.flatMap_def,
      words_of_leads hlead, hwords]
  | passed run d t h => exact absurd hs h.not_letters

/-- Camel case leaves the camel-case form of letters as it is. -/
theorem camelCaseChars_camelCaseChars (hs : ∀ c ∈ s, c.isAlpha = true) :
    camelCaseChars (camelCaseChars s) = camelCaseChars s := by
  have hform : camelCaseChars s = (camelWords (words s)).flatten := by
    rw [flatten_camelWords, camelCaseChars_of_letters hs]
  have hwords : words (camelCaseChars s) = camelWords (words s) := words_camelCaseChars hs
  by_cases hnil : camelWords (words s) = []
  · rw [hform, hnil]
    exact camelCaseChars_eq_nil.2 rfl
  · calc camelCaseChars (camelCaseChars s)
        = joinCamel (words (camelCaseChars s)) := camelCaseChars_of_words (hwords ▸ hnil)
      _ = (camelWords (camelWords (words s))).flatten := by rw [hwords, flatten_camelWords]
      _ = (camelWords (words s)).flatten := by rw [camelWords_camelWords]
      _ = camelCaseChars s := hform.symm

end Stability

/-! ## Names -/

/-- The camel-case form of a name of ASCII letters is read as the words of the name, the first in
small letters and each later one capitalized, and camel case leaves it as it is. -/
theorem camelCase_camelCase {name : String} (h : ∀ c ∈ name.toList, c.isAlpha = true) :
    wordsOf (camelCase name) = (camelWords (words name.toList)).map String.ofList ∧
      camelCase (camelCase name) = camelCase name := by
  constructor
  · rw [wordsOf, toList_camelCase, words_camelCaseChars h]
  · rw [← String.toList_inj, toList_camelCase, toList_camelCase, camelCaseChars_camelCaseChars h]

/-- Acronyms of several letters are folded, those of one letter stay in front of a word and at the
end. -/
theorem camelCase_camelCase_server :
    (∀ c ∈ "HTTPServerXNodeA".toList, c.isAlpha = true) ∧
      camelCase "HTTPServerXNodeA" = "httpServerXNodeA" ∧
      wordsOf (camelCase "HTTPServerXNodeA") = ["http", "Server", "X", "Node", "A"] ∧
      camelCase (camelCase "HTTPServerXNodeA") = camelCase "HTTPServerXNodeA" := by
  have h : ∀ c ∈ "HTTPServerXNodeA".toList, c.isAlpha = true := by simp
  obtain ⟨hwords, hstable⟩ := camelCase_camelCase h
  refine ⟨h, by decide +kernel, ?_, hstable⟩
  rw [hwords]
  decide +kernel

/-- With a digit in front, two words of one letter may come to stand side by side, and are one
acronym then. -/
example : camelCase (camelCase "a1bC") ≠ camelCase "a1bC" := by decide +kernel

end Eponym
