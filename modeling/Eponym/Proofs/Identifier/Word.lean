/-
# Where a word ends

A word ends in front of a capital that a small letter follows, whatever its kind: an acronym
leaves that capital to the next word, and neither small letters nor digits go on with one.  The
words of a name that ends in a capitalized word are therefore those of the rest, and that word.

* `words_append_capital` : a capital with a small letter behind it begins a word;
* `words_append_of_isCapitalized` : a capitalized word at the end is the last of the words;
* `camelCaseChars_append_of_isCapitalized` : there it is spelled the same in camel case.
-/
import Eponym.Proofs.Identifier.Reading

namespace Eponym

section Words

variable {u l : Char} {p : Char → Bool} {r s t e w rest : List Char}

/-! ## A word more -/

/-- What does not begin with a character of a class still does not with a capital behind it. -/
theorem head?_append_capital (hrest : ∀ c ∈ rest.head?, p c = false) (hu : p u = false) :
    ∀ c ∈ (rest ++ u :: t).head?, p c = false := by
  cases rest with
  | nil => simpa using hu
  | cons d rest => exact hrest

/-- A word still leads a name if a capital with a small letter is put behind it. -/
theorem Leads.append_capital (h : Leads w rest) (hu : u.isUpper = true) (hl : l.isLower = true) :
    Leads w (rest ++ u :: l :: t) := by
  cases h with
  | acronym hne hw hrest =>
    refine .acronym hne hw ?_
    cases hrest with
    | nil => exact .capital hu hl
    | digit hd => exact .digit hd
    | capital hu' hl' => exact .capital hu' hl'
  | small hne hw hrest =>
    exact .small hne hw (head?_append_capital hrest (isLower_of_isUpper hu))
  | capitalized hw hrest =>
    exact .capitalized hw (head?_append_capital hrest (isLower_of_isUpper hu))
  | digits hne hw hrest =>
    exact .digits hne hw (head?_append_capital hrest (isDigit_of_isUpper hu))

/-- A capital with a small letter behind it begins a word, whatever stands in front of it. -/
theorem words_append_capital (hu : u.isUpper = true) (hl : l.isLower = true) :
    words (r ++ u :: l :: t) = words r ++ words (u :: l :: t) := by
  induction r using reading_induction with
  | nil => rw [words_nil]; rfl
  | word w rest h ih =>
    rw [List.append_assoc, words_of_leads (h.append_capital hu hl), ih, words_of_leads h]
    rfl
  | passed run d rest h ih =>
    rw [List.append_assoc, List.cons_append, words_of_passed h, ih, words_of_passed h]

theorem words_of_isCapitalized (he : isCapitalized e = true) : words e = [e] := by
  have hwords : words (e ++ []) = e :: words [] := words_of_leads (.capitalized he (by simp))
  rwa [List.append_nil, words_nil] at hwords

/-- A capitalized word at the end is the last of the words. -/
theorem words_append_of_isCapitalized (he : isCapitalized e = true) :
    words (r ++ e) = words r ++ [e] := by
  have hword := words_of_isCapitalized he
  obtain ⟨u, l, t, rfl, hu, hsmall⟩ := isCapitalized_iff.1 he
  rw [words_append_capital hu (hsmall l List.mem_cons_self), hword]

/-! ## Camel case -/

theorem toLower_of_isLower (h : l.isLower = true) : l.toLower = l :=
  Char.toLower_eq_of_not_isUpper (Char.not_isUpper_of_isLower h)

theorem toUpper_toLower (h : u.isUpper = true) : u.toLower.toUpper = u := by
  rw [Char.toUpper_toLower_eq_toUpper]
  exact Char.toUpper_eq_of_not_isLower (Char.not_isLower_of_isUpper h)

/-- A capitalized word is spelled the same behind another in camel case. -/
theorem capitalizeChars_map_toLower (he : isCapitalized e = true) :
    capitalizeChars (e.map Char.toLower) = e := by
  obtain ⟨u, l, t, rfl, hu, hsmall⟩ := isCapitalized_iff.1 he
  have hrest : (l :: t).map Char.toLower = l :: t := by
    rw [List.map_congr_left fun c hc => toLower_of_isLower (hsmall c hc), List.map_id']
  rw [List.map_cons, hrest, capitalizeChars, toUpper_toLower hu]

/-- One more word behind others is put behind them in camel case. -/
theorem joinCamel_concat {ws : List (List Char)} (hws : ws ≠ []) :
    joinCamel (ws ++ [e]) = joinCamel ws ++ capitalizeChars (e.map Char.toLower) := by
  obtain ⟨w, ws, rfl⟩ := List.exists_cons_of_ne_nil hws
  rw [List.cons_append, joinCamel, joinCamel, List.flatMap_append, List.flatMap_singleton,
    List.append_assoc]

/-- The camel-case form of a name with words is these joined. -/
theorem camelCaseChars_of_words (h : words s ≠ []) : camelCaseChars s = joinCamel (words s) := by
  obtain ⟨w, ws, hws⟩ := List.exists_cons_of_ne_nil h
  rw [camelCaseChars, hws]

/-- A capitalized word at the end stays as it is in camel case if a word stands in front. -/
theorem camelCaseChars_append_of_isCapitalized (hr : words r ≠ []) (he : isCapitalized e = true) :
    camelCaseChars (r ++ e) = camelCaseChars r ++ e := by
  have hwords := words_append_of_isCapitalized (r := r) he
  have hne : words (r ++ e) ≠ [] := by
    rw [hwords]
    exact List.concat_ne_nil _ _
  rw [camelCaseChars_of_words hne, hwords, joinCamel_concat hr, camelCaseChars_of_words hr,
    capitalizeChars_map_toLower he]

end Words

end Eponym
