/-
# Base names can be used

Whatever a type is called, there are one or two base names, and an identifier can be made of
each: all of them are in camel case, so none begins with an ASCII capital, and none is empty
unless nothing stands behind the last separator.  Dropping a head or an ending changes nothing
about that, since it leaves a shorter text that is not empty and goes into camel case again.

* `head?_camelCaseChars` : camel case begins with no capital;
* `endingBaseNames_cases` : one base name, or two different ones under the optional rule;
* `baseNames_usable` : the base names of any name.
-/
import Eponym.Proofs.BaseName
import Mathlib

namespace Eponym

/-! ## Short names -/

theorem exists_last_separator {s : List Char} (h : separator ∈ s) :
    ∃ p t, s = p ++ separator :: t ∧ separator ∉ t := by
  obtain ⟨t, p, hs, ht⟩ := List.eq_append_cons_of_mem (List.mem_reverse.2 h)
  refine ⟨p.reverse, t.reverse, ?_, mt List.mem_reverse.1 ht⟩
  rw [← List.reverse_inj, hs]
  simp

theorem baseNameChars_congr {s t : List Char} (h : shortNameChars s = shortNameChars t) :
    baseNameChars s = baseNameChars t := by
  rw [baseNameChars, baseNameChars, h]

/-! ## Camel case -/

/-- Camel case begins with no capital. -/
theorem head?_camelCaseChars (s : List Char) :
    ∀ c ∈ (camelCaseChars s).head?, c.isUpper = false := by
  intro c hc
  cases hwords : words s with
  | nil =>
    -- the text itself, its first character made small
    rw [camelCaseChars, hwords] at hc
    cases s with
    | nil => cases hc
    | cons d s =>
      obtain rfl := Option.some.inj hc
      exact Char.isUpper_toLower_eq_false d
  | cons w ws =>
    have hw : w ≠ [] := ne_nil_of_mem_words (hwords ▸ List.mem_cons_self)
    obtain ⟨d, w, rfl⟩ := List.exists_cons_of_ne_nil hw
    rw [camelCaseChars, hwords] at hc
    obtain rfl := Option.some.inj hc
    exact Char.isUpper_toLower_eq_false d

/-! ## The base names of a short name -/

/-- There is one base name, or there are two different ones under the optional rule.  Each is
the camel-case form of something. -/
theorem endingBaseNames_cases (s : List Char) :
    (∃ r rule, endingBaseNames s = ([camelCaseChars r], rule)) ∨
      ∃ r, camelCaseChars s ≠ camelCaseChars r ∧
        endingBaseNames s = ([camelCaseChars s, camelCaseChars r], .optional) := by
  cases hkept : beforeEnding? keptEndings s with
  | some r => exact .inl ⟨s, .kept, endingBaseNames_of_kept hkept⟩
  | none =>
    cases hmandatory : beforeEnding? mandatoryEndings s with
    | some r =>
      rw [endingBaseNames_of_mandatory hkept hmandatory]
      split
      · exact .inl ⟨s, .mandatory, rfl⟩
      · exact .inl ⟨r, .mandatory, rfl⟩
    | none =>
      cases hoptional : beforeEnding? optionalEndings s with
      | some r =>
        rw [endingBaseNames_of_optional hkept hmandatory hoptional]
        split
        · exact .inl ⟨s, .optional, rfl⟩
        · next hne => exact .inr ⟨r, fun h => hne (.inr h.symm), rfl⟩
      | none => exact .inl ⟨s, .none, endingBaseNames_of_none hkept hmandatory hoptional⟩

/-- Each base name is the camel-case form of something. -/
theorem exists_camelCaseChars_of_mem {s b : List Char} (hb : b ∈ (endingBaseNames s).1) :
    ∃ r, b = camelCaseChars r := by
  rcases endingBaseNames_cases s with ⟨r, rule, h⟩ | ⟨r, -, h⟩
  · rw [h, List.mem_singleton] at hb
    exact ⟨r, hb⟩
  · rw [h, List.mem_pair] at hb
    rcases hb with hb | hb
    · exact ⟨s, hb⟩
    · exact ⟨r, hb⟩

/-! ## The base names of a name -/

/-- A name has one base name or two different ones, and two only under the optional rule.  They
are the same for all names with its short name.  If that is not empty, no base name is, and none
begins with a capital. -/
theorem baseNames_usable (name : String) :
    ((baseNamesOf name).length = 1 ∨ (baseNamesOf name).length = 2) ∧ (baseNamesOf name).Nodup ∧
      (∀ other, shortName other = shortName name → baseNamesOf other = baseNamesOf name) ∧
      ((baseNamesOf name).length = 2 → endingRuleOf name = .optional) ∧
      (shortName name ≠ "" →
        ∀ b ∈ baseNamesOf name, b ≠ "" ∧ ∀ c ∈ b.toList.head?, c.isUpper = false) := by
  have hcases := endingBaseNames_cases (dropHead (shortNameChars name.toList))
  rw [← baseNameChars] at hcases
  refine ⟨?_, ?_, ?_, ?_, ?_⟩
  · rcases hcases with ⟨r, rule, h⟩ | ⟨r, -, h⟩
    · exact .inl (by rw [baseNamesOf, h]; rfl)
    · exact .inr (by rw [baseNamesOf, h]; rfl)
  · refine List.Nodup.map (fun _ _ => String.ofList_injective) ?_
    rcases hcases with ⟨r, rule, h⟩ | ⟨r, hne, h⟩
    · rw [h]
      exact List.nodup_singleton _
    · rw [h]
      exact List.nodup_cons.2 ⟨mt List.mem_singleton.1 hne, List.nodup_singleton _⟩
  · intro other hother
    rw [baseNamesOf, baseNamesOf, baseNameChars_congr (String.ofList_injective hother)]
  · rintro htwo
    rcases hcases with ⟨r, rule, h⟩ | ⟨r, -, h⟩
    · rw [baseNamesOf, h] at htwo
      exact absurd htwo (Nat.ne_of_lt Nat.one_lt_two)
    · rw [endingRuleOf, h]
  · intro hshort b hb
    have hne : b ≠ "" := by
      rintro rfl
      exact hshort (empty_mem_baseNamesOf_iff.1 hb)
    obtain ⟨s, hs, rfl⟩ := List.mem_map.1 hb
    obtain ⟨r, rfl⟩ := exists_camelCaseChars_of_mem hs
    rw [String.toList_ofList]
    exact ⟨hne, head?_camelCaseChars r⟩

/-- Both names of a transfer object can be used, also with an abstract prefix, and they are the
same in any namespace. -/
theorem baseNames_usable_user :
    shortName "App\\AbstractUserDto" ≠ "" ∧ (baseNamesOf "App\\AbstractUserDto").length = 2 ∧
      shortName "Lib\\Model\\AbstractUserDto" = shortName "App\\AbstractUserDto" ∧
      endingRuleOf "App\\AbstractUserDto" = .optional ∧
      baseNamesOf "Lib\\Model\\AbstractUserDto" = baseNamesOf "App\\AbstractUserDto" ∧
      ∀ b ∈ baseNamesOf "App\\AbstractUserDto",
        b ≠ "" ∧ ∀ c ∈ b.toList.head?, c.isUpper = false := by
  have hshort : shortName "App\\AbstractUserDto" ≠ "" := by decide
  have htwo : (baseNamesOf "App\\AbstractUserDto").length = 2 := by decide +kernel
  have hsame : shortName "Lib\\Model\\AbstractUserDto" = shortName "App\\AbstractUserDto" := by
    decide
  obtain ⟨-, -, hother, hrule, husable⟩ := baseNames_usable "App\\AbstractUserDto"
  exact ⟨hshort, htwo, hsame, hrule htwo, hother _ hsame, husable hshort⟩

end Eponym
