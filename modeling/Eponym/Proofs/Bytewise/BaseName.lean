/-
# Base names by byte offsets

The short name of a type starts one byte behind the last separator, and an ending is taken off
it by a difference of lengths.  As the separator is a single byte and an ending is taken off only
where it was found, all of this stays within the name and between its characters.

* `shortName?_eq` : the short name;
* `endingBaseNames?_eq`, `baseNames?_eq` : the base names under each of the rules about endings;
* `offsets_in_range` : no operation on names fails for an offset, and none empties a name.
-/
import Eponym.Proofs.BaseName.Usable
import Eponym.Proofs.Bytewise.Inflection
import Eponym.Proofs.Bytewise.Word

namespace Eponym.Bytewise

open Text

/-! ## Short names -/

/-- The place of the last separator, given the place of the next byte and the bytes from there
on. -/
def lastSeparatorFrom? (position : Nat) : List Char → Option Nat
  | [] => none
  | b :: bs =>
    (lastSeparatorFrom? (position + 1) bs).or (if b = separator then some position else none)

/-- The text after the last separator of a possibly qualified name. -/
def shortName? (name : String) : Option String :=
  match lastSeparatorFrom? 0 (byteChars name) with
  | some i => slice? name (i + 1) name.utf8ByteSize
  | none => some name

section ShortNames

variable {position : Nat} {bs t : List Char} {s : List Char}

/-- Without a separator there is no last one. -/
theorem lastSeparatorFrom?_eq_none (h : separator ∉ bs) :
    lastSeparatorFrom? position bs = none := by
  induction bs generalizing position with
  | nil => rfl
  | cons b bs ih =>
    obtain ⟨hb, hbs⟩ := not_or.1 (mt List.mem_cons.2 h)
    rw [lastSeparatorFrom?, ih hbs, if_neg (Ne.symm hb), Option.none_or]

/-- The last separator is the one that none follows. -/
theorem lastSeparatorFrom?_append (ht : separator ∉ t) :
    lastSeparatorFrom? position (bs ++ separator :: t) = some (position + bs.length) := by
  induction bs generalizing position with
  | nil =>
    rw [List.nil_append, lastSeparatorFrom?, lastSeparatorFrom?_eq_none ht, Option.none_or,
      if_pos rfl]
    rfl
  | cons b bs ih =>
    rw [List.cons_append, lastSeparatorFrom?, ih, Option.some_or, List.length_cons]
    congr 1
    omega

/-- No byte of a text without separators is one. -/
theorem separator_not_mem_byteChars (h : separator ∉ s) :
    separator ∉ byteChars (String.ofList s) := by
  intro hmem
  have hother : ∀ c ∈ s, (c == separator) = false :=
    fun c hc => beq_false_of_ne fun heq => h (heq ▸ hc)
  have hno := class_of_mem_byteChars (isAsciiClass_beq separator (by decide)) hother separator hmem
  rw [beq_self_eq_true] at hno
  exact Bool.false_ne_true hno.symm

/-- The short name starts behind the byte of the last separator. -/
theorem shortName?_eq (name : String) : shortName? name = some (shortName name) := by
  obtain ⟨s, rfl⟩ : ∃ s, name = String.ofList s := ⟨_, String.ofList_toList.symm⟩
  rw [shortName?, shortName, String.toList_ofList]
  by_cases h : separator ∈ s
  · obtain ⟨p, t, rfl, ht⟩ := exists_last_separator h
    have hbytes : byteChars (String.ofList (p ++ separator :: t)) =
        byteChars (String.ofList p) ++ separator :: byteChars (String.ofList t) := by
      rw [String.ofList_append, byteChars_append, byteChars_of_ascii (by decide)]
    have hsize : 0 + (byteChars (String.ofList p)).length + 1 = byteLength (p ++ [separator]) := by
      rw [length_byteChars, utf8ByteSize_ofList, byteLength_append, Nat.zero_add]
      rfl
    have hslice := slice?_to_end (p ++ [separator]) t
    rw [← List.append_cons, ← hsize] at hslice
    rw [hbytes, lastSeparatorFrom?_append (separator_not_mem_byteChars ht), shortNameChars_append,
      shortNameChars_eq_self ht]
    exact hslice
  · rw [lastSeparatorFrom?_eq_none (separator_not_mem_byteChars h), shortNameChars_eq_self h]

end ShortNames

/-! ## Base names -/

/-- The first of some endings that a name has. -/
def ending? (endings : List String) (s : String) : Option String :=
  endings.find? fun e => e.toList.isSuffixOf s.toList

/-- The base names of a short name whose head is dropped, and the rule that decided. -/
def endingBaseNames? (short : String) : Option (List String × EndingRule) := do
  let camel ← camelCase? short
  if (ending? keptEndings short).isSome then return ([camel], .kept)
  match ending? mandatoryEndings short with
  | some e =>
    let r ← dropEnd? short e.utf8ByteSize
    if r = "" then return ([camel], .mandatory)
    return ([← camelCase? r], .mandatory)
  | none =>
    match ending? optionalEndings short with
    | some e =>
      let r ← dropEnd? short e.utf8ByteSize
      if r = "" then return ([camel], .optional)
      let bare ← camelCase? r
      if bare = camel then return ([camel], .optional)
      return ([camel, bare], .optional)
    | none => return ([camel], .none)

/-- The base names of a possibly qualified name, and the rule that decided.  A head is dropped by
what follows it, with no offset. -/
def baseNames? (name : String) : Option (List String × EndingRule) := do
  endingBaseNames? (String.ofList (dropHead (← shortName? name).toList))

section BaseNames

variable {s : List Char} {es : List String} {e : String}

/-- A name without any of the endings has nothing in front of one. -/
theorem beforeEnding?_of_none (h : ending? es (String.ofList s) = none) :
    beforeEnding? es s = none := by
  rw [ending?, List.find?_eq_none, String.toList_ofList] at h
  refine List.findSome?_eq_none_iff.2 fun e he => ?_
  rw [stripEnding?, if_neg (h e he)]

/-- What stands in front of the first ending is the name less the bytes of the ending. -/
theorem beforeEnding?_of_some (h : ending? es (String.ofList s) = some e) :
    ∃ r, beforeEnding? es s = some r ∧
      dropEnd? (String.ofList s) e.utf8ByteSize = some (String.ofList r) := by
  rw [ending?, String.toList_ofList] at h
  induction es with
  | nil => cases h
  | cons e' es ih =>
    rw [List.find?_cons] at h
    rw [beforeEnding?, List.findSome?_cons]
    by_cases hend : e'.toList.isSuffixOf s = true
    · rw [hend] at h
      obtain rfl := Option.some.inj h
      obtain ⟨r, rfl⟩ := List.isSuffixOf_iff_suffix.1 hend
      rw [stripEnding?_eq_some.2 rfl]
      exact ⟨r, rfl, dropEnd?_ending r e'⟩
    · rw [Bool.eq_false_iff.2 hend] at h
      rw [stripEnding?, if_neg hend]
      exact ih h

/-- The base names of a short name are formed at offsets of it. -/
theorem endingBaseNames?_eq (s : List Char) :
    endingBaseNames? (String.ofList s) =
      some ((endingBaseNames s).1.map String.ofList, (endingBaseNames s).2) := by
  have hcamel : ∀ t, camelCase? (String.ofList t) = some (String.ofList (camelCaseChars t)) := by
    intro t
    rw [camelCase?_eq, camelCase, String.toList_ofList]
  rw [endingBaseNames?, hcamel]
  cases hkept : ending? keptEndings (String.ofList s) with
  | some e =>
    obtain ⟨r, hr, -⟩ := beforeEnding?_of_some hkept
    rw [endingBaseNames_of_kept hr]
    rfl
  | none =>
    have hkept := beforeEnding?_of_none hkept
    cases hmandatory : ending? mandatoryEndings (String.ofList s) with
    | some e =>
      obtain ⟨r, hr, hdrop⟩ := beforeEnding?_of_some hmandatory
      rw [endingBaseNames_of_mandatory hkept hr]
      by_cases hnil : r = []
      · simp [hnil, hdrop]
      · simp [hnil, hdrop, hcamel]
    | none =>
      have hmandatory := beforeEnding?_of_none hmandatory
      cases hoptional : ending? optionalEndings (String.ofList s) with
      | some e =>
        obtain ⟨r, hr, hdrop⟩ := beforeEnding?_of_some hoptional
        rw [endingBaseNames_of_optional hkept hmandatory hr]
        by_cases hnil : r = []
        · simp [hnil, hdrop]
        · by_cases hsame : camelCaseChars r = camelCaseChars s
          · simp [hnil, hdrop, hcamel, hsame]
          · have hne : String.ofList (camelCaseChars r) ≠ String.ofList (camelCaseChars s) :=
              fun h => hsame (String.ofList_injective h)
            simp [hnil, hdrop, hcamel, hsame, hne]
      | none =>
        rw [endingBaseNames_of_none hkept hmandatory (beforeEnding?_of_none hoptional)]
        rfl

/-- The base names of a type name are formed at offsets of it. -/
theorem baseNames?_eq (name : String) :
    baseNames? name = some (baseNamesOf name, endingRuleOf name) := by
  rw [baseNames?, shortName?_eq, shortName]
  simp only [Option.bind_eq_bind, Option.bind_some, String.toList_ofList]
  exact endingBaseNames?_eq (dropHead (shortNameChars name.toList))

end BaseNames

/-! ## All operations on names -/

/-- Whatever the name, no operation on names takes a difference of lengths below zero, and none
cuts behind the end or inside a character.  No rule about endings empties a name. -/
theorem offsets_in_range (w : String) :
    (shortName? w = some (shortName w) ∧ words? w = some (wordsOf w) ∧
      segments? w = some (segments w) ∧ baseNames? w = some (baseNamesOf w, endingRuleOf w) ∧
      plural? w = some (plural w) ∧ singular? w = some (singular w) ∧
      withoutCollectionEnding? w = some (withoutCollectionEnding w) ∧
      elementName? w = some (elementName w)) ∧
    (plural w = "" ↔ w = "") ∧ (singular w = "" ↔ w = "") ∧
      (withoutCollectionEnding w = "" ↔ w = "") ∧ (elementName w = "" ↔ w = "") := by
  refine ⟨⟨shortName?_eq w, words?_eq w, segments?_eq w, baseNames?_eq w, plural?_eq w,
    singular?_eq w, withoutCollectionEnding?_eq w, elementName?_eq w⟩, ?_⟩
  rw [plural, singular, withoutCollectionEnding, elementName, String.ofList_eq_empty_iff,
    String.ofList_eq_empty_iff, String.ofList_eq_empty_iff, String.ofList_eq_empty_iff,
    pluralChars_eq_nil, singularChars_eq_nil, withoutCollectionEndingChars_eq_nil,
    elementNameChars_eq_nil]
  have h : w.toList = [] ↔ w = "" := String.toList_eq_nil_iff
  exact ⟨h, h, h, h⟩

end Eponym.Bytewise
