/-
# Empty base names

No step on the way from a short name to its base names makes something empty out of what is
not: an affix comes off only if something is left, and camel case keeps a character of a text
that has one.  So a name has the empty base name exactly if its short name is empty, which is
to say that the name is empty or ends in a separator.  That can be seen from its key.

* `camelCaseChars_eq_nil` : only the empty text has an empty camel-case form;
* `endingBaseNames_of_kept`, `endingBaseNames_of_mandatory`, `endingBaseNames_of_optional`,
  `endingBaseNames_of_none` : the base names under each of the rules about endings;
* `empty_mem_baseNamesOf_iff` : which names have the empty base name;
* `TypeName.short_eq_empty_congr` : names with one key agree on whether they have a short name.
-/
import Eponym.BaseName
import Eponym.Denied

namespace Eponym

/-! ## Words -/

/-- No word is empty. -/
theorem ne_nil_of_mem_words {s w : List Char} (h : w ∈ words s) : w ≠ [] := by
  fun_induction words s with
  | case1 => exact absurd h List.not_mem_nil
  | case2 c t rest hword ih => exact ih h
  | case3 c t d v rest hword ih =>
    rcases List.mem_cons.1 h with rfl | h
    · exact List.cons_ne_nil d v
    · exact ih h

/-- Only the empty text has an empty camel-case form. -/
theorem camelCaseChars_eq_nil {s : List Char} : camelCaseChars s = [] ↔ s = [] := by
  cases hws : words s with
  | nil =>
    rw [camelCaseChars, hws]
    cases s <;> simp [decapitalizeChars]
  | cons w ws =>
    have hw : w ≠ [] := ne_nil_of_mem_words (hws ▸ List.mem_cons_self)
    have hs : s ≠ [] := by
      rintro rfl
      rw [words_nil] at hws
      exact absurd hws.symm (List.cons_ne_nil w ws)
    rw [camelCaseChars, hws]
    simp [joinCamel, hw, hs]

/-! ## Affixes -/

/-- What is left behind a dropped head is the rest of the text, and not empty. -/
theorem eq_append_of_afterHead? {head s r : List Char} (h : afterHead? head s = some r) :
    s = head ++ r ∧ r ≠ [] := by
  rw [afterHead?, Option.ite_none_right_eq_some, List.isPrefixOf_iff_prefix] at h
  obtain ⟨⟨t, rfl⟩, h⟩ := h
  rw [List.drop_left] at h
  cases t with
  | nil => cases h
  | cons c t =>
    obtain rfl := Option.some.inj (Option.ite_none_right_eq_some.1 h).2
    exact ⟨rfl, List.cons_ne_nil c t⟩

/-- What is left of a name is the end of it, and something if the name is. -/
theorem exists_head_of_dropHead (s : List Char) :
    ∃ head, s = head ++ dropHead s ∧ (dropHead s = [] → s = []) := by
  rw [dropHead]
  cases hr : droppedHeads.findSome? fun head => afterHead? head.toList s with
  | none => exact ⟨[], rfl, id⟩
  | some r =>
    obtain ⟨head, -, hhead⟩ := List.exists_of_findSome?_eq_some hr
    obtain ⟨heq, hne⟩ := eq_append_of_afterHead? hhead
    exact ⟨head.toList, heq, fun h => absurd h hne⟩

theorem dropHead_eq_nil {s : List Char} : dropHead s = [] ↔ s = [] := by
  obtain ⟨head, heq, hnil⟩ := exists_head_of_dropHead s
  constructor
  · exact hnil
  · rintro rfl
    exact (List.append_eq_nil_iff.1 heq.symm).2

theorem ne_nil_of_beforeEnding? {endings : List String} {s r : List Char}
    (h : beforeEnding? endings s = some r) (hr : r ≠ []) : s ≠ [] := by
  obtain ⟨ending, -, hstrip⟩ := List.exists_of_findSome?_eq_some h
  rw [stripEnding?_eq_some.1 hstrip]
  exact List.append_ne_nil_of_left_ne_nil hr _

section Rules

variable {s r : List Char}

/-! ## The rules about endings -/

theorem endingBaseNames_of_kept (hkept : beforeEnding? keptEndings s = some r) :
    endingBaseNames s = ([camelCaseChars s], .kept) := by
  rw [endingBaseNames, hkept]
  rfl

/-- A mandatory ending is dropped if something stands in front of it. -/
theorem endingBaseNames_of_mandatory (hkept : beforeEnding? keptEndings s = none)
    (hmandatory : beforeEnding? mandatoryEndings s = some r) :
    endingBaseNames s =
      (if r = [] then [camelCaseChars s] else [camelCaseChars r], .mandatory) := by
  rw [endingBaseNames, hkept, hmandatory]
  cases r <;> rfl

/-- An optional ending may be dropped if something stands in front of it. -/
theorem endingBaseNames_of_optional (hkept : beforeEnding? keptEndings s = none)
    (hmandatory : beforeEnding? mandatoryEndings s = none)
    (hoptional : beforeEnding? optionalEndings s = some r) :
    endingBaseNames s =
      (if r = [] ∨ camelCaseChars r = camelCaseChars s then [camelCaseChars s]
        else [camelCaseChars s, camelCaseChars r], .optional) := by
  rw [endingBaseNames, hkept, hmandatory, hoptional]
  cases r with
  | nil => rfl
  | cons c r =>
    simp only [List.cons_ne_nil, false_or, Option.isSome_none, Bool.false_eq_true, if_false]
    split <;> rfl

/-- A name with none of the endings has its camel-case form as base name. -/
theorem endingBaseNames_of_none (hkept : beforeEnding? keptEndings s = none)
    (hmandatory : beforeEnding? mandatoryEndings s = none)
    (hoptional : beforeEnding? optionalEndings s = none) :
    endingBaseNames s = ([camelCaseChars s], .none) := by
  rw [endingBaseNames, hkept, hmandatory, hoptional]
  rfl

end Rules

/-! ## Empty base names -/

/-- Whatever the endings, only the empty text has an empty base name. -/
theorem nil_mem_endingBaseNames_iff {s : List Char} : [] ∈ (endingBaseNames s).1 ↔ s = [] := by
  have hcamel : ∀ {t : List Char}, [] = camelCaseChars t ↔ t = [] :=
    eq_comm.trans camelCaseChars_eq_nil
  cases hkept : beforeEnding? keptEndings s with
  | some r => rw [endingBaseNames_of_kept hkept, List.mem_singleton, hcamel]
  | none =>
    cases hmandatory : beforeEnding? mandatoryEndings s with
    | some r =>
      rw [endingBaseNames_of_mandatory hkept hmandatory]
      split
      · rw [List.mem_singleton, hcamel]
      · next hne => simp [hcamel, hne, ne_nil_of_beforeEnding? hmandatory hne]
    | none =>
      cases hoptional : beforeEnding? optionalEndings s with
      | some r =>
        rw [endingBaseNames_of_optional hkept hmandatory hoptional]
        split
        · rw [List.mem_singleton, hcamel]
        · next hne => simp [hcamel, (not_or.1 hne).1]
      | none =>
        rw [endingBaseNames_of_none hkept hmandatory hoptional, List.mem_singleton, hcamel]

/-- A name has the empty base name exactly if its short name is empty. -/
theorem empty_mem_baseNamesOf_iff {name : String} :
    "" ∈ baseNamesOf name ↔ shortName name = "" := by
  have hempty : ∀ s : List Char, String.ofList s = "" ↔ s = [] := by
    intro s
    rw [← String.toList_inj, String.toList_ofList]
    rfl
  rw [baseNamesOf, shortName, hempty, List.mem_map, baseNameChars]
  simp only [hempty, exists_eq_right]
  rw [nil_mem_endingBaseNames_iff, dropHead_eq_nil]

/-! ## Short names -/

/-- A short name is empty exactly if nothing stands behind the last separator. -/
theorem shortNameChars_eq_nil {s : List Char} :
    shortNameChars s = [] ↔ s = [] ∨ s.getLast? = some separator := by
  induction s with
  | nil => simp [shortNameChars]
  | cons c s ih =>
    rw [shortNameChars]
    by_cases hsep : separator ∈ s
    · have hs : s ≠ [] := List.ne_nil_of_mem hsep
      obtain ⟨b, t, rfl⟩ := List.exists_cons_of_ne_nil hs
      rw [if_pos hsep, ih, List.getLast?_cons_cons]
      simp
    · have hlast : s.getLast? ≠ some separator := fun h => hsep (List.mem_of_getLast? h)
      rw [if_neg hsep]
      cases s with
      | nil => by_cases hc : c = separator <;> simp [hc]
      | cons b t => by_cases hc : c = separator <;> simp_all [List.getLast?_cons_cons]

/-! ## Keys -/

/-- A capital outside ASCII moves to a code point above that of the separator. -/
theorem separator_lt_of_mem_lowercaseRanges :
    ∀ r ∈ Text.lowercaseRanges, (separator.toNat : Int) < r.first + r.shift := by
  decide +kernel

/-- No code point above that of the separator stands for it. -/
theorem ofNat_ne_separator {n : Nat} (h : separator.toNat < n) : Char.ofNat n ≠ separator := by
  by_cases hvalid : n.isValidChar
  · rw [Char.ofNat, dif_pos hvalid]
    intro heq
    have hn : n = separator.toNat := congrArg Char.toNat heq
    exact absurd h (hn ▸ Nat.lt_irrefl n)
  · rw [Char.ofNat, dif_neg hvalid]
    decide

/-- The small form of an ASCII letter is no separator. -/
theorem toLower_eq_separator_iff {c : Char} : c.toLower = separator ↔ c = separator := by
  unfold Char.toLower
  split
  · next hupper =>
    constructor
    · intro h
      have hval : c.val + 32 = 92 := congrArg Char.val h
      grind
    · rintro rfl
      exact absurd hupper (by decide)
  · rfl

/-- Only the separator has a lower-case form that ends in one. -/
theorem getLast?_lowercaseChar {c : Char} :
    (Text.lowercaseChar c).getLast? = some separator ↔ c = separator := by
  have hne : ¬ c.toNat < 128 → c ≠ separator := by
    rintro h rfl
    exact h (by decide)
  unfold Text.lowercaseChar
  split
  · rw [List.getLast?_singleton, Option.some.injEq, toLower_eq_separator_iff]
  · next hascii =>
    split
    · next hi =>
      rw [hi]
      decide
    · split
      · next r hr =>
        -- `c` does not lie below the first code point of its row
        have hlow := separator_lt_of_mem_lowercaseRanges r (List.mem_of_find?_eq_some hr)
        have hcovers : r.first ≤ c.toNat := by
          have := List.find?_some hr
          simp only [Text.CaseRange.covers, Bool.and_eq_true, decide_eq_true_eq] at this
          exact this.1.1
        have hmoved : Char.ofNat (c.toNat + r.shift).toNat ≠ separator :=
          ofNat_ne_separator (by omega)
        simp [hmoved, hne hascii]
      · rw [List.getLast?_singleton, Option.some.injEq]

/-- No character is lost in lower case. -/
theorem lowercaseFrom_eq_nil {before s : List Char} :
    Text.lowercaseFrom before s = [] ↔ s = [] := by
  cases s with
  | nil => simp [Text.lowercaseFrom]
  | cons c s =>
    have hchar : Text.lowercaseChar c ≠ [] := by
      unfold Text.lowercaseChar
      split
      · simp
      · split
        · simp
        · split <;> simp
    rw [Text.lowercaseFrom]
    split <;> simp [hchar]

/-- A text ends in a separator exactly if its lower-case form does. -/
theorem getLast?_lowercaseFrom {before s : List Char} :
    (Text.lowercaseFrom before s).getLast? = some separator ↔ s.getLast? = some separator := by
  induction s generalizing before with
  | nil => simp [Text.lowercaseFrom]
  | cons c s ih =>
    cases s with
    | nil =>
      rw [Text.lowercaseFrom, Text.lowercaseFrom, List.append_nil, List.getLast?_singleton,
        Option.some.injEq]
      split
      · next hc =>
        rw [hc]
        split <;> decide
      · exact getLast?_lowercaseChar
    | cons b s =>
      have hne : Text.lowercaseFrom (c :: before) (b :: s) ≠ [] := by
        rw [ne_eq, lowercaseFrom_eq_nil]
        exact List.cons_ne_nil b s
      obtain ⟨l, hl⟩ := Option.isSome_iff_exists.1 (List.getLast?_isSome.2 hne)
      rw [Text.lowercaseFrom, List.getLast?_append, hl, Option.some_or, ← hl, ih,
        List.getLast?_cons_cons]

namespace TypeName

variable {m n : TypeName}

/-- A name has no short name exactly if its key is empty or ends in a separator. -/
theorem short_eq_empty_iff :
    n.short = "" ↔ n.key.toList = [] ∨ n.key.toList.getLast? = some separator := by
  rw [short, shortName, ← String.toList_inj, String.toList_ofList, key_eq, Text.lowercase]
  simp only [String.toList_ofList]
  rw [lowercaseFrom_eq_nil, getLast?_lowercaseFrom]
  exact shortNameChars_eq_nil

/-- Names with one key have both a short name, or neither has. -/
theorem short_eq_empty_congr (h : m.key = n.key) : m.short = "" ↔ n.short = "" := by
  rw [short_eq_empty_iff, short_eq_empty_iff, h]

end TypeName

end Eponym
