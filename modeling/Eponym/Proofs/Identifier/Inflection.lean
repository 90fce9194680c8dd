/-
# How names end

The rules about plurals and singulars look at how a name ends, in either letter case or in the
one given, and take off or put on an ending.  An ending is told by ASCII characters only.  No
rule takes all of a name, so what comes out of it is empty only if the name is.

* `exists_tail_of_hasEnding` : what looks like an ending in small letters is one of ASCII letters;
* `elementNameChars_of_children`, `elementNameChars_of_other` : the two ways to name one element;
* `withoutCollectionEndingChars_eq_nil`, `singularChars_eq_nil`, `elementNameChars_eq_nil` : only
  the empty name has an empty singular.
-/
import Eponym.Proofs.Identifier.Plural

namespace Eponym

section Endings

variable {s : List Char} {es : List String}

/-! ## Endings in either letter case -/

/-- A character with an ASCII small form is ASCII. -/
theorem ascii_of_toLower {c : Char} (h : c.toLower.toNat < 128) : c.toNat < 128 := by
  unfold Char.toLower at h
  split at h
  · next hc => exact Nat.lt_of_le_of_lt (UInt32.le_iff_toNat_le.1 hc.2) (by decide)
  · exact h

/-- What becomes an ending in small letters has as many bytes. -/
theorem exists_tail_of_hasEnding (h : hasEnding es (s.map Char.toLower) = true)
    (hes : ∀ e ∈ es, e.toList.all (fun c => c.toNat < 128) = true) :
    ∃ e ∈ es, ∃ p t, s = p ++ t ∧ t.length = e.length ∧ ∀ c ∈ t, c.toNat < 128 := by
  obtain ⟨e, he, r, hr⟩ := hasEnding_iff.1 h
  obtain ⟨p, t, rfl, -, ht⟩ := List.map_eq_append_iff.1 hr
  refine ⟨e, he, p, t, rfl, ?_, fun c hc => ascii_of_toLower ?_⟩
  · rw [← String.length_toList, ← ht, List.length_map]
  · have hmem : c.toLower ∈ e.toList := ht ▸ List.mem_map_of_mem hc
    exact of_decide_eq_true (List.all_eq_true.1 (hes e he) _ hmem)

/-- A text with an ending is as long as that. -/
theorem le_length_of_hasEnding {n : Nat} (h : hasEnding es (s.map Char.toLower) = true)
    (hn : ∀ e ∈ es, n ≤ e.length) : n ≤ s.length := by
  obtain ⟨e, he, r, hr⟩ := hasEnding_iff.1 h
  have hlength := congrArg List.length hr
  rw [List.length_map, List.length_append, String.length_toList] at hlength
  have hle := hn e he
  omega

/-- The character in front of a `y` decides. -/
theorem endsInConsonantY_concat (r : List Char) (c : Char) :
    endsInConsonantY (r ++ [c]) = (c == 'y' && r.getLast?.any fun d => !isVowel d) := by
  rcases List.eq_nil_or_concat r with rfl | ⟨q, d, rfl⟩
  · by_cases hc : c = 'y' <;> simp [endsInConsonantY, hc]
  · by_cases hc : c = 'y' <;> simp [endsInConsonantY, hc]

/-! ## The name of one element -/

/-- The last eight characters spell `children` if the text is something followed by that. -/
theorem drop_map_toLower_iff {s : List Char} :
    (s.drop (s.length - "children".length)).map Char.toLower = "children".toList ↔
      ∃ p t, s = p ++ t ∧ t.map Char.toLower = "children".toList := by
  constructor
  · intro h
    exact ⟨_, _, (List.take_append_drop ..).symm, h⟩
  · rintro ⟨p, t, rfl, ht⟩
    have hlength : t.length = "children".length := by
      rw [← List.length_map, ht, String.length_toList]
    rwa [List.length_append, hlength, Nat.add_sub_cancel, List.drop_left]

/-- What spells `children`, behind any text, becomes `child`. -/
theorem elementNameChars_of_children {p t : List Char}
    (ht : t.map Char.toLower = "children".toList) :
    elementNameChars (p ++ t) = if p = [] then "child".toList else p ++ "Child".toList := by
  have hlength : t.length = "children".length := by
    rw [← List.length_map, ht, String.length_toList]
  have htake : (p ++ t).take ((p ++ t).length - "children".length) = p := by
    rw [List.length_append, hlength, Nat.add_sub_cancel, List.take_left]
  rw [elementNameChars, if_pos (drop_map_toLower_iff.2 ⟨p, t, rfl, ht⟩), htake]

/-- All else follows the rules about singulars. -/
theorem elementNameChars_of_other {s : List Char}
    (hs : ¬ ∃ p t, s = p ++ t ∧ t.map Char.toLower = "children".toList) :
    elementNameChars s = singularChars s := by
  rw [elementNameChars, if_neg (mt drop_map_toLower_iff.1 hs)]

/-! ## Empty names -/

/-- A collection suffix comes off only if something is left. -/
theorem withoutCollectionEndingChars_eq_nil : withoutCollectionEndingChars s = [] ↔ s = [] := by
  rw [withoutCollectionEndingChars]
  split
  · next r hr =>
    obtain ⟨e, -, hstrip⟩ := List.exists_of_findSome?_eq_some hr
    obtain ⟨hstrip, hne⟩ := Option.filter_eq_some_iff.1 hstrip
    have hr : r ≠ [] := by simpa using hne
    have hs : s ≠ [] := by
      rw [stripEnding?_eq_some.1 hstrip]
      exact List.append_ne_nil_of_left_ne_nil hr _
    exact iff_of_false hr hs
  · rfl

/-- Each ending leaves something of a name to its singular form. -/
theorem singularFormChars_eq_nil : singularFormChars s = [] ↔ s = [] := by
  rw [singularFormChars]
  split
  · next hies =>
    have hlength : 3 ≤ s.length := le_length_of_hasEnding hies.1 (by decide)
    refine iff_of_false (List.append_ne_nil_of_right_ne_nil _ (List.cons_ne_nil _ _)) ?_
    exact List.ne_nil_of_length_pos (by omega)
  split
  · next hes =>
    have hlength : 3 ≤ s.length := le_length_of_hasEnding hes (by decide)
    refine iff_of_false (fun htake => ?_) (List.ne_nil_of_length_pos (by omega))
    have hzero := congrArg List.length htake
    rw [List.length_take, List.length_nil] at hzero
    omega
  split
  · next hlast =>
    have hlength : 1 < s.length := hlast.2.2
    refine iff_of_false (fun hdrop => ?_) (List.ne_nil_of_length_pos (by omega))
    have hzero := congrArg List.length hdrop
    rw [List.length_dropLast, List.length_nil] at hzero
    omega
  · rfl

theorem singularChars_eq_nil : singularChars s = [] ↔ s = [] := by
  rw [singularChars, singularFormChars_eq_nil, withoutCollectionEndingChars_eq_nil]

/-- Only what is iterated over without a name has elements without one. -/
theorem elementNameChars_eq_nil : elementNameChars s = [] ↔ s = [] := by
  by_cases hchildren : ∃ p t, s = p ++ t ∧ t.map Char.toLower = "children".toList
  · obtain ⟨p, t, rfl, ht⟩ := hchildren
    have hne : t ≠ [] := by
      rintro rfl
      exact nomatch ht
    rw [elementNameChars_of_children ht]
    refine iff_of_false ?_ (List.append_ne_nil_of_right_ne_nil p hne)
    split
    · exact List.cons_ne_nil _ _
    · exact List.append_ne_nil_of_right_ne_nil p (List.cons_ne_nil _ _)
  · rw [elementNameChars_of_other hchildren, singularChars_eq_nil]

end Endings

end Eponym
