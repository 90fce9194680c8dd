/-
# The singular of a plural

Each way to form a plural puts an ending behind the name, so which rule about singulars applies
to the result can be read off how the name itself ends: the endings that lead to a wrong rule
are those in the tables with `es` or `s` taken off.  A name in small letters has no collection
suffix, since each of these begins with a capital.

* `singularChars_of_small` : the rules about singulars, for names in small letters;
* `singular_plural_of_consonantY`, `singular_plural_of_sibilant`, `singular_plural_of_plain` :
  what becomes of a name, by how its plural is formed;
* `singular_plural_iff` : which names come back.
-/
import Eponym.Identifier.Plural
import Eponym.Proofs.Identifier.Word

namespace Eponym

section Plurals

variable {s : List Char} {es es' : List String}

/-! ## Endings -/

/-- A text has one of the endings exactly if one of them is its suffix. -/
theorem hasEnding_iff_suffix : hasEnding es s = true ↔ ∃ e ∈ es, e.toList <:+ s := by
  simp only [hasEnding, List.any_eq_true, List.isSuffixOf_iff_suffix]

/-- A text that ends in a tail has a longer ending if what precedes the tail has its beginning. -/
theorem hasEnding_append (es : List String) (tail : String) :
    hasEnding (es.map (· ++ tail)) (s ++ tail.toList) = hasEnding es s := by
  have hcancel : ∀ e : List Char, e ++ tail.toList <:+ s ++ tail.toList ↔ e <:+ s := by
    intro e
    refine exists_congr fun p => ?_
    rw [← List.append_assoc, List.append_left_inj]
  rw [Bool.eq_iff_iff, hasEnding_iff_suffix, hasEnding_iff_suffix]
  simp [hcancel]

theorem hasEnding_append_self (tail : String) : hasEnding [tail] (s ++ tail.toList) = true :=
  hasEnding_iff_suffix.2 ⟨tail, List.mem_singleton_self tail, List.suffix_append ..⟩

/-- A text that has one of some endings has a shorter one if each of them does. -/
theorem hasEnding_of_shorter (h : hasEnding es s = true)
    (hshorter : ∀ e ∈ es, hasEnding es' e.toList = true) : hasEnding es' s = true := by
  obtain ⟨e, he, hend⟩ := hasEnding_iff_suffix.1 h
  obtain ⟨e', he', hend'⟩ := hasEnding_iff_suffix.1 (hshorter e he)
  exact hasEnding_iff_suffix.2 ⟨e', he', hend'.trans hend⟩

/-- A text does not have two endings of which neither ends in the other. -/
theorem hasEnding_eq_false (h : hasEnding es s = true)
    (hapart : ∀ e ∈ es, ∀ e' ∈ es', ¬ e.toList <:+ e'.toList ∧ ¬ e'.toList <:+ e.toList) :
    hasEnding es' s = false := by
  obtain ⟨e, he, hend⟩ := hasEnding_iff_suffix.1 h
  refine Bool.eq_false_iff.2 fun h' => ?_
  obtain ⟨e', he', hend'⟩ := hasEnding_iff_suffix.1 h'
  rcases List.suffix_or_suffix_of_suffix hend hend' with hle | hle
  · exact (hapart e he e' he').1 hle
  · exact (hapart e he e' he').2 hle

/-- A name ends in a `y` after no vowel if two such characters are its last. -/
theorem endsInConsonantY_iff :
    endsInConsonantY s = true ↔ ∃ r c, isVowel c = false ∧ s = r ++ [c, 'y'] := by
  unfold endsInConsonantY
  constructor
  · intro h
    split at h
    · next c r hr =>
      refine ⟨r.reverse, c, by simpa using h, ?_⟩
      rw [← List.reverse_inj, hr]
      simp
    · exact nomatch h
  · rintro ⟨r, c, hc, rfl⟩
    simp [hc]

theorem hasEnding_of_endsInConsonantY (hy : endsInConsonantY s = true) :
    hasEnding ["y"] s = true := by
  obtain ⟨r, c, -, rfl⟩ := endsInConsonantY_iff.1 hy
  exact hasEnding_iff_suffix.2 ⟨"y", List.mem_singleton_self _, r ++ [c], by simp⟩

/-- A name that takes no `es` does not end in an `s`. -/
theorem hasEnding_s_of_not_sibilant (hsib : hasEnding sibilantEndings s = false) :
    hasEnding ["s"] s = false := by
  refine Bool.eq_false_iff.2 fun hlast => ?_
  rw [hasEnding_of_shorter hlast (by decide)] at hsib
  exact absurd hsib (by decide)

/-! ## Names in small letters -/

theorem map_toLower_of_small (hs : ∀ c ∈ s, c.isLower = true) : s.map Char.toLower = s := by
  rw [List.map_congr_left fun c hc => toLower_of_isLower (hs c hc), List.map_id']

/-- Each small letter takes one byte. -/
theorem byteLength_of_small (hs : ∀ c ∈ s, c.isLower = true) : byteLength s = s.length := by
  induction s with
  | nil => rfl
  | cons c s ih =>
    obtain ⟨hc, hs⟩ := List.forall_mem_cons.1 hs
    have hsize : c.utf8Size = 1 := by
      rw [Char.utf8Size_eq_one_iff]
      unfold Char.isLower at hc
      grind
    show c.utf8Size + byteLength s = s.length + 1
    rw [hsize, ih hs, Nat.add_comm]

theorem any_isUpper_of_mem_collectionEndings :
    ∀ e ∈ collectionEndings, e.toList.any Char.isUpper = true := by
  decide

/-- A name in small letters has no collection suffix. -/
theorem withoutCollectionEndingChars_of_small (hs : ∀ c ∈ s, c.isLower = true) :
    withoutCollectionEndingChars s = s := by
  have hnone : collectionEndings.findSome? (fun e =>
      (stripEnding? e.toList s).filter fun r => r ≠ []) = none := by
    refine List.findSome?_eq_none_iff.2 fun e he => ?_
    obtain ⟨c, hc, hupper⟩ := List.any_eq_true.1 (any_isUpper_of_mem_collectionEndings e he)
    cases hstrip : stripEnding? e.toList s with
    | none => rfl
    | some r =>
      rw [stripEnding?_eq_some] at hstrip
      have hlower : c.isLower = true := hs c (hstrip ▸ List.mem_append_right r hc)
      rw [isUpper_of_isLower hlower] at hupper
      exact absurd hupper Bool.false_ne_true
  rw [withoutCollectionEndingChars, hnone]

/-- The rules about singulars, for a name in small letters. -/
theorem singularChars_of_small (hs : ∀ c ∈ s, c.isLower = true) :
    singularChars s =
      if hasEnding ["ies"] s ∧ 4 < s.length then s.take (s.length - 3) ++ "y".toList
      else if hasEnding esEndings s then s.take (s.length - 2)
      else if hasEnding ["s"] s ∧ ¬ hasEnding ["ss"] s ∧ 1 < s.length then s.dropLast
      else s := by
  rw [singularChars, withoutCollectionEndingChars_of_small hs, singularFormChars,
    map_toLower_of_small hs, byteLength_of_small hs]

theorem isLower_of_mem_append {t : List Char} (hs : ∀ c ∈ s, c.isLower = true)
    (ht : t.all Char.isLower = true) : ∀ c ∈ s ++ t, c.isLower = true :=
  List.forall_mem_append.2 ⟨hs, List.all_eq_true.1 ht⟩

/-! ## Ways to form a plural -/

/-- With `ies` in place of a `y`, a name comes back unless it has but two letters. -/
theorem singular_plural_of_consonantY (hs : ∀ c ∈ s, c.isLower = true)
    (hy : endsInConsonantY s = true) : singularChars (pluralChars s) = s ↔ s.length ≠ 2 := by
  obtain ⟨r, c, -, rfl⟩ := endsInConsonantY_iff.1 hy
  have hplural : pluralChars (r ++ [c, 'y']) = (r ++ [c]) ++ "ies".toList := by
    rw [pluralChars, if_neg (by simp), if_pos hy, List.append_cons, List.dropLast_concat]
  have hstem : ∀ a ∈ r ++ [c], a.isLower = true := fun a ha => hs a (by grind)
  have hies : hasEnding ["ies"] ((r ++ [c]) ++ "ies".toList) = true := hasEnding_append_self "ies"
  have hes : hasEnding esEndings ((r ++ [c]) ++ "ies".toList) = false :=
    hasEnding_eq_false hies (by decide)
  have hss : hasEnding ["ss"] ((r ++ [c]) ++ "ies".toList) = false :=
    hasEnding_eq_false hies (by decide)
  have hlast : hasEnding ["s"] ((r ++ [c]) ++ "ies".toList) = true :=
    hasEnding_of_shorter hies (by decide)
  rw [hplural, singularChars_of_small (isLower_of_mem_append hstem rfl), hies, hes, hss, hlast]
  -- a name of two letters is too short for `ies` to come off, and only its `s` does
  by_cases hr : r = []
  · simp [hr]
  · have hpos : 0 < r.length := List.length_pos_iff.2 hr
    have hlong : 4 < (r ++ [c] ++ "ies".toList).length := by simp; omega
    have hlength : (r ++ [c]).length = (r ++ [c] ++ "ies".toList).length - 3 := by simp
    rw [if_pos ⟨rfl, hlong⟩, List.take_left' hlength]
    simp [hr]

/-- With `es` behind it, a name comes back exactly if it ends in a double `s` or no `s`. -/
theorem singular_plural_of_sibilant (hs : ∀ c ∈ s, c.isLower = true)
    (hsib : hasEnding sibilantEndings s = true) :
    singularChars (pluralChars s) = s ↔ hasEnding ["ss", "sh", "ch", "x", "z"] s = true := by
  have hne : s ≠ [] := by
    rintro rfl
    exact absurd hsib (by decide)
  have hy : endsInConsonantY s = false := by
    refine Bool.eq_false_iff.2 fun hy => ?_
    have hlast := hasEnding_of_endsInConsonantY hy
    rw [hasEnding_eq_false hsib (by decide)] at hlast
    exact Bool.false_ne_true hlast
  have hplural : pluralChars s = s ++ "es".toList := by
    rw [pluralChars, if_neg hne, hy, if_pos hsib]
    rfl
  have hi : hasEnding ["ies"] (s ++ "es".toList) = false := by
    have happ : hasEnding ["ies"] (s ++ "es".toList) = hasEnding ["i"] s :=
      hasEnding_append ["i"] "es"
    rw [happ]
    exact hasEnding_eq_false hsib (by decide)
  have hes : hasEnding esEndings (s ++ "es".toList) = hasEnding ["ss", "sh", "ch", "x", "z"] s :=
    hasEnding_append ["ss", "sh", "ch", "x", "z"] "es"
  have hself : hasEnding ["es"] (s ++ "es".toList) = true := hasEnding_append_self "es"
  have hss : hasEnding ["ss"] (s ++ "es".toList) = false :=
    hasEnding_eq_false hself (by decide)
  have hlast : hasEnding ["s"] (s ++ "es".toList) = true :=
    hasEnding_of_shorter hself (by decide)
  rw [hplural, singularChars_of_small (isLower_of_mem_append hs rfl), hi, hes, hss, hlast]
  cases hasEnding ["ss", "sh", "ch", "x", "z"] s with
  | true => simp
  | false => simp

/-- With `s` behind it, a name comes back unless that makes one of the longer endings. -/
theorem singular_plural_of_plain (hs : ∀ c ∈ s, c.isLower = true) (hne : s ≠ [])
    (hy : endsInConsonantY s = false) (hsib : hasEnding sibilantEndings s = false) :
    singularChars (pluralChars s) = s ↔
      ¬ (4 ≤ s.length ∧ hasEnding ["ie"] s = true) ∧
        hasEnding ["sse", "she", "che", "xe", "ze"] s = false := by
  have hplural : pluralChars s = s ++ "s".toList := by
    rw [pluralChars, if_neg hne, hy, hsib]
    rfl
  have hies : hasEnding ["ies"] (s ++ "s".toList) = hasEnding ["ie"] s :=
    hasEnding_append ["ie"] "s"
  have hes : hasEnding esEndings (s ++ "s".toList) =
      hasEnding ["sse", "she", "che", "xe", "ze"] s :=
    hasEnding_append ["sse", "she", "che", "xe", "ze"] "s"
  have hss : hasEnding ["ss"] (s ++ "s".toList) = false := by
    have happ : hasEnding ["ss"] (s ++ "s".toList) = hasEnding ["s"] s :=
      hasEnding_append ["s"] "s"
    rw [happ, hasEnding_s_of_not_sibilant hsib]
  have hpos : 0 < s.length := List.length_pos_iff.2 hne
  have hlength : (s ++ "s".toList).length = s.length + 1 := List.length_append
  rw [hplural, singularChars_of_small (isLower_of_mem_append hs rfl), hies, hes, hss,
    hasEnding_append_self, hlength]
  by_cases hie : hasEnding ["ie"] s = true ∧ 4 < s.length + 1
  · -- the result ends in a `y`, the name in an `e`
    have hend : hasEnding ["y"] s = false := hasEnding_eq_false hie.1 (by decide)
    rw [if_pos hie]
    constructor
    · intro heq
      rw [← heq, hasEnding_append_self] at hend
      exact absurd hend (by decide)
    · rintro ⟨hno, -⟩
      exact absurd ⟨Nat.lt_succ_iff.1 hie.2, hie.1⟩ hno
  · rw [if_neg hie]
    have hno : ¬ (4 ≤ s.length ∧ hasEnding ["ie"] s = true) := fun h =>
      hie ⟨h.2, Nat.lt_succ_of_le h.1⟩
    cases hasEnding ["sse", "she", "che", "xe", "ze"] s with
    | true =>
      -- the result is shorter than the name
      have hlt : ((s ++ "s".toList).take (s.length + 1 - 2)).length < s.length := by
        rw [List.length_take]
        omega
      refine iff_of_false (fun heq => ?_) (fun h => nomatch h.2)
      rw [if_pos rfl] at heq
      rw [heq] at hlt
      exact Nat.lt_irrefl _ hlt
    | false => simp [hno, hne]

/-! ## Names that come back -/

/-- A name of two letters has a `y` after no vowel exactly if it is such a pair. -/
theorem length_eq_two_iff (hs : ∀ c ∈ s, c.isLower = true) :
    endsInConsonantY s = true ∧ s.length = 2 ↔
      ∃ c, c ∉ ['a', 'e', 'i', 'o', 'u'] ∧ s = [c, 'y'] := by
  constructor
  · rintro ⟨hy, hlen⟩
    obtain ⟨r, c, hc, rfl⟩ := endsInConsonantY_iff.1 hy
    have hr : r = [] := List.length_eq_zero_iff.1 (by simpa using hlen)
    subst hr
    rw [isVowel, toLower_of_isLower (hs c List.mem_cons_self)] at hc
    exact ⟨c, by simpa using hc, rfl⟩
  · rintro ⟨c, hc, rfl⟩
    have hvowel : isVowel c = false := by
      rw [isVowel, toLower_of_isLower (hs c List.mem_cons_self)]
      simpa using hc
    exact ⟨endsInConsonantY_iff.2 ⟨[], c, hvowel, rfl⟩, rfl⟩

/-- A name that takes `es` ends in a single `s` if in none of the endings that lose `es`. -/
theorem single_s_iff (hsib : hasEnding sibilantEndings s = true) :
    hasEnding ["ss", "sh", "ch", "x", "z"] s = false ↔
      hasEnding ["s"] s = true ∧ ¬ hasEnding ["ss"] s = true := by
  constructor
  · intro h
    simp only [hasEnding, sibilantEndings, List.any_cons, List.any_nil, Bool.or_false,
      Bool.or_eq_true, Bool.or_eq_false_iff] at hsib h ⊢
    grind
  · rintro ⟨hlast, hss⟩
    have hothers : hasEnding ["sh", "ch", "x", "z"] s = false :=
      hasEnding_eq_false hlast (by decide)
    have hsplit : hasEnding ["ss", "sh", "ch", "x", "z"] s =
        (hasEnding ["ss"] s || hasEnding ["sh", "ch", "x", "z"] s) := by
      simp only [hasEnding, List.any_cons, List.any_nil, Bool.or_false]
    rw [hsplit, hothers, Bool.or_false]
    exact Bool.eq_false_iff.2 hss

/-- Which names in small letters come back from their plural. -/
theorem singularChars_pluralChars_iff (hs : ∀ c ∈ s, c.isLower = true) (hne : s ≠ []) :
    singularChars (pluralChars s) = s ↔
      ¬ ((∃ c, c ∉ ['a', 'e', 'i', 'o', 'u'] ∧ s = [c, 'y']) ∨
        (hasEnding ["s"] s = true ∧ ¬ hasEnding ["ss"] s = true) ∨
        (4 ≤ s.length ∧ hasEnding ["ie"] s = true) ∨
        hasEnding ["sse", "she", "che", "xe", "ze"] s = true) := by
  have hpair := length_eq_two_iff hs
  by_cases hy : endsInConsonantY s = true
  · -- no other ending stands in the place of the `y`
    have hlast := hasEnding_of_endsInConsonantY hy
    have hno : ∀ es ∈ [["s"], ["ie"], ["sse", "she", "che", "xe", "ze"]], hasEnding es s = false :=
      fun es hes => hasEnding_eq_false hlast (by revert es; decide)
    simp only [List.forall_mem_cons] at hno
    rw [singular_plural_of_consonantY hs hy, ← hpair]
    simp [hy, hno]
  · rw [Bool.not_eq_true] at hy
    by_cases hsib : hasEnding sibilantEndings s = true
    · have hno : ∀ es ∈ [["ie"], ["sse", "she", "che", "xe", "ze"]], hasEnding es s = false :=
        fun es hes => hasEnding_eq_false hsib (by revert es; decide)
      simp only [List.forall_mem_cons] at hno
      rw [singular_plural_of_sibilant hs hsib, ← hpair, ← single_s_iff hsib]
      simp [hy, hno]
    · rw [Bool.not_eq_true] at hsib
      rw [singular_plural_of_plain hs hne hy hsib, ← hpair]
      simp [hy, hasEnding_s_of_not_sibilant hsib]

end Plurals

/-- A name in small letters comes back from its plural, unless it is a `y` after one letter that
is no vowel, ends in a single `s`, has at least four letters and ends in `ie`, or ends in an `e`
with which its plural looks like that of a sibilant. -/
theorem singular_plural_iff {w : String} (hne : w ≠ "")
    (hsmall : ∀ c ∈ w.toList, c.isLower = true) :
    singular (plural w) = w ↔
      ¬ ((∃ c, c ∉ ['a', 'e', 'i', 'o', 'u'] ∧ w.toList = [c, 'y']) ∨
        ("s".toList <:+ w.toList ∧ ¬ "ss".toList <:+ w.toList) ∨
        (4 ≤ w.length ∧ "ie".toList <:+ w.toList) ∨
        ∃ e ∈ ["sse", "she", "che", "xe", "ze"], e.toList <:+ w.toList) := by
  have hlist : w.toList ≠ [] := fun h => hne (String.toList_eq_nil_iff.1 h)
  have hiff := singularChars_pluralChars_iff hsmall hlist
  rw [singular, plural, String.toList_ofList, ← String.toList_inj, String.toList_ofList, hiff]
  simp only [hasEnding_iff_suffix, List.mem_singleton, exists_eq_left, String.length_toList]

/-- A city comes back from the cities, while cookies are taken for the plural of `cooky`. -/
theorem singular_plural_iff_city :
    "city" ≠ "" ∧ (∀ c ∈ "city".toList, c.isLower = true) ∧ singular (plural "city") = "city" ∧
      "cookie" ≠ "" ∧ (∀ c ∈ "cookie".toList, c.isLower = true) ∧
      singular (plural "cookie") ≠ "cookie" := by
  have hcity : ∀ c ∈ "city".toList, c.isLower = true := List.all_eq_true.1 (by decide +kernel)
  have hcookie : ∀ c ∈ "cookie".toList, c.isLower = true := List.all_eq_true.1 (by decide +kernel)
  refine ⟨by decide, hcity, ?_, by decide, hcookie, fun heq => ?_⟩
  · refine (singular_plural_iff (by decide) hcity).2 ?_
    rintro (⟨c, -, hpair⟩ | hending)
    · exact nomatch hpair
    · exact absurd hending (by decide +kernel)
  · have hends : 4 ≤ "cookie".length ∧ "ie".toList <:+ "cookie".toList := by decide +kernel
    exact (singular_plural_iff (by decide) hcookie).1 heq (.inr (.inr (.inl hends)))

end Eponym
