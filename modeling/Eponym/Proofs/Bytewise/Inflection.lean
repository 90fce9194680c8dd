/-
# Plural and singular by byte offsets

To form a plural or a singular, an ending is taken off by a difference of lengths in bytes.  The
ending may have been seen in another text, the small form of the name, and the last two bytes of
a name may belong to one character.  Still the length is never too small for the difference, and
the place is never inside a character: whatever an ending is seen in, it is of ASCII characters.

* `dropEnd?_of_hasEnding` : a name has so many bytes to lose if its small form has the ending;
* `endsInConsonantY?_eq` : the last two bytes tell how the last two characters do;
* `plural?_eq`, `withoutCollectionEnding?_eq`, `singular?_eq`, `elementName?_eq` : the results are
  those on characters.
-/
import Eponym.Proofs.Identifier.Inflection
import Eponym.Proofs.Text.Offset

namespace Eponym.Bytewise

open Text

/-! ## Endings -/

/-- A text without as many bytes at its end. -/
def dropEnd? (s : String) (n : Nat) : Option String := do slice? s 0 (← minus? s.utf8ByteSize n)

/-- The bytes of an ending come off. -/
theorem dropEnd?_append (p t : List Char) :
    dropEnd? (String.ofList (p ++ t)) (byteLength t) = some (String.ofList p) := by
  have hslice := slice?_ofList [] p t
  rw [dropEnd?, utf8ByteSize_ofList, byteLength_append, minus?_add]
  exact hslice

theorem dropEnd?_ending (r : List Char) (e : String) :
    dropEnd? (String.ofList (r ++ e.toList)) e.utf8ByteSize = some (String.ofList r) := by
  have hdrop := dropEnd?_append r e.toList
  rwa [← utf8ByteSize_ofList, String.ofList_toList] at hdrop

/-- A text that has an ending, in either letter case, has so many bytes to lose. -/
theorem dropEnd?_of_hasEnding {s : List Char} {es : List String} {n : Nat}
    (h : hasEnding es (s.map Char.toLower) = true)
    (hes : ∀ e ∈ es, e.toList.all (fun c => c.toNat < 128) = true) (hn : ∀ e ∈ es, n ≤ e.length) :
    dropEnd? (String.ofList s) n = some (String.ofList (s.take (s.length - n))) := by
  obtain ⟨e, he, p, t, rfl, hlength, hascii⟩ := exists_tail_of_hasEnding h hes
  have hle : n ≤ t.length := hlength ▸ hn e he
  -- the last `n` characters are single bytes
  obtain ⟨u, v, rfl, hv⟩ : ∃ u v, t = u ++ v ∧ v.length = n :=
    ⟨t.take (t.length - n), t.drop (t.length - n), (List.take_append_drop ..).symm, by
      rw [List.length_drop]; omega⟩
  have hbytes : byteLength v = n := by
    rw [byteLength_of_ascii fun c hc => hascii c (List.mem_append_right u hc), hv]
  have htake : (p ++ (u ++ v)).take ((p ++ (u ++ v)).length - n) = p ++ u := by
    rw [← List.append_assoc]
    refine List.take_left' ?_
    simp only [List.length_append, hv, Nat.add_sub_cancel]
  rw [htake, ← List.append_assoc, ← hbytes]
  exact dropEnd?_append (p ++ u) v

/-! ## Plural -/

/-- Whether a name ends in a `y` that some byte other than a vowel precedes. -/
def endsInConsonantY? (s : String) : Option Bool :=
  let bytes := byteChars s
  if bytes.length < 2 then some false
  else do
    let last ← bytes[← minus? bytes.length 1]?
    if last ≠ 'y' then return false
    let previous ← bytes[← minus? bytes.length 2]?
    return !isVowel previous

/-- The plural of a name. -/
def plural? (s : String) : Option String := do
  if s = "" then return ""
  if ← endsInConsonantY? s then return (← dropEnd? s 1) ++ "ies"
  if hasEnding sibilantEndings s.toList then return s ++ "es"
  return s ++ "s"

theorem isAsciiClass_isVowel : IsAsciiClass isVowel := by
  intro c hc
  have hmem : c.toLower ∈ ['a', 'e', 'i', 'o', 'u'] := List.contains_iff_mem.1 hc
  have hall : ∀ d ∈ ['a', 'e', 'i', 'o', 'u'], d.toNat < 128 := by simp
  exact ascii_of_toLower (hall _ hmem)

theorem exists_last_two {l : List Char} (h : 2 ≤ l.length) : ∃ bs a b, l = bs ++ [a, b] := by
  rcases List.eq_nil_or_concat l with rfl | ⟨l, b, rfl⟩
  · exact absurd h (by decide)
  rcases List.eq_nil_or_concat l with rfl | ⟨bs, a, rfl⟩
  · exact absurd h (Nat.not_succ_le_self 1)
  exact ⟨bs, a, b, by simp⟩

/-- There is a last byte and one in front of it if there are two. -/
theorem endsInConsonantY?_of_two {name : String} {bs : List Char} {a b : Char}
    (h : byteChars name = bs ++ [a, b]) :
    endsInConsonantY? name = some (b == 'y' && !isVowel a) := by
  have hone : minus? (bs.length + 2) 1 = some (bs.length + 1) := minus?_add (bs.length + 1) 1
  have htwo : minus? (bs.length + 2) 2 = some bs.length := minus?_add bs.length 2
  have hlong : ¬ bs.length + 2 < 2 := by omega
  have hlength : (bs ++ [a, b]).length = bs.length + 2 := List.length_append
  have hlast : (bs ++ [a, b])[bs.length + 1]? = some b := by simp
  have hprevious : (bs ++ [a, b])[bs.length]? = some a := by simp
  rw [endsInConsonantY?, h, hlength, if_neg hlong, hone, htwo]
  simp only [Option.bind_eq_bind, Option.bind_some, hlast, hprevious]
  by_cases hb : b = 'y' <;> simp [hb]

/-- The last byte and the one in front of it tell whether the `y` rule applies. -/
theorem endsInConsonantY?_eq (s : List Char) :
    endsInConsonantY? (String.ofList s) = some (endsInConsonantY s) := by
  rcases List.eq_nil_or_concat s with rfl | ⟨r, c, rfl⟩
  · rfl
  rw [List.concat_eq_append, endsInConsonantY_concat]
  have hlast := any_getLast?_byteChars (isAsciiClass_beq 'y' (by decide)) r c
  have hlength : (byteChars (String.ofList (r ++ [c]))).length = byteLength r + c.utf8Size := by
    rw [length_byteChars, utf8ByteSize_ofList, byteLength_append]
    rfl
  have hsize := c.utf8Size_pos
  by_cases hshort : (byteChars (String.ofList (r ++ [c]))).length < 2
  · -- `c` is the only byte
    have hr : r = [] := byteLength_eq_zero.1 (by omega)
    rw [endsInConsonantY?, if_pos hshort, hr, List.getLast?_nil, Option.any_none, Bool.and_false]
  · obtain ⟨bs, a, b, hbytes⟩ := exists_last_two (Nat.not_lt.1 hshort)
    rw [endsInConsonantY?_of_two hbytes]
    rw [hbytes, List.getLast?_append_of_ne_nil _ (List.cons_ne_nil a [b])] at hlast
    have hb : (b == 'y') = (c == 'y') := hlast
    rw [hb]
    by_cases hc : c = 'y'
    · subst hc
      -- so the byte in front is the last one of `r`
      rw [String.ofList_append, byteChars_append, byteChars_of_ascii (by decide),
        byteChars_ofList_nil, List.append_cons bs a] at hbytes
      obtain ⟨hr, -⟩ := List.append_inj' hbytes rfl
      rcases List.eq_nil_or_concat r with rfl | ⟨q, d, rfl⟩
      · exact absurd hr.symm (List.append_ne_nil_of_right_ne_nil bs (List.cons_ne_nil a []))
      · have hd := any_getLast?_byteChars isAsciiClass_isVowel q d
        rw [List.concat_eq_append] at hr ⊢
        rw [hr, List.getLast?_concat, Option.any_some] at hd
        rw [List.getLast?_concat, Option.any_some, hd]
    · rw [beq_false_of_ne hc, Bool.false_and, Bool.false_and]

/-- The plural of a name is formed at an offset of it. -/
theorem plural?_eq (name : String) : plural? name = some (plural name) := by
  obtain ⟨s, rfl⟩ : ∃ s, name = String.ofList s := ⟨_, String.ofList_toList.symm⟩
  rw [plural?, plural, pluralChars, String.toList_ofList, endsInConsonantY?_eq]
  by_cases hs : s = []
  · rw [if_pos hs, hs]
    rfl
  · have hne : String.ofList s ≠ "" := fun h => hs (String.ofList_eq_empty_iff.1 h)
    rw [if_neg hs, if_neg hne]
    cases hy : endsInConsonantY s with
    | true =>
      obtain ⟨r, c, -, rfl⟩ := endsInConsonantY_iff.1 hy
      have hdrop : dropEnd? (String.ofList (r ++ [c, 'y'])) 1 = some (String.ofList (r ++ [c])) :=
        List.append_cons r c ['y'] ▸ dropEnd?_append (r ++ [c]) ['y']
      have hstem : (r ++ [c, 'y']).dropLast = r ++ [c] := by
        rw [List.append_cons, List.dropLast_concat]
      rw [if_pos rfl, hstem, ofList_append_toList]
      simp only [Option.bind_eq_bind, Option.bind_some, if_true, hdrop]
      rfl
    | false =>
      cases hasEnding sibilantEndings s <;> simp [String.ofList_append]

/-! ## Singular -/

/-- The name without the first of some endings, if anything would remain. -/
def withoutEnding? (s : String) : List String → Option String
  | [] => some s
  | e :: es =>
    if e.toList.isSuffixOf s.toList then do
      let r ← dropEnd? s e.utf8ByteSize
      if r = "" then withoutEnding? s es else return r
    else withoutEnding? s es

/-- The name without its first matching collection suffix, if anything would remain. -/
def withoutCollectionEnding? (s : String) : Option String := withoutEnding? s collectionEndings

/-- The singular of a name without collection suffix.  The small form tells how it ends, and the
name itself is cut. -/
def singularForm? (s : String) : Option String :=
  let small := s.toList.map Char.toLower
  if hasEnding ["ies"] small ∧ 4 < s.utf8ByteSize then do return (← dropEnd? s 3) ++ "y"
  else if hasEnding esEndings small then dropEnd? s 2
  else if hasEnding ["s"] small ∧ ¬ hasEnding ["ss"] small ∧ 1 < s.utf8ByteSize then dropEnd? s 1
  else some s

/-- The singular of a plural or of a name with a collection suffix. -/
def singular? (s : String) : Option String := do singularForm? (← withoutCollectionEnding? s)

/-- An ending that is tested for comes off. -/
theorem withoutEnding?_eq (s : List Char) (es : List String) :
    withoutEnding? (String.ofList s) es =
      some (String.ofList ((es.findSome? fun e =>
        (stripEnding? e.toList s).filter fun r => r ≠ []).getD s)) := by
  induction es with
  | nil => rfl
  | cons e es ih =>
    rw [withoutEnding?, String.toList_ofList, List.findSome?_cons]
    by_cases hend : e.toList.isSuffixOf s = true
    · obtain ⟨r, rfl⟩ := List.isSuffixOf_iff_suffix.1 hend
      have hstrip : stripEnding? e.toList (r ++ e.toList) = some r := stripEnding?_eq_some.2 rfl
      rw [if_pos hend, dropEnd?_ending, hstrip]
      by_cases hr : r = []
      · -- nothing would remain
        rw [Option.filter_some, if_neg (by simpa using hr)]
        simp only [Option.bind_eq_bind, Option.bind_some]
        rw [if_pos (String.ofList_eq_empty_iff.2 hr)]
        exact ih
      · rw [Option.filter_some, if_pos (by simpa using hr)]
        simp only [Option.bind_eq_bind, Option.bind_some]
        rw [if_neg (mt String.ofList_eq_empty_iff.1 hr)]
        rfl
    · have hnone : stripEnding? e.toList s = none := by
        rw [stripEnding?, if_neg hend]
      rw [if_neg hend, ih, hnone]
      rfl

/-- The collection suffix is cut off at an offset. -/
theorem withoutCollectionEnding?_eq (name : String) :
    withoutCollectionEnding? name = some (withoutCollectionEnding name) := by
  have h := withoutEnding?_eq name.toList collectionEndings
  rw [String.ofList_toList] at h
  rw [withoutCollectionEnding?, h, withoutCollectionEnding, withoutCollectionEndingChars]
  split
  · next r hr => rw [hr, Option.getD_some]
  · next hnone => rw [hnone, Option.getD_none]

/-- The singular form is cut off at an offset. -/
theorem singularForm?_eq (s : List Char) :
    singularForm? (String.ofList s) = some (String.ofList (singularFormChars s)) := by
  rw [singularForm?, singularFormChars, String.toList_ofList, utf8ByteSize_ofList]
  by_cases hies : hasEnding ["ies"] (s.map Char.toLower) = true ∧ 4 < byteLength s
  · rw [if_pos hies, if_pos hies,
      dropEnd?_of_hasEnding hies.1 (by decide) (by decide), ofList_append_toList]
    rfl
  rw [if_neg hies, if_neg hies]
  by_cases hes : hasEnding esEndings (s.map Char.toLower) = true
  · rw [if_pos hes, if_pos hes, dropEnd?_of_hasEnding hes (by decide) (by decide)]
  rw [if_neg hes, if_neg hes]
  by_cases hlast : hasEnding ["s"] (s.map Char.toLower) = true
  · -- the `s` is one byte, so more bytes are more characters
    obtain ⟨e, he, p, t, rfl, hlength, hascii⟩ := exists_tail_of_hasEnding hlast (by decide)
    rw [List.mem_singleton.1 he] at hlength
    have hlong : 1 < byteLength (p ++ t) ↔ 1 < (p ++ t).length := by
      rw [byteLength_append, byteLength_of_ascii hascii, List.length_append, hlength]
      have hp : byteLength p = 0 ↔ p.length = 0 :=
        byteLength_eq_zero.trans List.length_eq_zero_iff.symm
      show 1 < byteLength p + 1 ↔ 1 < p.length + 1
      omega
    simp only [hlong]
    rw [dropEnd?_of_hasEnding hlast (by decide) (by decide), ← List.dropLast_eq_take]
    split <;> rfl
  · rw [if_neg fun h => hlast h.1, if_neg fun h => hlast h.1]

/-- The singular of a name is formed at offsets of it. -/
theorem singular?_eq (name : String) : singular? name = some (singular name) := by
  rw [singular?, withoutCollectionEnding?_eq, withoutCollectionEnding, Option.bind_eq_bind,
    Option.bind_some, singularForm?_eq, singular, singularChars]

/-! ## The name of one element -/

/-- The singular of the name of something iterated over.  The place that many bytes in front of
the end may lie inside a character, and then nothing is cut out there. -/
def elementName? (s : String) : Option String :=
  let cut := s.utf8ByteSize - "children".utf8ByteSize
  if (slice? s cut s.utf8ByteSize).any fun tail =>
      tail.toList.map Char.toLower = "children".toList then do
    let front ← slice? s 0 cut
    return if front = "" then "child" else front ++ "Child"
  else singular? s

/-- What spells `children` takes as many bytes. -/
theorem byteLength_children {t : List Char} (ht : t.map Char.toLower = "children".toList) :
    byteLength t = "children".utf8ByteSize := by
  have hall : "children".toList.all (fun c => c.toNat < 128) = true := by decide
  have hascii : ∀ c ∈ t, c.toNat < 128 := by
    intro c hc
    have hmem : c.toLower ∈ "children".toList := ht ▸ List.mem_map_of_mem hc
    exact ascii_of_toLower (of_decide_eq_true (List.all_eq_true.1 hall _ hmem))
  rw [byteLength_of_ascii hascii, ← List.length_map, ht]
  rfl

/-- The name of one element is formed at offsets of the whole name. -/
theorem elementName?_eq (name : String) : elementName? name = some (elementName name) := by
  obtain ⟨s, rfl⟩ : ∃ s, name = String.ofList s := ⟨_, String.ofList_toList.symm⟩
  rw [elementName, String.toList_ofList]
  by_cases hchildren : ∃ p t, s = p ++ t ∧ t.map Char.toLower = "children".toList
  · obtain ⟨p, t, rfl, ht⟩ := hchildren
    have hcut : (String.ofList (p ++ t)).utf8ByteSize - "children".utf8ByteSize = byteLength p := by
      rw [utf8ByteSize_ofList, byteLength_append, byteLength_children ht, Nat.add_sub_cancel]
    have hfront : slice? (String.ofList (p ++ t)) 0 (byteLength p) = some (String.ofList p) :=
      slice?_ofList [] p t
    have hspelled : (some (String.ofList t)).any
        (fun tail => tail.toList.map Char.toLower = "children".toList) = true := by
      rw [Option.any_some, String.toList_ofList]
      exact decide_eq_true ht
    rw [elementName?, hcut, slice?_to_end, hfront, if_pos hspelled,
      elementNameChars_of_children ht]
    by_cases hp : p = []
    · rw [hp]
      rfl
    · have hne : String.ofList p ≠ "" := mt String.ofList_eq_empty_iff.1 hp
      rw [if_neg hp, ofList_append_toList]
      simp only [Option.bind_eq_bind, Option.bind_some, if_neg hne]
      rfl
  · have hno : ∀ cut, (slice? (String.ofList s) cut (String.ofList s).utf8ByteSize).any
        (fun tail => tail.toList.map Char.toLower = "children".toList) = false := by
      intro cut
      refine (Option.any_eq_false ..).2 fun tail htail => decide_eq_false fun hspelled => ?_
      obtain ⟨p, r, hs, -, hsize⟩ := slice?_eq_some_iff.1 htail
      -- nothing stands behind the last byte
      have htotal : (p ++ tail ++ r).utf8ByteSize = (p ++ tail).utf8ByteSize + r.utf8ByteSize :=
        String.utf8ByteSize_append
      have hr : r = "" := by
        rw [hs] at hsize
        exact String.utf8ByteSize_eq_zero_iff.1 (by omega)
      refine hchildren ⟨p.toList, tail.toList, ?_, hspelled⟩
      rw [hr, String.append_empty] at hs
      rw [← String.toList_append, ← hs, String.toList_ofList]
    rw [elementName?, hno, if_neg Bool.false_ne_true, singular?_eq, singular, String.toList_ofList,
      elementNameChars_of_other hchildren]

example : elementName? "éChildren" = some "éChild" := by decide

end Eponym.Bytewise
