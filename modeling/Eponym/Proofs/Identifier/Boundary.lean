/-
# Where a name is cut

A name of letters and digits is cut into words at places that can be told from the characters
around them: between a digit and a letter, in front of a capital behind a small letter, and in
front of the last of some capitals if a small letter follows.  No such place is inside a word, and
one is at the end of each word but the last; since the places of what follows a word are those of
the whole name, the cuts are exactly these places.

* `Leads.not_isBoundary` : no place inside a word is a boundary;
* `Leads.isBoundary` : the end of a word is one if anything follows;
* `isCut_words_iff` : the words of a name are cut exactly at the boundaries;
* `words_partition` : the words, their boundaries and camel case together.
-/
import Eponym.Proofs.BaseName
import Eponym.Proofs.Identifier.CamelCase
import Mathlib

namespace Eponym

section Boundaries

variable {a b : Char} {i : Nat} {s w rest : List Char} {ws : List (List Char)}

/-! ## Boundaries -/

/-- Whether a word ends between two neighbours that some character may follow: exactly one of them
is a digit, a capital stands behind a small letter, or both are capitals in front of a small
letter. -/
def Divides (a b : Char) (next : Option Char) : Prop :=
  a.isDigit ≠ b.isDigit ∨ (a.isLower = true ∧ b.isUpper = true) ∨
    (a.isUpper = true ∧ b.isUpper = true ∧ ∃ c ∈ next, c.isLower = true)

/-- Whether a word ends behind the character at an index, as told from the characters there. -/
def IsBoundary (s : List Char) (i : Nat) : Prop :=
  ∃ a ∈ s[i]?, ∃ b ∈ s[i + 1]?, Divides a b s[i + 2]?

theorem getElem?_behind (i : Nat) : (w ++ rest)[w.length + i]? = rest[i]? := by
  rw [List.getElem?_append_right (Nat.le_add_right ..), Nat.add_sub_cancel_left]

/-- Behind a text, boundaries are those of what follows. -/
theorem isBoundary_append_right : IsBoundary (w ++ rest) (w.length + i) ↔ IsBoundary rest i := by
  simp only [IsBoundary, Nat.add_assoc, getElem?_behind]

theorem mem_of_getElem?_append (hi : i < w.length) (ha : (w ++ rest)[i]? = some a) : a ∈ w := by
  rw [List.getElem?_append_left hi] at ha
  exact List.mem_of_getElem? ha

/-! ## Inside a word and at its end -/

/-- Nothing divides neighbours in front of another character than a capital, if both or neither
are digits. -/
theorem not_divides (hdigit : a.isDigit = b.isDigit) (hb : b.isUpper = false)
    (next : Option Char) : ¬ Divides a b next := by
  rintro (h | ⟨-, h⟩ | ⟨-, h, -⟩)
  · exact h hdigit
  · exact Bool.eq_false_iff.1 hb h
  · exact Bool.eq_false_iff.1 hb h

/-- Capitals are divided only in front of a small letter. -/
theorem not_divides_of_capitals {next : Option Char} (ha : a.isUpper = true)
    (hb : b.isUpper = true) (hnext : ∀ c ∈ next, c.isLower = false) : ¬ Divides a b next := by
  rintro (h | ⟨h, -⟩ | ⟨-, -, c, hc, h⟩)
  · exact h (by rw [isDigit_of_isUpper ha, isDigit_of_isUpper hb])
  · exact Bool.eq_false_iff.1 (isLower_of_isUpper ha) h
  · exact Bool.eq_false_iff.1 (hnext c hc) h

/-- No small letter stands where an acronym may end. -/
theorem EndsAcronym.head?_isLower (h : EndsAcronym rest) : ∀ c ∈ rest.head?, c.isLower = false := by
  cases h with
  | nil => exact fun c hc => nomatch hc
  | digit hd => simpa using isLower_of_isDigit hd
  | capital hu => simpa using isLower_of_isUpper hu

/-- A word that leads a name has no boundary inside. -/
theorem Leads.not_isBoundary (h : Leads w rest) (hi : i + 1 < w.length) :
    ¬ IsBoundary (w ++ rest) i := by
  rintro ⟨a, ha, b, hb, hdivides⟩
  have haw : a ∈ w := mem_of_getElem?_append (by omega) ha
  have hbw : b ∈ w := mem_of_getElem?_append hi hb
  cases h with
  | acronym _ hw hrest =>
    refine not_divides_of_capitals (hw a haw) (hw b hbw) (fun c hc => ?_) hdivides
    by_cases hinside : i + 2 < w.length
    · exact isLower_of_isUpper (hw c (mem_of_getElem?_append hinside hc))
    · -- the first character behind the acronym
      have hend : i + 2 = w.length + 0 := by omega
      rw [hend, getElem?_behind, ← List.head?_eq_getElem?] at hc
      exact hrest.head?_isLower c hc
  | small _ hw =>
    have hsmall := hw b hbw
    refine not_divides ?_ (isUpper_of_isLower hsmall) _ hdivides
    rw [isDigit_of_isLower (hw a haw), isDigit_of_isLower hsmall]
  | capitalized hw =>
    obtain ⟨u, l, t, rfl, hu, hsmall⟩ := isCapitalized_iff.1 hw
    have hb' : b ∈ l :: t := mem_of_getElem?_append (by simpa using hi) hb
    have ha' : a.isDigit = false := by
      rcases List.mem_cons.1 haw with rfl | ha'
      · exact isDigit_of_isUpper hu
      · exact isDigit_of_isLower (hsmall a ha')
    refine not_divides ?_ (isUpper_of_isLower (hsmall b hb')) _ hdivides
    rw [ha', isDigit_of_isLower (hsmall b hb')]
  | digits _ hw =>
    have hdigit := hw b hbw
    refine not_divides ?_ (isUpper_of_isDigit hdigit) _ hdivides
    rw [hw a haw, hdigit]

/-- A small letter and a letter or digit of another kind are divided. -/
theorem divides_of_isLower (ha : a.isLower = true) (hb : b.isLower = false)
    (halnum : b.isAlphanum = true) (next : Option Char) : Divides a b next := by
  rcases isAlphanum_cases halnum with h | h | h
  · exact .inr (.inl ⟨ha, h⟩)
  · exact absurd h (Bool.eq_false_iff.1 hb)
  · exact .inl (by rw [isDigit_of_isLower ha, h]; exact Bool.false_ne_true)

/-- The last character of a word that leads a name is divided from a letter or digit behind it. -/
theorem Leads.divides {t : List Char} (h : Leads w (b :: t)) (halnum : b.isAlphanum = true)
    (hi : w.length = i + 1) (ha : w[i]? = some a) : Divides a b t.head? := by
  have haw : a ∈ w := List.mem_of_getElem? ha
  cases h with
  | acronym _ hw hrest =>
    cases hrest with
    | digit hd =>
      exact .inl (by rw [isDigit_of_isUpper (hw a haw), hd]; exact Bool.false_ne_true)
    | capital hu hl => exact .inr (.inr ⟨hw a haw, hu, _, rfl, hl⟩)
  | small _ hw hrest => exact divides_of_isLower (hw a haw) (hrest b rfl) halnum _
  | capitalized hw hrest =>
    obtain ⟨u, l, t, rfl, -, hsmall⟩ := isCapitalized_iff.1 hw
    have hlast : i = t.length + 1 := by simpa using hi.symm
    have ha' : a ∈ l :: t := by
      rw [hlast, List.getElem?_cons_succ] at ha
      exact List.mem_of_getElem? ha
    exact divides_of_isLower (hsmall a ha') (hrest b rfl) halnum _
  | digits _ hw hrest =>
    exact .inl (by rw [hw a haw, hrest b rfl]; exact Bool.false_ne_true.symm)

/-- The end of a word that leads a name is a boundary if a letter or digit follows. -/
theorem Leads.isBoundary {t : List Char} (h : Leads w (b :: t)) (halnum : b.isAlphanum = true)
    (hi : w.length = i + 1) : IsBoundary (w ++ b :: t) i := by
  have hlt : i < w.length := by omega
  have ha : w[i]? = some w[i] := List.getElem?_eq_getElem hlt
  have hnext : (w ++ b :: t)[i + 2]? = t.head? := by
    rw [show i + 2 = w.length + 1 by omega, getElem?_behind, List.getElem?_cons_succ,
      List.head?_eq_getElem?]
  refine ⟨w[i], ?_, b, ?_, ?_⟩
  · rw [List.getElem?_append_left hlt]
    exact ha
  · rw [show i + 1 = w.length + 0 by omega, getElem?_behind]
    rfl
  · rw [hnext]
    exact h.divides halnum hi ha

/-! ## Cuts -/

/-- Whether some of the first words, put together, have a given length. -/
def IsCut (ws : List (List Char)) (n : Nat) : Prop :=
  ∃ front, front <+: ws ∧ front.flatten.length = n

theorem isCut_zero (ws : List (List Char)) : IsCut ws 0 := ⟨[], List.nil_prefix, rfl⟩

/-- With a word more in front, the cuts are its end and those behind it. -/
theorem isCut_cons (hw : w ≠ []) :
    IsCut (w :: ws) (i + 1) ↔ ∃ n, i + 1 = w.length + n ∧ IsCut ws n := by
  constructor
  · rintro ⟨front, hfront, hlength⟩
    cases front with
    | nil => exact absurd hlength (Nat.succ_ne_zero i).symm
    | cons v front =>
      obtain ⟨rfl, htail⟩ := List.cons_prefix_cons.1 hfront
      rw [List.flatten_cons, List.length_append] at hlength
      exact ⟨front.flatten.length, hlength.symm, front, htail, rfl⟩
  · rintro ⟨n, hn, front, hfront, hlength⟩
    refine ⟨w :: front, List.cons_prefix_cons.2 ⟨rfl, hfront⟩, ?_⟩
    rw [List.flatten_cons, List.length_append, hlength, hn]

/-- A name of letters and digits is cut into words exactly at its boundaries. -/
theorem isCut_words_iff (hs : ∀ c ∈ s, c.isAlphanum = true) (hi : i + 1 < s.length) :
    IsCut (words s) (i + 1) ↔ IsBoundary s i := by
  induction s using reading_induction generalizing i with
  | nil => exact absurd hi (Nat.not_lt_zero _)
  | word w rest h ih =>
    have hrest : ∀ c ∈ rest, c.isAlphanum = true := fun c hc => hs c (List.mem_append_right w hc)
    rw [List.length_append] at hi
    rw [words_of_leads h, isCut_cons h.ne_nil]
    -- the place is inside the first word, at its end or behind it
    rcases Nat.lt_trichotomy (i + 1) w.length with hinside | hend | hbehind
    · refine iff_of_false ?_ (h.not_isBoundary hinside)
      rintro ⟨n, hn, -⟩
      omega
    · refine iff_of_true ⟨0, hend, isCut_zero _⟩ ?_
      have hne : rest ≠ [] := by
        rintro rfl
        simp at hi
        omega
      obtain ⟨b, t, rfl⟩ := List.exists_cons_of_ne_nil hne
      exact h.isBoundary (hrest b List.mem_cons_self) hend.symm
    · -- there the boundaries and the cuts are those of the rest
      obtain ⟨j, rfl⟩ : ∃ j, i = w.length + j := ⟨i - w.length, by omega⟩
      rw [isBoundary_append_right, ← ih hrest (by omega)]
      constructor
      · rintro ⟨n, hn, hcut⟩
        rwa [show j + 1 = n by omega]
      · intro hcut
        exact ⟨j + 1, by omega, hcut⟩
  | passed run d t h ih =>
    have hd := hs d (List.mem_append_right run List.mem_cons_self)
    exact absurd hd (Bool.eq_false_iff.1 h.stop)

/-- Some of the first words of a name are some of its first words on lists. -/
theorem exists_prefix_wordsOf {name : String} {n : Nat} :
    (∃ front, front <+: wordsOf name ∧ (String.join front).length = n) ↔
      IsCut (words name.toList) n := by
  constructor
  · rintro ⟨front, ⟨back, hfront⟩, hlength⟩
    obtain ⟨front, back, hsplit, rfl, rfl⟩ := List.map_eq_append_iff.1 hfront.symm
    refine ⟨front, ⟨back, hsplit.symm⟩, ?_⟩
    rwa [join_map_ofList, String.length_ofList] at hlength
  · rintro ⟨front, hfront, hlength⟩
    refine ⟨front.map String.ofList, hfront.map String.ofList, ?_⟩
    rw [join_map_ofList, String.length_ofList, hlength]

end Boundaries

/-! ## Names -/

/-- The words of a name of letters and digits make it up, each of at least one character, and one
ends between two neighbours exactly if one of them is a digit and the other is not, a capital
follows a small letter, or both are capitals and a small letter follows.  In small letters, camel
case does not change such a name. -/
theorem words_partition {name : String} (h : ∀ c ∈ name.toList, c.isAlphanum = true) :
    String.join (wordsOf name) = name ∧ "" ∉ wordsOf name ∧
      (∀ i a b, name.toList[i]? = some a → name.toList[i + 1]? = some b →
        ((∃ front, front <+: wordsOf name ∧ (String.join front).length = i + 1) ↔
          a.isDigit ≠ b.isDigit ∨ (a.isLower = true ∧ b.isUpper = true) ∨
            (a.isUpper = true ∧ b.isUpper = true ∧
              ∃ c, name.toList[i + 2]? = some c ∧ c.isLower = true))) ∧
      (camelCase name).toList.map Char.toLower = name.toList.map Char.toLower := by
  have hflatten := flatten_words h
  refine ⟨?_, ?_, fun i a b ha hb => ?_, ?_⟩
  · rw [wordsOf, join_map_ofList, hflatten, String.ofList_toList]
  · intro hempty
    obtain ⟨w, hw, hnil⟩ := List.mem_map.1 hempty
    exact ne_nil_of_mem_words hw (String.ofList_eq_empty_iff.1 hnil)
  · have hlt : i + 1 < name.toList.length := (List.getElem?_eq_some_iff.1 hb).1
    rw [exists_prefix_wordsOf, isCut_words_iff h hlt]
    constructor
    · rintro ⟨a', ha', b', hb', hdivides⟩
      obtain rfl := Option.some.inj (ha.symm.trans ha')
      obtain rfl := Option.some.inj (hb.symm.trans hb')
      exact hdivides
    · intro hdivides
      exact ⟨a, ha, b, hb, hdivides⟩
  · rw [toList_camelCase, map_toLower_camelCaseChars]
    split
    · rfl
    · rw [hflatten]

/-- Acronym, word, digit and a last capital. -/
theorem words_partition_node :
    (∀ c ∈ "XMLNode2D".toList, c.isAlphanum = true) ∧
      wordsOf "XMLNode2D" = ["XML", "Node", "2", "D"] ∧
      (camelCase "XMLNode2D").toList.map Char.toLower = "XMLNode2D".toList.map Char.toLower ∧
      ∃ front, front <+: wordsOf "XMLNode2D" ∧ (String.join front).length = 3 := by
  have h : ∀ c ∈ "XMLNode2D".toList, c.isAlphanum = true := by simp
  obtain ⟨-, -, hcuts, hcamel⟩ := words_partition h
  refine ⟨h, by decide +kernel, hcamel, (hcuts 2 'L' 'N' rfl rfl).2 ?_⟩
  exact .inr (.inr ⟨rfl, rfl, 'o', rfl, rfl⟩)

end Eponym
