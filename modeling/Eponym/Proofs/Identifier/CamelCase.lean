/-
# What camel case keeps

Camel case changes letters only between capital and small, so in small letters it is the words of
the name put together.  A letter or digit is in no word exactly if it is a capital whose run ends
in front of a separator: no acronym ends there, and no small word begins there.  Those capitals
are lost, except where a name has no words at all and is kept as it is.

* `map_toLower_camelCaseChars` : camel case and the words agree in small letters;
* `flatten_words_eq` : the words have all letters and digits but the stranded capitals;
* `filter_withoutStranded_eq_iff` : none is stranded if no capital stands before a separator;
* `camelCase_spelled_iff` : which names keep all their letters and digits.
-/
import Eponym.Proofs.Identifier.Word
import Mathlib

namespace Eponym

section CamelCase

variable {c d : Char} {s t w run rest : List Char}

/-! ## Small forms -/

theorem map_toLower_capitalizeChars (s : List Char) :
    (capitalizeChars s).map Char.toLower = s.map Char.toLower := by
  cases s with
  | nil => rfl
  | cons c s => rw [capitalizeChars, List.map_cons, List.map_cons, Char.toLower_toUpper_eq_toLower]

theorem map_toLower_decapitalizeChars (s : List Char) :
    (decapitalizeChars s).map Char.toLower = s.map Char.toLower := by
  cases s with
  | nil => rfl
  | cons c s =>
    rw [decapitalizeChars, List.map_cons, List.map_cons, Char.toLower_toLower_eq_toLower]

theorem map_toLower_map_toLower (s : List Char) :
    (s.map Char.toLower).map Char.toLower = s.map Char.toLower := by
  rw [List.map_map]
  exact List.map_congr_left fun c _ => Char.toLower_toLower_eq_toLower c

/-- Words in camel case have the small form of the words put together. -/
theorem map_toLower_joinCamel (ws : List (List Char)) :
    (joinCamel ws).map Char.toLower = ws.flatten.map Char.toLower := by
  cases ws with
  | nil => rfl
  | cons w ws =>
    have hlater : (ws.flatMap fun v => capitalizeChars (v.map Char.toLower)).map Char.toLower =
        ws.flatten.map Char.toLower := by
      rw [List.map_flatMap, List.map_flatten, List.flatMap_def]
      congr 1
      refine List.map_congr_left fun v _ => ?_
      rw [map_toLower_capitalizeChars, map_toLower_map_toLower]
    rw [joinCamel, List.map_append, map_toLower_map_toLower, hlater, List.flatten_cons,
      List.map_append]

/-- Camel case has the small form of the words put together, or of a name without words. -/
theorem map_toLower_camelCaseChars (s : List Char) :
    (camelCaseChars s).map Char.toLower =
      if words s = [] then s.map Char.toLower else (words s).flatten.map Char.toLower := by
  by_cases hwords : words s = []
  · rw [if_pos hwords, camelCaseChars, hwords]
    exact map_toLower_decapitalizeChars s
  · rw [if_neg hwords, camelCaseChars_of_words hwords, map_toLower_joinCamel]

/-! ## Stranded capitals -/

/-- Whether the capitals at the head of a text, possibly none, stand in front of a separator. -/
def strands (s : List Char) : Bool :=
  (s.dropWhile Char.isUpper).head?.any fun d => !d.isAlphanum

/-- The text without the capitals of a run in front of a separator. -/
def withoutStranded : List Char → List Char
  | [] => []
  | c :: s => if c.isUpper && strands s then withoutStranded s else c :: withoutStranded s

/-- Further capitals strand if those behind them do. -/
theorem strands_append (hw : ∀ c ∈ w, c.isUpper = true) : strands (w ++ rest) = strands rest := by
  rw [strands, List.dropWhile_append_of_pos hw, strands]

/-- No capitals at the head strand if a separator is there. -/
theorem strands_cons (hd : d.isUpper = false) : strands (d :: t) = !d.isAlphanum := by
  rw [strands, List.dropWhile_cons_of_neg (Bool.eq_false_iff.1 hd)]
  rfl

/-- Where an acronym may end, it is not stranded. -/
theorem strands_of_endsAcronym (h : EndsAcronym rest) : strands rest = false := by
  cases h with
  | nil => rfl
  | digit hd => rw [strands_cons (isUpper_of_isDigit hd), isAlphanum_of_isDigit hd]; rfl
  | capital hu hl =>
    rw [← List.singleton_append, strands_append (List.forall_mem_singleton.2 hu),
      strands_cons (isUpper_of_isLower hl), isAlphanum_of_isLower hl]
    rfl

/-- A character is kept if it is no capital or is not stranded. -/
theorem withoutStranded_cons (h : c.isUpper = false ∨ strands s = false) :
    withoutStranded (c :: s) = c :: withoutStranded s := by
  rw [withoutStranded, if_neg]
  rcases h with h | h <;> simp [h]

/-- Characters other than capitals are kept. -/
theorem withoutStranded_append (hw : ∀ c ∈ w, c.isUpper = false) :
    withoutStranded (w ++ rest) = w ++ withoutStranded rest := by
  induction w with
  | nil => rfl
  | cons c w ih =>
    obtain ⟨hc, hw⟩ := List.forall_mem_cons.1 hw
    rw [List.cons_append, withoutStranded_cons (.inl hc), ih hw]
    rfl

/-- Capitals that are not stranded are kept. -/
theorem withoutStranded_append_of_capitals (hw : ∀ c ∈ w, c.isUpper = true)
    (hrest : strands rest = false) : withoutStranded (w ++ rest) = w ++ withoutStranded rest := by
  induction w with
  | nil => rfl
  | cons c w ih =>
    have hw := (List.forall_mem_cons.1 hw).2
    rw [List.cons_append, withoutStranded_cons (.inr (by rw [strands_append hw, hrest])), ih hw]
    rfl

/-- A word that leads a name is kept. -/
theorem withoutStranded_of_leads (h : Leads w rest) :
    withoutStranded (w ++ rest) = w ++ withoutStranded rest := by
  cases h with
  | acronym _ hw hrest => exact withoutStranded_append_of_capitals hw (strands_of_endsAcronym hrest)
  | small _ hw => exact withoutStranded_append fun c hc => isUpper_of_isLower (hw c hc)
  | capitalized hw =>
    obtain ⟨u, l, t, rfl, hu, hsmall⟩ := isCapitalized_iff.1 hw
    have hl : l.isLower = true := hsmall l List.mem_cons_self
    have hkept : strands (l :: t ++ rest) = false := by
      rw [List.cons_append, strands_cons (isUpper_of_isLower hl), isAlphanum_of_isLower hl]
      rfl
    rw [List.cons_append, withoutStranded_cons (.inr hkept),
      withoutStranded_append fun c hc => isUpper_of_isLower (hsmall c hc)]
    rfl
  | digits _ hw => exact withoutStranded_append fun c hc => isUpper_of_isDigit (hw c hc)

/-- Of what is passed over, only the separator is kept. -/
theorem withoutStranded_of_passed (h : Passed run d) :
    withoutStranded (run ++ d :: t) = d :: withoutStranded t := by
  obtain ⟨hrun, hd⟩ := h
  have hupper := (isAlphanum_eq_false hd).1
  induction run with
  | nil => exact withoutStranded_cons (.inl hupper)
  | cons c run ih =>
    obtain ⟨hc, hrun⟩ := List.forall_mem_cons.1 hrun
    have hstranded : strands (run ++ d :: t) = true := by
      rw [strands_append hrun, strands_cons hupper, hd]
      rfl
    rw [List.cons_append, withoutStranded, hc, hstranded]
    exact ih hrun

/-- The words of a name have all its letters and digits but the stranded capitals. -/
theorem flatten_words_eq (s : List Char) :
    (words s).flatten = (withoutStranded s).filter Char.isAlphanum := by
  induction s using reading_induction with
  | nil => rw [words_nil]; rfl
  | word w rest h ih =>
    rw [words_of_leads h, withoutStranded_of_leads h, List.flatten_cons, List.filter_append, ih,
      List.filter_eq_self.2 h.isAlphanum]
  | passed run d t h ih =>
    rw [words_of_passed h, withoutStranded_of_passed h, ih,
      List.filter_cons_of_neg (Bool.eq_false_iff.1 h.stop)]

/-! ## Names that lose nothing -/

/-- What is left without stranded capitals stands in the text. -/
theorem withoutStranded_sublist (s : List Char) : (withoutStranded s).Sublist s := by
  induction s with
  | nil => exact List.Sublist.refl _
  | cons c s ih =>
    rw [withoutStranded]
    split
    · exact ih.cons c
    · exact ih.cons_cons c

/-- What is left without stranded capitals is of letters, digits and underscores if the text is. -/
theorem letters_withoutStranded (h : ∀ c ∈ s, c.isAlphanum = true ∨ c = '_') :
    ∀ c ∈ withoutStranded s, c.isAlphanum = true ∨ c = '_' :=
  fun c hc => h c ((withoutStranded_sublist s).subset hc)

/-- Whether no capital of a text has a separator next to it. -/
def NoneStranded (s : List Char) : Prop :=
  ∀ c d, [c, d] <:+: s → c.isUpper = true → d.isAlphanum = true

/-- Two neighbours in a text stand at its head or further on. -/
theorem pair_infix_cons {a b : Char} :
    [a, b] <:+: c :: s ↔ (a = c ∧ s.head? = some b) ∨ [a, b] <:+: s := by
  rw [List.infix_cons_iff, List.cons_prefix_cons]
  refine or_congr_left (and_congr_right fun _ => ?_)
  cases s with
  | nil => simp
  | cons d s => rw [List.cons_prefix_cons, List.head?_cons, Option.some.injEq]; simp [eq_comm]

/-- A capital more is not stranded either if it has no separator next to it. -/
theorem noneStranded_cons :
    NoneStranded (c :: s) ↔
      (c.isUpper = true → ∀ d ∈ s.head?, d.isAlphanum = true) ∧ NoneStranded s := by
  constructor
  · intro h
    exact ⟨fun hc d hd => h c d (pair_infix_cons.2 (.inl ⟨rfl, hd⟩)) hc,
      fun a b hab => h a b (pair_infix_cons.2 (.inr hab))⟩
  · rintro ⟨hhead, hrest⟩ a b hab ha
    rcases pair_infix_cons.1 hab with ⟨rfl, hb⟩ | hab
    · exact hhead ha b hb
    · exact hrest a b hab ha

/-- Capitals behind another do not strand if none has a separator next to it. -/
theorem strands_of_noneStranded (h : NoneStranded (c :: s)) (hc : c.isUpper = true) :
    strands s = false := by
  induction s generalizing c with
  | nil => rfl
  | cons d t ih =>
    obtain ⟨hhead, hrest⟩ := noneStranded_cons.1 h
    by_cases hd : d.isUpper = true
    · have hrun : ∀ a ∈ [d], a.isUpper = true := List.forall_mem_singleton.2 hd
      rw [← List.singleton_append, strands_append hrun]
      exact ih hrest hd
    · rw [strands_cons (Bool.eq_false_iff.2 hd), hhead hc d rfl]
      rfl

/-- All of a text is kept if no capital has a separator next to it. -/
theorem withoutStranded_eq_self (h : NoneStranded s) : withoutStranded s = s := by
  induction s with
  | nil => rfl
  | cons c s ih =>
    have hkept : c.isUpper = false ∨ strands s = false := by
      cases hc : c.isUpper with
      | false => exact .inl rfl
      | true => exact .inr (strands_of_noneStranded h hc)
    rw [withoutStranded_cons hkept, ih (noneStranded_cons.1 h).2]

/-- If all letters and digits are kept, no capital has a separator next to it. -/
theorem noneStranded_of_filter
    (h : (withoutStranded s).filter Char.isAlphanum = s.filter Char.isAlphanum) :
    NoneStranded s := by
  induction s with
  | nil => exact fun c d hcd => absurd (List.infix_nil.1 hcd) (List.cons_ne_nil c [d])
  | cons c s ih =>
    by_cases hstranded : (c.isUpper && strands s) = true
    · -- the capital in front is lost, and nothing makes up for it
      obtain ⟨hc, -⟩ := Bool.and_eq_true_iff.1 hstranded
      have hle := ((withoutStranded_sublist s).filter Char.isAlphanum).length_le
      have halnum : c.isAlphanum = true := isAlphanum_of_isUpper hc
      rw [withoutStranded, if_pos hstranded, List.filter_cons_of_pos halnum] at h
      rw [h, List.length_cons] at hle
      omega
    · have hkept : c.isUpper = false ∨ strands s = false := by
        simpa [Bool.and_eq_true, Classical.or_iff_not_imp_left] using hstranded
      rw [withoutStranded_cons hkept] at h
      refine noneStranded_cons.2 ⟨fun hc d hd => ?_, ih ?_⟩
      · have hs : strands s = false := hkept.resolve_left (by simp [hc])
        obtain ⟨t, rfl⟩ : ∃ t, s = d :: t := List.head?_eq_some_iff.1 hd
        by_cases hupper : d.isUpper = true
        · exact isAlphanum_of_isUpper hupper
        · rw [strands_cons (Bool.eq_false_iff.2 hupper)] at hs
          simpa using hs
      · rw [List.filter_cons, List.filter_cons] at h
        split at h
        · exact List.tail_eq_of_cons_eq h
        · exact h

/-- All letters and digits are kept exactly if no capital has a separator next to it. -/
theorem filter_withoutStranded_eq_iff :
    (withoutStranded s).filter Char.isAlphanum = s.filter Char.isAlphanum ↔ NoneStranded s :=
  ⟨noneStranded_of_filter, fun h => by rw [withoutStranded_eq_self h]⟩

/-! ## Names without words -/

/-- A name that a word leads has a letter or digit other than a capital, or ends in a capital. -/
theorem Leads.not_passed (h : Leads w rest) :
    (∃ c ∈ w ++ rest, c.isUpper = false ∧ c.isAlphanum = true) ∨
      ∃ c ∈ (w ++ rest).getLast?, c.isUpper = true := by
  have hmem : ∀ c ∈ w, c ∈ w ++ rest := fun c hc => List.mem_append_left rest hc
  cases h with
  | acronym hne hw hrest =>
    cases hrest with
    | nil =>
      obtain ⟨c, hc⟩ := List.getLast?_isSome.2 hne |> Option.isSome_iff_exists.1
      rw [List.append_nil]
      exact .inr ⟨c, hc, hw c (List.mem_of_getLast? hc)⟩
    | digit hd =>
      exact .inl ⟨_, List.mem_append_right w List.mem_cons_self, isUpper_of_isDigit hd,
        isAlphanum_of_isDigit hd⟩
    | capital _ hl =>
      exact .inl ⟨_, List.mem_append_right w (List.mem_cons_of_mem _ List.mem_cons_self),
        isUpper_of_isLower hl, isAlphanum_of_isLower hl⟩
  | small hne hw =>
    obtain ⟨c, hc⟩ := List.exists_mem_of_ne_nil w hne
    exact .inl ⟨c, hmem c hc, isUpper_of_isLower (hw c hc), isAlphanum_of_isLower (hw c hc)⟩
  | capitalized hw =>
    obtain ⟨u, l, t, rfl, -, hsmall⟩ := isCapitalized_iff.1 hw
    have hl : l.isLower = true := hsmall l List.mem_cons_self
    exact .inl ⟨l, hmem l (List.mem_cons_of_mem u List.mem_cons_self), isUpper_of_isLower hl,
      isAlphanum_of_isLower hl⟩
  | digits hne hw =>
    obtain ⟨c, hc⟩ := List.exists_mem_of_ne_nil w hne
    exact .inl ⟨c, hmem c hc, isUpper_of_isDigit (hw c hc), isAlphanum_of_isDigit (hw c hc)⟩

/-- A name has no words exactly if all its letters and digits are capitals and none is last. -/
theorem words_eq_nil_iff :
    words s = [] ↔ (∀ c ∈ s, c.isUpper = true ∨ c.isAlphanum = false) ∧
      ∀ c ∈ s.getLast?, c.isUpper = false := by
  induction s using reading_induction with
  | nil => simp
  | word w rest h ih =>
    -- either its first word or the end of the name is of another kind
    rw [words_of_leads h]
    refine iff_of_false (List.cons_ne_nil w _) ?_
    rintro ⟨hall, hlast⟩
    rcases h.not_passed with ⟨c, hc, hupper, halnum⟩ | ⟨c, hc, hupper⟩
    · rcases hall c hc with h | h
      · exact Bool.eq_false_iff.1 hupper h
      · exact Bool.eq_false_iff.1 h halnum
    · exact Bool.eq_false_iff.1 (hlast c hc) hupper
  | passed run d t h ih =>
    have hupper := (isAlphanum_eq_false h.stop).1
    have hall : (∀ c ∈ run ++ d :: t, c.isUpper = true ∨ c.isAlphanum = false) ↔
        ∀ c ∈ t, c.isUpper = true ∨ c.isAlphanum = false := by
      rw [List.forall_mem_append, List.forall_mem_cons]
      exact ⟨fun hc => hc.2.2, fun hc => ⟨fun c hc => .inl (h.run_upper c hc), .inr h.stop, hc⟩⟩
    have hlast : (∀ c ∈ (run ++ d :: t).getLast?, c.isUpper = false) ↔
        ∀ c ∈ t.getLast?, c.isUpper = false := by
      rw [List.getLast?_append_of_ne_nil _ (List.cons_ne_nil d t)]
      cases t with
      | nil => simp [hupper]
      | cons b t => rw [List.getLast?_cons_cons]
    rw [words_of_passed h, ih, hall, hlast]

/-! ## Letters, digits and underscores -/

/-- The small form of a text without its underscores. -/
def spelled (s : List Char) : List Char := (s.map Char.toLower).filter fun c => c ≠ '_'

/-- Only an underscore becomes one in small letters. -/
theorem toLower_eq_underscore : c.toLower = '_' ↔ c = '_' := by
  by_cases hc : c.isUpper = true
  · have hlower : c.toLower.isLower = true := by
      rw [Char.isLower_toLower_eq_isAlpha, Char.isAlpha, hc]
      rfl
    refine iff_of_false (fun h => ?_) (fun h => ?_)
    · rw [h] at hlower
      exact absurd hlower (by decide)
    · rw [h] at hc
      exact absurd hc (by decide)
  · rw [Char.toLower_eq_of_not_isUpper hc]

/-- Underscores may be dropped before the small form is taken. -/
theorem spelled_eq (s : List Char) : spelled s = (s.filter fun c => c ≠ '_').map Char.toLower := by
  rw [spelled, List.filter_map]
  congr 1
  refine List.filter_congr fun c _ => ?_
  simp [toLower_eq_underscore]

/-- Of letters, digits and underscores, the letters and digits are spelled. -/
theorem spelled_of_letters (h : ∀ c ∈ s, c.isAlphanum = true ∨ c = '_') :
    spelled s = (s.filter Char.isAlphanum).map Char.toLower := by
  rw [spelled_eq]
  congr 1
  refine List.filter_congr fun c hc => ?_
  rcases h c hc with halnum | rfl
  · have hne : c ≠ '_' := by
      rintro rfl
      exact absurd halnum (by decide)
    simp [halnum, hne]
  · rfl

/-- Camel case spells a name with words as it is without its stranded capitals. -/
theorem spelled_camelCaseChars (h : ∀ c ∈ s, c.isAlphanum = true ∨ c = '_')
    (hwords : words s ≠ []) : spelled (camelCaseChars s) = spelled (withoutStranded s) := by
  have hflatten : ∀ c ∈ (words s).flatten, c.isAlphanum = true ∨ c = '_' := by
    intro c hc
    rw [flatten_words_eq] at hc
    exact .inl (List.mem_filter.1 hc).2
  have hsmall : spelled (camelCaseChars s) = spelled (words s).flatten := by
    rw [spelled, map_toLower_camelCaseChars, if_neg hwords, ← spelled]
  rw [hsmall, spelled_of_letters hflatten, spelled_of_letters (letters_withoutStranded h),
    flatten_words_eq, List.filter_filter]
  simp only [Bool.and_self]

/-- Camel case spells a name as it is exactly if none of its capitals is stranded, or it has no
words. -/
theorem spelled_camelCaseChars_iff (h : ∀ c ∈ s, c.isAlphanum = true ∨ c = '_') :
    spelled (camelCaseChars s) = spelled s ↔ NoneStranded s ∨ words s = [] := by
  by_cases hwords : words s = []
  · refine iff_of_true ?_ (.inr hwords)
    rw [spelled, map_toLower_camelCaseChars, if_pos hwords, spelled]
  · have hkept := letters_withoutStranded h
    rw [spelled_camelCaseChars h hwords, or_iff_left hwords, ← filter_withoutStranded_eq_iff]
    constructor
    · intro heq
      rw [spelled_of_letters hkept, spelled_of_letters h] at heq
      have hlength := congrArg List.length heq
      rw [List.length_map, List.length_map] at hlength
      exact ((withoutStranded_sublist s).filter _).eq_of_length hlength
    · intro heq
      rw [spelled_of_letters hkept, spelled_of_letters h, heq]

/-- An underscore is what is no letter or digit. -/
theorem isAlphanum_eq_false_iff (h : c.isAlphanum = true ∨ c = '_') :
    c.isAlphanum = false ↔ c = '_' := by
  constructor
  · intro hc
    exact h.resolve_left (Bool.eq_false_iff.1 hc)
  · rintro rfl
    rfl

/-- No capital is stranded exactly if none stands directly in front of an underscore. -/
theorem noneStranded_iff (h : ∀ c ∈ s, c.isAlphanum = true ∨ c = '_') :
    NoneStranded s ↔ ∀ c, [c, '_'] <:+: s → c.isUpper = false := by
  constructor
  · intro hnone c hpair
    refine Bool.eq_false_iff.2 fun hc => ?_
    exact absurd (hnone c '_' hpair hc) (by decide)
  · intro hnone c d hpair hc
    have hd : d ∈ s := hpair.subset (List.mem_cons_of_mem c List.mem_cons_self)
    rcases h d hd with halnum | rfl
    · exact halnum
    · exact absurd hc (Bool.eq_false_iff.1 (hnone c hpair))

/-- A name of letters, digits and underscores has no words exactly if it is made of capitals and
underscores and does not end in a capital. -/
theorem words_eq_nil_iff_of_letters (h : ∀ c ∈ s, c.isAlphanum = true ∨ c = '_') :
    words s = [] ↔ (∀ c ∈ s, c.isUpper = true ∨ c = '_') ∧ ∀ c ∈ s.getLast?, c = '_' := by
  rw [words_eq_nil_iff]
  have hall : (∀ c ∈ s, c.isUpper = true ∨ c.isAlphanum = false) ↔
      ∀ c ∈ s, c.isUpper = true ∨ c = '_' :=
    forall₂_congr fun c hc => or_congr_right (isAlphanum_eq_false_iff (h c hc))
  rw [hall]
  refine and_congr_right fun hcapitals => forall₂_congr fun c hc => ?_
  constructor
  · intro hupper
    exact (hcapitals c (List.mem_of_getLast? hc)).resolve_left (Bool.eq_false_iff.1 hupper)
  · rintro rfl
    rfl

end CamelCase

/-! ## Names -/

/-- Camel case drops only underscores from a name of letters, digits and underscores exactly if no
capital of it stands directly in front of an underscore, or it has no words: then it is made of
capitals and underscores and does not end in a capital.  Otherwise what is dropped as well are the
capitals of each run in front of an underscore. -/
theorem camelCase_spelled_iff {name : String}
    (h : ∀ c ∈ name.toList, c.isAlphanum = true ∨ c = '_') :
    (spelled (camelCase name).toList = spelled name.toList ↔
      (∀ c, [c, '_'] <:+: name.toList → c.isUpper = false) ∨
        ((∀ c ∈ name.toList, c.isUpper = true ∨ c = '_') ∧
          ∀ c ∈ name.toList.getLast?, c = '_')) ∧
      (wordsOf name ≠ [] →
        spelled (camelCase name).toList = spelled (withoutStranded name.toList)) := by
  rw [toList_camelCase, spelled_camelCaseChars_iff h, noneStranded_iff h,
    words_eq_nil_iff_of_letters h]
  refine ⟨Iff.rfl, fun hwords => spelled_camelCaseChars h fun hnil => hwords ?_⟩
  rw [wordsOf, hnil]
  rfl

/-- A word in front of an underscore is kept, an acronym is not. -/
theorem camelCase_spelled_iff_order :
    (∀ c ∈ "Legacy_XMLOrder".toList, c.isAlphanum = true ∨ c = '_') ∧
      spelled (camelCase "Legacy_XMLOrder").toList = spelled "Legacy_XMLOrder".toList ∧
      (∀ c ∈ "Legacy_XML_Order".toList, c.isAlphanum = true ∨ c = '_') ∧
      spelled (camelCase "Legacy_XML_Order").toList = spelled "Legacy__Order".toList := by
  have hplain : ∀ c ∈ "Legacy_XMLOrder".toList, c.isAlphanum = true ∨ c = '_' := by simp
  have hstranded : ∀ c ∈ "Legacy_XML_Order".toList, c.isAlphanum = true ∨ c = '_' := by simp
  refine ⟨hplain, (camelCase_spelled_iff hplain).1.2 (.inl ?_), hstranded, ?_⟩
  · rw [← noneStranded_iff hplain, ← filter_withoutStranded_eq_iff]
    decide +kernel
  · rw [(camelCase_spelled_iff hstranded).2 (by decide +kernel)]
    decide +kernel

/-- The acronym of a name with an underscore behind it is lost. -/
theorem acronym_lost :
    camelCase "PHP_CodeSniffer" = "codeSniffer" ∧
      spelled (camelCase "PHP_CodeSniffer").toList ≠ spelled "PHP_CodeSniffer".toList := by
  decide +kernel

end Eponym
