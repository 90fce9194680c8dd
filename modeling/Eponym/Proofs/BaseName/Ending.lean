/-
# Endings are words

The endings of a short name are looked for in its characters, while camel case goes by its
words.  The two agree: each ending is a capitalized word, so a name of letters and digits has
it as an ending exactly if it is the last of its words, and what stands in front of it keeps
its own words, whether it ends in small letters, in an acronym or in digits.

* `stripEnding?_of_words` : a capitalized ending comes off exactly if it is the last word;
* `endingBaseNames_of_words` : the last word alone decides on the rule.
-/
import Eponym.Proofs.BaseName
import Eponym.Proofs.Identifier.Word
import Mathlib.Tactic.SplitIfs

namespace Eponym

/-! ## The tables -/

theorem isCapitalized_of_mem_endings :
    ∀ e ∈ keptEndings ++ mandatoryEndings ++ optionalEndings, isCapitalized e.toList = true := by
  decide +kernel

/-- No ending is under two rules. -/
theorem nodup_endings : (keptEndings ++ mandatoryEndings ++ optionalEndings).Nodup := by
  decide +kernel

/-- The rule for names that have a word at the end. -/
def ruleOfWord (w : String) : EndingRule :=
  if w ∈ keptEndings then .kept
  else if w ∈ mandatoryEndings then .mandatory
  else if w ∈ optionalEndings then .optional
  else .none

/-- The rules exclude one another. -/
theorem ruleOfWord_spec (w : String) :
    (ruleOfWord w = .kept ↔ w ∈ keptEndings) ∧
      (ruleOfWord w = .mandatory ↔ w ∈ mandatoryEndings) ∧
      (ruleOfWord w = .optional ↔ w ∈ optionalEndings) ∧
      (ruleOfWord w = .none ↔ w ∉ keptEndings ++ mandatoryEndings ++ optionalEndings) := by
  have hnodup := nodup_endings
  rw [List.nodup_append, List.nodup_append] at hnodup
  obtain ⟨⟨-, -, hkm⟩, -, hkmo⟩ := hnodup
  simp only [List.mem_append, not_or] at hkmo ⊢
  unfold ruleOfWord
  split_ifs with hk hm ho <;> grind

section Words

variable {s last : List Char} {front : List (List Char)}

/-! ## Endings and words -/

/-- Nothing stands in front of the last word exactly if it is the only one. -/
theorem flatten_front_eq_nil (hwords : words s = front ++ [last]) :
    front.flatten = [] ↔ front = [] := by
  constructor
  · intro h
    refine List.eq_nil_iff_forall_not_mem.2 fun w hw => ?_
    have hmem : w ∈ words s := hwords ▸ List.mem_append_left _ hw
    exact ne_nil_of_mem_words hmem (List.flatten_eq_nil_iff.1 h w hw)
  · rintro rfl
    rfl

-- a name of letters and digits, by its words
variable (hs : ∀ c ∈ s, c.isAlphanum = true) (hwords : words s = front ++ [last])

include hs hwords

/-- The words in front of the last, put together, are what stands in front of it. -/
theorem eq_flatten_append_of_words : s = front.flatten ++ last := by
  have hflatten := flatten_words hs
  rwa [hwords, List.flatten_append, List.flatten_singleton, eq_comm] at hflatten

/-- Apart from a capitalized last word, the words of a name are those of the rest. -/
theorem words_flatten_front (hlast : isCapitalized last = true) :
    words front.flatten = front := by
  rw [eq_flatten_append_of_words hs hwords, words_append_of_isCapitalized hlast] at hwords
  exact List.append_cancel_right hwords

/-- The last word is the only one exactly if it is the whole name. -/
theorem front_eq_nil_iff : front = [] ↔ last = s := by
  rw [← flatten_front_eq_nil hwords, eq_flatten_append_of_words hs hwords]
  exact List.self_eq_append_left.symm

/-- A capitalized ending comes off a name exactly if it is the last word. -/
theorem stripEnding?_of_words {e : List Char} (he : isCapitalized e = true) :
    stripEnding? e s = if e = last then some front.flatten else none := by
  split
  · next heq =>
    rw [heq]
    exact stripEnding?_eq_some.2 (eq_flatten_append_of_words hs hwords)
  · next hne =>
    cases hstrip : stripEnding? e s with
    | none => rfl
    | some r =>
      rw [stripEnding?_eq_some.1 hstrip, words_append_of_isCapitalized he] at hwords
      exact absurd (List.singleton_inj.1 (List.append_inj' hwords rfl).2) hne

/-- One of the endings comes off a name exactly if the last word is among them. -/
theorem beforeEnding?_of_words {endings : List String}
    (hendings : ∀ e ∈ endings, isCapitalized e.toList = true) :
    beforeEnding? endings s =
      if String.ofList last ∈ endings then some front.flatten else none := by
  induction endings with
  | nil => rfl
  | cons e endings ih =>
    obtain ⟨he, hrest⟩ := List.forall_mem_cons.1 hendings
    have htail := ih hrest
    rw [beforeEnding?] at htail ⊢
    rw [List.findSome?_cons, stripEnding?_of_words hs hwords he, htail]
    by_cases heq : e.toList = last
    · have hword : String.ofList last = e := by rw [← heq, String.ofList_toList]
      rw [if_pos heq, hword, if_pos List.mem_cons_self]
    · have hne : String.ofList last ≠ e := by
        rintro rfl
        exact heq String.toList_ofList
      rw [if_neg heq]
      simp [hne]

/-! ## The rule and the base names -/

/-- The base names that a rule gives a name, from its words in front of the last. -/
def baseNamesByRule (rule : EndingRule) (s : List Char) (front : List (List Char))
    (last : List Char) : List (List Char) :=
  match rule with
  | .kept | .none => [camelCaseChars s]
  | .mandatory => if front = [] then [camelCaseChars s] else [camelCaseChars front.flatten]
  | .optional =>
    if front = [] then [camelCaseChars s]
    else [camelCaseChars front.flatten ++ last, camelCaseChars front.flatten]

/-- A capitalized word at the end stays as it is in camel case, behind what stands in front. -/
theorem camelCaseChars_eq_append_last (hlast : isCapitalized last = true) (hne : front ≠ []) :
    camelCaseChars s = camelCaseChars front.flatten ++ last := by
  have hfront := words_flatten_front hs hwords hlast
  have hcamel : camelCaseChars (front.flatten ++ last) = camelCaseChars front.flatten ++ last :=
    camelCaseChars_append_of_isCapitalized (hfront.symm ▸ hne) hlast
  rwa [← eq_flatten_append_of_words hs hwords] at hcamel

/-- The last word decides on the rule, and with the words in front of it on the base names. -/
theorem endingBaseNames_of_words :
    endingBaseNames s = (baseNamesByRule (ruleOfWord (String.ofList last)) s front last,
      ruleOfWord (String.ofList last)) := by
  obtain ⟨hothers, hoptional⟩ := List.forall_mem_append.1 isCapitalized_of_mem_endings
  obtain ⟨hkept, hmandatory⟩ := List.forall_mem_append.1 hothers
  have bkept := beforeEnding?_of_words hs hwords hkept
  have bmandatory := beforeEnding?_of_words hs hwords hmandatory
  have boptional := beforeEnding?_of_words hs hwords hoptional
  have hempty := flatten_front_eq_nil hwords
  unfold ruleOfWord
  split_ifs with hk hm ho
  · rw [if_pos hk] at bkept
    exact endingBaseNames_of_kept bkept
  · rw [if_neg hk] at bkept
    rw [if_pos hm] at bmandatory
    rw [endingBaseNames_of_mandatory bkept bmandatory, baseNamesByRule]
    simp only [hempty]
  · rw [if_neg hk] at bkept
    rw [if_neg hm] at bmandatory
    rw [if_pos ho] at boptional
    rw [endingBaseNames_of_optional bkept bmandatory boptional, baseNamesByRule]
    by_cases hfront : front = []
    · rw [if_pos (.inl (hempty.2 hfront)), if_pos hfront]
    · have hlast := hoptional _ ho
      rw [String.toList_ofList] at hlast
      have hne : last ≠ [] :=
        ne_nil_of_mem_words (hwords ▸ List.mem_append_right _ List.mem_cons_self)
      rw [camelCaseChars_eq_append_last hs hwords hlast hfront, if_neg hfront, if_neg]
      simp [hempty, hfront, hne]
  · rw [if_neg hk] at bkept
    rw [if_neg hm] at bmandatory
    rw [if_neg ho] at boptional
    exact endingBaseNames_of_none bkept bmandatory boptional

end Words

/-! ## Short names of letters and digits -/

/-- A name of letters and digits has a last word. -/
theorem exists_last_word {s : List Char} (hne : s ≠ []) (hs : ∀ c ∈ s, c.isAlphanum = true) :
    ∃ front last, words s = front ++ [last] := by
  have hwords : words s ≠ [] := by
    intro h
    have hflatten := flatten_words hs
    rw [h] at hflatten
    exact hne hflatten.symm
  exact ⟨_, _, (List.dropLast_concat_getLast hwords).symm⟩

/-- A short name of letters and digits falls under the rule of its last word: the rule is in
force exactly if that word is one of its endings, and what is dropped is the whole word. -/
theorem ending_rule_by_last_word {name : String} (hne : shortName name ≠ "")
    (halnum : ∀ c ∈ (shortName name).toList, c.isAlphanum = true) :
    let s := String.ofList (dropHead (shortName name).toList)
    ∃ front last, wordsOf s = front ++ [last] ∧ (front = [] ↔ last = s) ∧
      (endingRuleOf name = .kept ↔ last ∈ keptEndings) ∧
      (endingRuleOf name = .mandatory ↔ last ∈ mandatoryEndings) ∧
      (endingRuleOf name = .optional ↔ last ∈ optionalEndings) ∧
      (endingRuleOf name = .none ↔ last ∉ keptEndings ++ mandatoryEndings ++ optionalEndings) ∧
      baseNamesOf name = match endingRuleOf name with
        | .kept | .none => [camelCase s]
        | .mandatory => if front = [] then [camelCase s] else [camelCase (String.join front)]
        | .optional =>
          if front = [] then [camelCase s]
          else [camelCase (String.join front) ++ last, camelCase (String.join front)] := by
  intro s
  obtain ⟨head, happ, hnil⟩ := exists_head_of_dropHead (shortName name).toList
  have hs : ∀ c ∈ dropHead (shortName name).toList, c.isAlphanum = true :=
    fun c hc => halnum c (happ ▸ List.mem_append_right _ hc)
  have hsne : dropHead (shortName name).toList ≠ [] :=
    fun h => hne (String.toList_eq_nil_iff.1 (hnil h))
  obtain ⟨front, last, hwords⟩ := exists_last_word hsne hs
  have hends := endingBaseNames_of_words hs hwords
  have hbase : baseNameChars name.toList = endingBaseNames (dropHead (shortName name).toList) := by
    rw [baseNameChars, shortName, String.toList_ofList]
  have hrule : endingRuleOf name = ruleOfWord (String.ofList last) := by
    rw [endingRuleOf, hbase, hends]
  obtain ⟨hkept, hmandatory, hoptional, hnone⟩ := ruleOfWord_spec (String.ofList last)
  refine ⟨front.map String.ofList, String.ofList last, ?_, ?_, ?_⟩
  · rw [wordsOf, String.toList_ofList, hwords, List.map_append]
    rfl
  · rw [List.map_eq_nil_iff, String.ofList_inj]
    exact front_eq_nil_iff hs hwords
  · rw [hrule]
    refine ⟨hkept, hmandatory, hoptional, hnone, ?_⟩
    rw [baseNamesOf, hbase, hends, join_map_ofList]
    simp only [List.map_eq_nil_iff, camelCase, String.toList_ofList, s]
    cases ruleOfWord (String.ofList last) with
    | kept => rfl
    | none => rfl
    | mandatory =>
      show List.map _ (if _ then _ else _) = _
      split <;> rfl
    | optional =>
      show List.map _ (if _ then _ else _) = _
      split
      · rfl
      · rw [← String.ofList_append]
        rfl

/-- An acronym and a digit in front of the ending keep their words. -/
theorem ending_rule_by_last_word_node :
    shortName "App\\AbstractXMLNode2DDto" ≠ "" ∧
      (∀ c ∈ (shortName "App\\AbstractXMLNode2DDto").toList, c.isAlphanum = true) ∧
      endingRuleOf "App\\AbstractXMLNode2DDto" = .optional ∧
      baseNamesOf "App\\AbstractXMLNode2DDto" =
        [camelCase "XMLNode2D" ++ "Dto", camelCase "XMLNode2D"] := by
  have hne : shortName "App\\AbstractXMLNode2DDto" ≠ "" := by decide +kernel
  have hall : (shortName "App\\AbstractXMLNode2DDto").toList.all Char.isAlphanum = true := by
    decide +kernel
  have halnum := List.all_eq_true.1 hall
  obtain ⟨front, last, hwords, -, -, -, hoptional, -, hnames⟩ :=
    ending_rule_by_last_word hne halnum
  have hsplit : ["XML", "Node", "2", "D"] ++ ["Dto"] = front ++ [last] := by
    rw [← hwords]
    decide +kernel
  obtain ⟨rfl, hlast⟩ := List.append_inj' hsplit rfl
  obtain rfl := List.singleton_inj.1 hlast
  have hrule := hoptional.2 (by decide)
  rw [hrule] at hnames
  exact ⟨hne, halnum, hrule, hnames⟩

end Eponym
