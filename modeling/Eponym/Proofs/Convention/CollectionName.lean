/-
# Advice on the names of iterables

For an iterable the plural of a base name is recommended, or the base name with a collection
suffix, each with or without context in front.  A name with a `Map` segment is reported all
the same.  The advice can be followed exactly if some base name has no such segment, except
perhaps the last: that one is no longer `map` in the plural.

* `hasMapSegment_plural` : the plural of such a base name has no `Map` segment;
* `Recommended.hasMapSegment` : of any other base name, all recommended names have one;
* `advice_satisfiable_iff` : when a recommended name is accepted.
-/
import Eponym.Convention.CollectionName
import Eponym.Proofs.Candidates.Memoization
import Eponym.Proofs.Identifier.Segment

namespace Eponym.CollectionName

/-- Some segment of a base name but the last reads `map`, in any letter case. -/
def HasInnerMap (base : String) : Prop :=
  ∃ s ∈ (segmentChars base.toList).dropLast, s.map Char.toLower = "map".toList

instance (base : String) : Decidable (HasInnerMap base) :=
  inferInstanceAs (Decidable (∃ s ∈ (segmentChars base.toList).dropLast, _))

/-- The names that are recommended for an iterable whose elements have the base name. -/
inductive Recommended (base : String) : String → Prop
  | bare {name : String} (h : name ∈ collectionNames base) : Recommended base name
  | inContext {name : String} (context : String) (h : name ∈ collectionNames base) :
    Recommended base (context ++ capitalize name)

/-! ## Segments of recommended names -/

section Segments

variable {base name : String}

/-- The plural of a base name has no `Map` segment, if the base name has none but perhaps the
last: the last segment of a plural ends in an `s`. -/
theorem hasMapSegment_plural (h : ¬ HasInnerMap base) : hasMapSegment (plural base) = false := by
  refine Bool.eq_false_iff.2 fun hmap => ?_
  obtain ⟨s, hs, hread⟩ := hasMapSegment_iff.1 hmap
  rw [plural, String.toList_ofList] at hs
  by_cases hnil : base.toList = []
  · rw [hnil] at hs
    obtain rfl : s = [] := List.mem_singleton.1 hs
    exact nomatch hread
  · obtain ⟨w, hw⟩ := segmentChars_pluralChars hnil
    rw [hw, List.mem_append, List.mem_singleton] at hs
    rcases hs with hs | rfl
    · exact h ⟨s, hs, hread⟩
    · have hlast := congrArg List.getLast? hread
      rw [List.map_append, List.map_singleton, List.getLast?_concat] at hlast
      exact absurd hlast (by decide)

/-- What begins with a base name that has a `Map` segment inside has one. -/
theorem HasInnerMap.hasMapSegment_append (h : HasInnerMap base) (ending : String) :
    hasMapSegment (base ++ ending) = true := by
  obtain ⟨s, hs, hread⟩ := h
  refine hasMapSegment_iff.2 ⟨s, ?_, hread⟩
  rw [String.toList_append]
  exact dropLast_segmentChars_subset _ _ hs

/-- The plural of a base name that has a `Map` segment inside has one. -/
theorem HasInnerMap.hasMapSegment_plural (h : HasInnerMap base) :
    hasMapSegment (plural base) = true := by
  obtain ⟨s, hs, hread⟩ := h
  have hnil : base.toList ≠ [] := by
    intro hnil
    rw [hnil] at hs
    exact nomatch hs
  obtain ⟨w, hw⟩ := segmentChars_pluralChars hnil
  refine hasMapSegment_iff.2 ⟨s, ?_, hread⟩
  rw [plural, String.toList_ofList, hw]
  exact List.mem_append_left _ hs

/-- The small letter `m` belongs to two characters. -/
theorem eq_of_toLower_eq_m {c : Char} (h : c.toLower = 'm') : c = 'm' ∨ c = 'M' := by
  unfold Char.toLower at h
  split at h
  · have hval : c.val + 32 = 109 := congrArg Char.val h
    have hc : c.val = 77 := by grind
    exact .inr (Char.ext hc)
  · exact .inl h

/-- A `Map` segment stays one behind a context, where the name starts with a capital.  It is
not the first segment then. -/
theorem exists_mem_tail_capitalizeChars {b s : List Char} (hs : s ∈ segmentChars b)
    (hread : s.map Char.toLower = "map".toList) :
    ∃ t ∈ (segmentChars (capitalizeChars b)).tail, t.map Char.toLower = "map".toList := by
  cases b with
  | nil =>
    obtain rfl : s = [] := List.mem_singleton.1 hs
    exact nomatch hread
  | cons c b =>
    obtain ⟨g, gs, hb⟩ := exists_first_segment b
    have hcap : segmentChars (capitalizeChars (c :: b)) =
        (if c.toUpper.isUpper then [[]] else []) ++ (c.toUpper :: g) :: gs :=
      segmentChars_cons hb
    rw [segmentChars_cons hb, List.mem_append, List.mem_cons] at hs
    rcases hs with hs | rfl | hs
    · -- in front of a capital there is an empty segment
      have : s = [] := by split at hs <;> simp_all
      rw [this] at hread
      exact nomatch hread
    · -- the segment of the first character, which is an `m`
      obtain ⟨hm, hg⟩ := List.cons_eq_cons.1 hread
      refine ⟨'M' :: g, ?_, List.cons_eq_cons.2 ⟨rfl, hg⟩⟩
      rw [hcap]
      rcases eq_of_toLower_eq_m hm with rfl | rfl
      · exact List.mem_cons_self
      · exact List.mem_cons_self
    · refine ⟨s, ?_, hread⟩
      rw [hcap]
      split
      · exact List.mem_cons_of_mem _ hs
      · exact hs

/-- A context in front removes no `Map` segment. -/
theorem hasMapSegment_inContext (h : hasMapSegment name = true) (context : String) :
    hasMapSegment (context ++ capitalize name) = true := by
  obtain ⟨s, hs, hread⟩ := hasMapSegment_iff.1 h
  obtain ⟨t, ht, hread⟩ := exists_mem_tail_capitalizeChars hs hread
  refine hasMapSegment_iff.2 ⟨t, ?_, hread⟩
  rw [String.toList_append, toList_capitalize]
  exact tail_segmentChars_subset _ _ ht

/-- All names that are recommended for a base name have a `Map` segment, if it has one inside. -/
theorem Recommended.hasMapSegment (hr : Recommended base name) (h : HasInnerMap base) :
    hasMapSegment name = true := by
  have hbare : ∀ n ∈ collectionNames base, CollectionName.hasMapSegment n = true := by
    intro n hn
    rcases List.mem_cons.1 hn with rfl | hn
    · exact h.hasMapSegment_plural
    · obtain ⟨ending, -, rfl⟩ := List.mem_map.1 hn
      exact h.hasMapSegment_append ending
  cases hr with
  | bare hn => exact hbare _ hn
  | inContext context hn => exact hasMapSegment_inContext (hbare _ hn) context

end Segments

/-! ## What is found -/

/-- The violations of the name of an iterable, worked out afresh. -/
def found (r : Suggester) (name : String) (d : Descriptor) (line : Option UInt64) :
    List Violation :=
  (check r.source name d line).run

section Afresh

variable {r : Suggester} {base name : String} {d v : Descriptor} {line : Option UInt64}

/-- A session finds the violations of a name that are found afresh. -/
theorem answers_check (name : String) (d : Descriptor) (line : Option UInt64) :
    Session.Answers r (check (Session.source r) name d line) (found r name d line) := by
  cases hv : d.valueType? with
  | none =>
    rw [found, check, check, hv]
    exact Session.answers_pure _
  | some v =>
    rw [found, check, check, hv]
    exact (Session.answers_suggest v).map fun bases =>
      if (sorted bases).isEmpty then [] else violations name d (sorted bases) line

/-- Nothing is found if the name has no `Map` segment and conforms to a recommended name. -/
theorem violations_eq_nil {bases : List String} :
    violations name d bases line = [] ↔
      hasMapSegment name = false ∧ namesCollection name bases = true := by
  rw [violations, List.append_eq_nil_iff]
  refine and_congr ?_ ?_
  · split <;> simp_all
  · split <;> simp_all

theorem found_of_not_iterable (hv : d.valueType? = none) : found r name d line = [] := by
  rw [found, check, hv]
  rfl

/-- What is found of an iterable.  Without base names it is nothing. -/
theorem found_of_iterable (hv : d.valueType? = some v) :
    found r name d line =
      if r.suggest v = [] then [] else violations name d (sorted (r.suggest v)) line := by
  rw [found, check, hv]
  show (if (sorted (r.suggest v)).isEmpty then [] else _) = _
  simp only [List.isEmpty_iff, sorted_eq_nil]
  rfl

theorem found_of_mem_suggest (hv : d.valueType? = some v) (hbase : base ∈ r.suggest v) :
    found r name d line = violations name d (sorted (r.suggest v)) line := by
  rw [found_of_iterable hv, if_neg (List.ne_nil_of_mem hbase)]

/-- The plural of a suggested base name is accepted, if that has no `Map` segment inside. -/
theorem found_plural (hv : d.valueType? = some v) (hbase : base ∈ r.suggest v)
    (h : ¬ HasInnerMap base) : found r (plural base) d line = [] := by
  rw [found_of_mem_suggest hv hbase, violations_eq_nil]
  refine ⟨hasMapSegment_plural h, List.any_eq_true.2 ⟨base, mem_sorted.2 hbase, ?_⟩⟩
  exact conformsToAny_iff.2 ⟨plural base, List.mem_cons_self, conforms_self _⟩

theorem found_recommended_ne_nil (hv : d.valueType? = some v) (hbase : base ∈ r.suggest v)
    (h : HasInnerMap base) (hr : Recommended base name) : found r name d line ≠ [] := by
  rw [found_of_mem_suggest hv hbase, ne_eq, violations_eq_nil, hr.hasMapSegment h]
  exact fun hno => nomatch hno.1

end Afresh

/-! ## Advice that can be followed -/

/-- Whatever was asked before, some recommended name is accepted for an iterable exactly if its
elements suggest a base name that has no `Map` segment, except perhaps the last. -/
theorem advice_satisfiable_iff {d v : Descriptor} (hv : d.valueType? = some v) (r : Suggester)
    (names : List TypeName) (qs : List Question) (line : Option UInt64) :
    (∃ base ∈ r.suggest v, ∃ name, Recommended base name ∧
      ((check (Session.source r) name d line).run (Session.after r names qs)).1 = []) ↔
    ∃ base ∈ r.suggest v, ¬ HasInnerMap base := by
  have hfound : ∀ name, ((check (Session.source r) name d line).run
      (Session.after r names qs)).1 = found r name d line := fun name =>
    (answers_check name d line).run_after names qs
  constructor
  · rintro ⟨base, hbase, name, hr, hno⟩
    rw [hfound] at hno
    exact ⟨base, hbase, fun h => found_recommended_ne_nil hv hbase h hr hno⟩
  · rintro ⟨base, hbase, h⟩
    refine ⟨base, hbase, plural base, .bare List.mem_cons_self, ?_⟩
    rw [hfound]
    exact found_plural hv hbase h

/-- A list of what is itself called a map: its plural has no segment `map`. -/
theorem advice_satisfiable_iff_site_maps :
    let r : Suggester := ⟨.nothing, .ofEntries [] []⟩
    let d : Descriptor := .iterable (.ofName "App\\SiteMap")
    d.valueType? = some (.ofName "App\\SiteMap") ∧
      ∃ base ∈ r.suggest (.ofName "App\\SiteMap"), ∃ name, Recommended base name ∧
        ((check (Session.source r) name d none).run (Session.after r [] [])).1 = [] := by
  intro r d
  have hv : d.valueType? = some (.ofName "App\\SiteMap") := by decide +kernel
  refine ⟨hv, (advice_satisfiable_iff hv r [] [] none).2 ⟨"siteMap", ?_, ?_⟩⟩
  · decide +kernel
  · decide +kernel

/-- Of the nodes of a map the only base name begins with `map`, so that each name that is
recommended for a list of them is reported. -/
theorem no_advice_for_map_nodes :
    let r : Suggester := ⟨.nothing, .ofEntries [] []⟩
    let d : Descriptor := .iterable (.ofName "App\\MapNode")
    d.valueType? = some (.ofName "App\\MapNode") ∧
      r.suggest (.ofName "App\\MapNode") = ["mapNode"] ∧
      ∀ base ∈ r.suggest (.ofName "App\\MapNode"), ∀ name, Recommended base name →
        ((check (Session.source r) name d none).run Session.new).1 ≠ [] := by
  intro r d
  have hv : d.valueType? = some (.ofName "App\\MapNode") := by decide +kernel
  have hsuggest : r.suggest (.ofName "App\\MapNode") = ["mapNode"] := by decide +kernel
  refine ⟨hv, hsuggest, fun base hbase name hr => ?_⟩
  have hinner : HasInnerMap base := by
    rw [hsuggest, List.mem_singleton] at hbase
    rw [hbase]
    decide +kernel
  rw [((answers_check name d none) Session.new (Session.remembers_new r)).1]
  exact found_recommended_ne_nil hv hbase hinner hr

end Eponym.CollectionName
