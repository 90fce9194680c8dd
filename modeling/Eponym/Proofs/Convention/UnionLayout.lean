/-
# The layout of a union does not matter

Members of a descriptor, candidates and base names of interfaces are listed as they are met,
and iteration over a union yields another union, or its only member.  All this depends on how
a union is laid out.  What the conventions report does not: whether a name is accepted depends
on which candidates there are, and messages list names in alphabetical order.  Only the
interface that a bare name is ascribed to is the first that has the name.

* `sorted_congr` : names in order depend on which names there are;
* `SameMembers` : two descriptors with the same named members, in any order;
* `SameMembers.sorted_suggest`, `SameMembers.describe` : what messages quote;
* `union_layout_irrelevant` : what is reported for two layouts of a union.
-/
import Eponym.Proofs.Candidates.Union
import Eponym.Proofs.Convention.BareName
import Eponym.Proofs.Convention.CollectionName

namespace Eponym

/-! ## Names in order -/

/-- Names without repetitions that are put in order depend on which names there are. -/
theorem sorted_congr {names others : List String} (hnames : names.Nodup)
    (hothers : others.Nodup) (h : ∀ n, n ∈ names ↔ n ∈ others) : sorted names = sorted others := by
  have hordered : ∀ ns : List String, (sorted ns).Pairwise fun a b => (!decide (b < a)) = true := by
    refine List.pairwise_mergeSort (fun a b c hab hbc => ?_) fun a b => ?_
    · simp only [Bool.not_eq_true', decide_eq_false_iff_not, String.not_lt] at hab hbc ⊢
      exact String.le_trans hab hbc
    · simp only [Bool.or_eq_true, Bool.not_eq_true', decide_eq_false_iff_not, String.not_lt]
      exact String.le_total a b
  have hperm : (sorted names).Perm (sorted others) :=
    (List.mergeSort_perm ..).trans
      (((List.perm_ext_iff_of_nodup hnames hothers).2 h).trans (List.mergeSort_perm ..).symm)
  refine hperm.eq_of_pairwise (fun a b _ _ hab hba => ?_) (hordered names) (hordered others)
  simp only [Bool.not_eq_true', decide_eq_false_iff_not, String.not_lt] at hab hba
  exact String.le_antisymm hab hba

/-! ## Named members -/

/-- Descriptors with named members are described by the short names of these. -/
theorem Descriptor.describe_eq {d : Descriptor} (hne : d.namedMembers ≠ []) : d.describe =
    "|".intercalate (sorted ((d.namedMembers.map fun t => t.name.short).eraseDups)) := by
  obtain ⟨t, ht⟩ := List.exists_mem_of_ne_nil _ hne
  have hshort : t.name.short ∈ (d.namedMembers.map fun t => t.name.short).eraseDups :=
    List.mem_eraseDups.2 (List.mem_map_of_mem ht)
  rw [Descriptor.describe]
  split
  · next hno => exact absurd (hno ▸ hshort) List.not_mem_nil
  · rfl

theorem Suggester.namedMembers_ne_nil {r : Suggester} {d : Descriptor} (h : r.suggest d ≠ []) :
    d.namedMembers ≠ [] :=
  fun hno => h (suggest_of_no_member hno)

/-! ## Members in any order -/

/-- The descriptors have the same named members, in any order. -/
def SameMembers (d e : Descriptor) : Prop := ∀ t, t ∈ d.namedMembers ↔ t ∈ e.namedMembers

/-- Descriptors that differ in layout only have the same named members, if flags agree. -/
theorem SameMembers.of_alternatives {d e : Descriptor} (h : d.SameAlternatives e)
    (hflags : d.FlagsAgree) : SameMembers d e := by
  intro t
  rw [hflags.mem_namedMembers, (hflags.congr h).mem_namedMembers]
  exact h.mem_iff (fun ds => by rw [Descriptor.leaves, Descriptor.leavesList_eq]) t

namespace SameMembers

variable {r : Suggester} {d e : Descriptor}

theorem mem_constraining_iff (h : SameMembers d e) (t : NamedType) :
    t ∈ r.constraining d ↔ t ∈ r.constraining e := by
  rw [Suggester.constraining, Suggester.constraining, List.mem_filter, List.mem_filter, h t]

theorem sorted_suggest (h : SameMembers d e) : sorted (r.suggest d) = sorted (r.suggest e) := by
  refine sorted_congr (nodup_eraseDups _) (nodup_eraseDups _) fun b => ?_
  rw [Suggester.mem_suggest, Suggester.mem_suggest]
  exact exists_congr fun t => and_congr_left fun _ => h.mem_constraining_iff t

theorem suggest_eq_nil_iff (h : SameMembers d e) : r.suggest d = [] ↔ r.suggest e = [] := by
  rw [← sorted_eq_nil, h.sorted_suggest, sorted_eq_nil]

theorem mem_interfaceBaseNames_iff (h : SameMembers d e) (b : String) :
    b ∈ (r.interfaceBaseNames d).map Prod.fst ↔ b ∈ (r.interfaceBaseNames e).map Prod.fst := by
  rw [Suggester.interfaceBaseNames, Suggester.interfaceBaseNames, mem_map_distinctBy,
    mem_map_distinctBy]
  simp only [List.mem_map, List.mem_flatMap, h.mem_constraining_iff]

/-- Messages describe both in the same way, if there is a named member. -/
theorem describe (h : SameMembers d e) (hne : d.namedMembers ≠ []) : d.describe = e.describe := by
  have hne' : e.namedMembers ≠ [] := by
    obtain ⟨t, ht⟩ := List.exists_mem_of_ne_nil _ hne
    exact List.ne_nil_of_mem ((h t).1 ht)
  rw [Descriptor.describe_eq hne, Descriptor.describe_eq hne']
  refine congrArg _ (sorted_congr (nodup_eraseDups _) (nodup_eraseDups _) fun n => ?_)
  simp only [List.mem_eraseDups, List.mem_map]
  exact exists_congr fun t => and_congr_left fun _ => h t

end SameMembers

/-! ## What is found -/

namespace TypedName

variable {r : Suggester} {bareCheck : Bool} {name : String} {d e : Descriptor}
  {line : Option UInt64}

/-- Of a type only its description is quoted. -/
theorem mismatches_congr (bases : List String) (h : d.describe = e.describe) :
    mismatches name d bases line = mismatches name e bases line := by
  rw [mismatches, mismatches, mismatchMessage, mismatchMessage, h]

/-- Mismatches do not depend on the order of members. -/
theorem found_false_congr (h : SameMembers d e) :
    found r false name d line = found r false name e line := by
  rw [found_false, found_false]
  by_cases hno : r.suggest d = []
  · rw [if_pos hno, if_pos (h.suggest_eq_nil_iff.1 hno)]
  · have hdescribe : d.describe = e.describe := h.describe (Suggester.namedMembers_ne_nil hno)
    rw [if_neg hno, if_neg fun hno' => hno (h.suggest_eq_nil_iff.2 hno'), h.sorted_suggest,
      mismatches_congr _ hdescribe]

/-- That a name is bare depends on which base names interfaces have. -/
theorem map_problem_bareNames (interfaces : List (String × String)) :
    (bareNames name interfaces line).map Violation.problem =
      if name ∈ interfaces.map Prod.fst then [.interfaceBareName] else [] := by
  by_cases h : name ∈ interfaces.map Prod.fst
  · rw [if_pos h]
    rw [bareNames]
    split
    · rfl
    · next hno =>
      have hnil : bareNames name interfaces line = [] := by rw [bareNames, hno]
      exact absurd h (bareNames_eq_nil.1 hnil)
  · rw [if_neg h, bareNames_eq_nil.2 h, List.map_nil]

/-- The problems that are found do not depend on the order of members. -/
theorem map_problem_found_congr (h : SameMembers d e) :
    (found r bareCheck name d line).map Violation.problem =
      (found r bareCheck name e line).map Violation.problem := by
  have hbare : (bareNames name (r.interfaceBaseNames d) line).map Violation.problem =
      (bareNames name (r.interfaceBaseNames e) line).map Violation.problem := by
    rw [map_problem_bareNames, map_problem_bareNames]
    simp only [h.mem_interfaceBaseNames_iff]
  have hlooked : r.suggest d ≠ [] ∧ bareCheck = true ↔ r.suggest e ≠ [] ∧ bareCheck = true :=
    and_congr_left fun _ => not_congr h.suggest_eq_nil_iff
  rw [found_eq_append, found_eq_append (d := e), found_false_congr h, List.map_append,
    List.map_append, foundBare, foundBare]
  congr 1
  by_cases hlook : r.suggest e ≠ [] ∧ bareCheck = true
  · rw [if_pos hlook, if_pos (hlooked.2 hlook), hbare]
  · rw [if_neg hlook, if_neg (mt hlooked.1 hlook)]

end TypedName

namespace CollectionName

variable {r : Suggester} {name : String} {d e v w : Descriptor} {line : Option UInt64}

/-- Of an iterable only the description of what it yields is quoted. -/
theorem violations_congr (bases : List String) (h : d.describeValue = e.describeValue) :
    violations name d bases line = violations name e bases line := by
  unfold violations pluralMessage
  rw [h]

/-- Violations do not depend on the order of the members of what iteration yields. -/
theorem found_congr (hv : d.valueType? = some v) (hw : e.valueType? = some w)
    (h : SameMembers v w) : found r name d line = found r name e line := by
  rw [found_of_iterable hv, found_of_iterable hw]
  by_cases hno : r.suggest v = []
  · rw [if_pos hno, if_pos (h.suggest_eq_nil_iff.1 hno)]
  · have hdescribe : d.describeValue = e.describeValue := by
      rw [Descriptor.describeValue, Descriptor.describeValue, hv, hw]
      exact h.describe (Suggester.namedMembers_ne_nil hno)
    rw [if_neg hno, if_neg fun hno' => hno (h.suggest_eq_nil_iff.2 hno'), h.sorted_suggest,
      violations_congr _ hdescribe]

end CollectionName

/-! ## Layouts of a union -/

/-- The layout of a union does not matter.  Let two descriptors be unions of the same types,
which are no unions themselves, in any order, grouping or repetition and with no empty union
in between, and let no name belong to the runtime at one place and not at another.  Whatever
was asked before, the same problems are reported of a name that holds either, with the same
texts where it does not end in its type; and the same violations are reported of a name for
either as an iterable. -/
theorem union_layout_irrelevant (r : Suggester) {d e : Descriptor} (h : d.SameAlternatives e)
    (hd : d.NoEmptyUnion) (he : e.NoEmptyUnion) (hflags : d.FlagsAgree) (names : List TypeName)
    (qs : List Question) (bareCheck : Bool) (name : String) (line : Option UInt64) :
    let s := Session.after r names qs
    let checked (c : Descriptor) : List Violation :=
      ((TypedName.check (Session.source r) bareCheck name c line).run s).1
    let mismatches (c : Descriptor) : List Violation :=
      (checked c).filter fun v => v.problem = .typeSuffixMismatch
    let checkedIterable (c : Descriptor) : List Violation :=
      ((CollectionName.check (Session.source r) name c line).run s).1
    (checked d).map Violation.problem = (checked e).map Violation.problem ∧
      mismatches d = mismatches e ∧ checkedIterable d = checkedIterable e := by
  intro s checked mismatches checkedIterable
  have hchecked : ∀ c, checked c = TypedName.found r bareCheck name c line := fun c =>
    (TypedName.answers_check bareCheck name c line).run_after names qs
  have hiterable : ∀ c, checkedIterable c = CollectionName.found r name c line := fun c =>
    (CollectionName.answers_check name c line).run_after names qs
  have hmembers : SameMembers d e := .of_alternatives h hflags
  refine ⟨?_, ?_, ?_⟩
  · rw [hchecked, hchecked]
    exact TypedName.map_problem_found_congr hmembers
  · show (checked d).filter _ = (checked e).filter _
    rw [hchecked, hchecked, TypedName.filter_mismatches_found,
      TypedName.filter_mismatches_found]
    exact TypedName.found_false_congr hmembers
  · rw [hiterable, hiterable]
    cases hv : d.valueType? with
    | none =>
      have hw : e.valueType? = none := (h.valueType?_eq_none_iff hd he).1 hv
      rw [CollectionName.found_of_not_iterable hv, CollectionName.found_of_not_iterable hw]
    | some v =>
      have hw : e.valueType? ≠ none := fun hw =>
        nomatch hv.symm.trans ((h.valueType?_eq_none_iff hd he).2 hw)
      obtain ⟨w, hw⟩ := Option.ne_none_iff_exists'.1 hw
      exact CollectionName.found_congr hv hw
        (.of_alternatives (h.value hv hw) (hflags.value hv))

/-- Two collections, each an object and iterable, in two layouts of their union. -/
theorem union_layout_irrelevant_pages :
    let r : Suggester := ⟨.nothing, .ofEntries [] ["entry"]⟩
    let pages : Descriptor := .intersection [.ofName "App\\Pages", .iterable (.ofName "App\\Page")]
    let rows : Descriptor := .intersection [.ofName "App\\Rows", .iterable (.ofName "App\\Row")]
    let d : Descriptor := .union [pages, .union [rows, pages]]
    let e : Descriptor := .union [rows, pages]
    let s := Session.after r [] [.suggest d]
    let checked (c : Descriptor) : List Violation :=
      ((TypedName.check (Session.source r) true "map" c none).run s).1
    let checkedIterable (c : Descriptor) : List Violation :=
      ((CollectionName.check (Session.source r) "map" c none).run s).1
    (d.SameAlternatives e ∧ d.NoEmptyUnion ∧ e.NoEmptyUnion ∧ d.FlagsAgree) ∧
      (checked d).map Violation.problem = (checked e).map Violation.problem ∧
      (checked d).filter (fun v => v.problem = .typeSuffixMismatch) =
        (checked e).filter (fun v => v.problem = .typeSuffixMismatch) ∧
      checkedIterable d = checkedIterable e := by
  intro r pages rows d e s checked checkedIterable
  have h : d.SameAlternatives e := by
    intro a
    show a ∈ [pages, rows, pages] ↔ a ∈ [rows, pages]
    simp only [List.mem_cons, List.not_mem_nil, or_false]
    rw [or_left_comm, or_self]
  have hd : d.NoEmptyUnion := ⟨nofun, trivial, ⟨nofun, trivial, trivial, trivial⟩, trivial⟩
  have he : e.NoEmptyUnion := ⟨nofun, trivial, trivial, trivial⟩
  have hflags : d.FlagsAgree := by
    unfold Descriptor.FlagsAgree
    decide +kernel
  exact ⟨⟨h, hd, he, hflags⟩,
    union_layout_irrelevant r h hd he hflags [] [.suggest d] true "map" none⟩

end Eponym
