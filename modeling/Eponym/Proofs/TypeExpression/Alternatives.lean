/-
# Alternatives of a union

A union may be a member of a union.  What such a nest of unions offers in the end are its
alternatives, which are no unions themselves; how they are grouped, in which order they stand
and how often is a matter of layout.  The named leaves are those of the alternatives, and so
is what iteration yields, as long as no union is empty: an empty one offers nothing to
iterate over, and makes any union that it is a member of not iterable.

* `flatMap_alternatives` : what is collected from unions member by member;
* `valueType?_eq_none_iff` : a nest is iterable if each alternative is;
* `mem_alternatives_valueType?`, `eraseDups_valueType?` : what it yields then;
* `SameAlternatives` : two descriptors that differ in layout only;
* `FlagsAgree` : names that belong to the runtime everywhere, or nowhere.
-/
import Eponym.Proofs.FirstSeen
import Eponym.TypeExpression.Descriptor

namespace Eponym.Descriptor

/-! ## Alternatives -/

mutual

/-- The members of a union that are no unions, also those of its members; what is no union is
its own only alternative. -/
def alternatives : Descriptor → List Descriptor
  | union members => alternativesList members
  | named t => [named t]
  | intersection members => [intersection members]
  | iterable value => [iterable value]
  | keyed key value => [keyed key value]
  | null => [null]
  | scalar name => [scalar name]

/-- The alternatives of several descriptors, one after the other. -/
def alternativesList : List Descriptor → List Descriptor
  | [] => []
  | d :: ds => alternatives d ++ alternativesList ds

end

mutual

/-- No union is empty, apart from those inside alternatives. -/
def NoEmptyUnion : Descriptor → Prop
  | union members => members ≠ [] ∧ NoEmptyUnionList members
  | named _ | intersection _ | iterable _ | keyed _ _ | null | scalar _ => True

/-- No union is empty in any of several descriptors, apart from those inside alternatives. -/
def NoEmptyUnionList : List Descriptor → Prop
  | [] => True
  | d :: ds => NoEmptyUnion d ∧ NoEmptyUnionList ds

end

section Collected

variable {α : Type} {f : Descriptor → List α}

mutual

/-- What is collected from a union member by member is collected from its alternatives. -/
theorem flatMap_alternatives (hf : ∀ ds, f (union ds) = ds.flatMap f) :
    (d : Descriptor) → d.alternatives.flatMap f = f d
  | union members => by
    rw [alternatives, hf, flatMap_alternativesList hf members]
  | named _ | intersection _ | iterable _ | keyed _ _ | null | scalar _ => by
    rw [alternatives, List.flatMap_singleton]

/-- So is what is collected from several descriptors. -/
theorem flatMap_alternativesList (hf : ∀ ds, f (union ds) = ds.flatMap f) :
    (ds : List Descriptor) → (alternativesList ds).flatMap f = ds.flatMap f
  | [] => rfl
  | d :: ds => by
    rw [alternativesList, List.flatMap_append, List.flatMap_cons, flatMap_alternatives hf d,
      flatMap_alternativesList hf ds]

end

end Collected

theorem alternativesList_eq (ds : List Descriptor) :
    alternativesList ds = ds.flatMap alternatives := by
  induction ds with
  | nil => rfl
  | cons d ds ih => rw [alternativesList, ih, List.flatMap_cons]

/-! ## Iteration -/

theorem ofChoice_eq_none_iff {ds : List Descriptor} : ofChoice ds = none ↔ ds = [] := by
  match ds with
  | [] => simp [ofChoice]
  | [_] => simp [ofChoice]
  | _ :: _ :: _ => simp [ofChoice]

/-- A choice offers the alternatives of what may be chosen. -/
theorem alternatives_ofChoice {ds : List Descriptor} {v : Descriptor}
    (h : ofChoice ds = some v) : v.alternatives = ds.flatMap alternatives := by
  match ds with
  | [] => exact nomatch h
  | [d] =>
    obtain rfl := Option.some.inj h
    rw [List.flatMap_singleton]
  | d :: e :: ds =>
    obtain rfl := Option.some.inj h
    rw [alternatives, alternativesList_eq]

/-- Of an empty list of descriptors only nothing is collected. -/
theorem allValueTypes?_eq_some_nil_iff {ds : List Descriptor} :
    allValueTypes? ds = some [] ↔ ds = [] := by
  cases ds with
  | nil => simp [allValueTypes?]
  | cons d ds =>
    rw [allValueTypes?]
    cases valueType? d with
    | none => simp
    | some v => simp

mutual

/-- Where no union is empty, iteration fails if it fails for an alternative. -/
theorem valueType?_eq_none_iff : {d : Descriptor} → d.NoEmptyUnion →
    (d.valueType? = none ↔ ∃ a ∈ d.alternatives, a.valueType? = none)
  | union members, h => by
    rw [NoEmptyUnion] at h
    rw [valueType?, alternatives, ← allValueTypes?_eq_none_iff h.2]
    cases hvs : allValueTypes? members with
    | none => simp
    | some vs =>
      -- a value is there for each member, so that there is something to choose from
      have hne : vs.eraseDups ≠ [] := by
        intro hno
        have hvs' : vs = [] := by
          refine List.eq_nil_iff_forall_not_mem.2 fun v hv => ?_
          exact List.not_mem_nil (hno ▸ List.mem_eraseDups.2 hv)
        rw [hvs', allValueTypes?_eq_some_nil_iff] at hvs
        exact h.1 hvs
      rw [Option.bind_some, ofChoice_eq_none_iff]
      simp [hne]
  | named _, _ | intersection _, _ | iterable _, _ | keyed _ _, _ | null, _ | scalar _, _ => by
    simp only [alternatives, List.mem_singleton, exists_eq_left]

/-- Where no union is empty, it fails for several descriptors if it fails for an alternative of
one of them. -/
theorem allValueTypes?_eq_none_iff : {ds : List Descriptor} → NoEmptyUnionList ds →
    (allValueTypes? ds = none ↔ ∃ a ∈ alternativesList ds, a.valueType? = none)
  | [], _ => by simp [allValueTypes?, alternativesList]
  | d :: ds, h => by
    rw [NoEmptyUnionList] at h
    have hd := valueType?_eq_none_iff h.1
    have hds := allValueTypes?_eq_none_iff h.2
    simp only [alternativesList, List.mem_append, or_and_right, exists_or]
    rw [← hd, ← hds, allValueTypes?]
    cases valueType? d with
    | none => simp
    | some v => simp

end

mutual

/-- Iteration yields the alternatives of what it yields for the alternatives. -/
theorem mem_alternatives_valueType? {c : Descriptor} : {d v : Descriptor} →
    d.valueType? = some v →
      (c ∈ v.alternatives ↔ ∃ a ∈ d.alternatives, ∃ w ∈ a.valueType?, c ∈ w.alternatives)
  | union members, v, h => by
    rw [valueType?] at h
    obtain ⟨vs, hvs, hv⟩ := Option.bind_eq_some_iff.1 h
    rw [alternatives_ofChoice hv, alternatives, ← mem_alternatives_allValueTypes? hvs]
    simp only [List.mem_flatMap, List.mem_eraseDups]
  | named _, _, h | intersection _, _, h | iterable _, _, h | keyed _ _, _, h | null, _, h
  | scalar _, _, h => by
    simp [alternatives, h]

/-- For several descriptors that are all iterable, it yields the same. -/
theorem mem_alternatives_allValueTypes? {c : Descriptor} : {ds vs : List Descriptor} →
    allValueTypes? ds = some vs →
      ((∃ v ∈ vs, c ∈ v.alternatives) ↔
        ∃ a ∈ alternativesList ds, ∃ w ∈ a.valueType?, c ∈ w.alternatives)
  | [], vs, h => by
    obtain rfl := Option.some.inj h
    simp [alternativesList]
  | d :: ds, vs, h => by
    rw [allValueTypes?] at h
    cases hv : valueType? d with
    | none => simp [hv] at h
    | some v =>
      rw [hv] at h
      obtain ⟨ws, hws, rfl⟩ := Option.map_eq_some_iff.1 h
      simp only [alternativesList, List.mem_append, or_and_right, exists_or]
      rw [← mem_alternatives_valueType? hv, ← mem_alternatives_allValueTypes? hws]
      simp

end

mutual

/-- Whatever else a union offers, iteration fails as soon as it fails for an alternative. -/
theorem valueType?_eq_none_of_alternative {a : Descriptor} (ha : a.valueType? = none) :
    {d : Descriptor} → a ∈ d.alternatives → d.valueType? = none
  | union members, h => by
    rw [valueType?, allValueTypes?_eq_none_of_alternative ha h, Option.bind_none]
  | named _, h | intersection _, h | iterable _, h | keyed _ _, h | null, h | scalar _, h => by
    rwa [← List.mem_singleton.1 h]

/-- It fails for several descriptors if it fails for an alternative of one of them. -/
theorem allValueTypes?_eq_none_of_alternative {a : Descriptor} (ha : a.valueType? = none) :
    {ds : List Descriptor} → a ∈ alternativesList ds → allValueTypes? ds = none
  | d :: ds, h => by
    rw [allValueTypes?]
    rcases List.mem_append.1 h with h | h
    · rw [valueType?_eq_none_of_alternative ha h]
    · rw [allValueTypes?_eq_none_of_alternative ha h]
      cases valueType? d <;> rfl

end

section Collected

variable {α : Type} {f : Descriptor → List α}

theorem flatMap_ofChoice (hf : ∀ ds, f (union ds) = ds.flatMap f) {ds : List Descriptor}
    {v : Descriptor} (h : ofChoice ds = some v) : f v = ds.flatMap f := by
  rw [← flatMap_alternatives hf v, alternatives_ofChoice h, ← alternativesList_eq,
    flatMap_alternativesList hf]

variable [DecidableEq α]

mutual

/-- First occurrences are collected from what iteration yields as they are from what it yields
for one alternative after the other. -/
theorem eraseDups_valueType? (hf : ∀ ds, f (union ds) = ds.flatMap f) : {d v : Descriptor} →
    d.valueType? = some v →
      (f v).eraseDups = (d.alternatives.flatMap fun a => a.valueType?.toList.flatMap f).eraseDups
  | union members, v, h => by
    rw [valueType?] at h
    obtain ⟨vs, hvs, hv⟩ := Option.bind_eq_some_iff.1 h
    rw [flatMap_ofChoice hf hv, eraseDups_flatMap_eraseDups, eraseDups_allValueTypes? hf hvs]
    rfl
  | named _, _, h | intersection _, _, h | iterable _, _, h | keyed _ _, _, h | null, _, h
  | scalar _, _, h => by
    rw [alternatives, List.flatMap_singleton, h, Option.toList_some, List.flatMap_singleton]

/-- The same holds of several descriptors that are all iterable. -/
theorem eraseDups_allValueTypes? (hf : ∀ ds, f (union ds) = ds.flatMap f) :
    {ds vs : List Descriptor} → allValueTypes? ds = some vs →
      (vs.flatMap f).eraseDups =
        ((alternativesList ds).flatMap fun a => a.valueType?.toList.flatMap f).eraseDups
  | [], vs, h => by
    obtain rfl := Option.some.inj h
    rfl
  | d :: ds, vs, h => by
    rw [allValueTypes?] at h
    cases hv : valueType? d with
    | none => simp [hv] at h
    | some v =>
      rw [hv] at h
      obtain ⟨ws, hws, rfl⟩ := Option.map_eq_some_iff.1 h
      rw [alternativesList, List.flatMap_append, List.flatMap_cons,
        eraseDups_append_congr (eraseDups_valueType? hf hv), ← eraseDups_append_eraseDups,
        eraseDups_allValueTypes? hf hws, eraseDups_append_eraseDups]

end

end Collected

/-! ## Layout -/

/-- The descriptors offer the same alternatives, in any order and grouping, and each as often
as it may be. -/
def SameAlternatives (d e : Descriptor) : Prop := ∀ a, a ∈ d.alternatives ↔ a ∈ e.alternatives

namespace SameAlternatives

variable {d e v w : Descriptor}

/-- What is collected from unions member by member is the same. -/
theorem mem_iff {α : Type} {f : Descriptor → List α} (h : SameAlternatives d e)
    (hf : ∀ ds, f (union ds) = ds.flatMap f) (x : α) : x ∈ f d ↔ x ∈ f e := by
  rw [← flatMap_alternatives hf d, ← flatMap_alternatives hf e, List.mem_flatMap,
    List.mem_flatMap]
  exact exists_congr fun a => and_congr_left fun _ => h a

/-- Where no union is empty, both are iterable or none is. -/
theorem valueType?_eq_none_iff (h : SameAlternatives d e) (hd : d.NoEmptyUnion)
    (he : e.NoEmptyUnion) : d.valueType? = none ↔ e.valueType? = none := by
  rw [Descriptor.valueType?_eq_none_iff hd, Descriptor.valueType?_eq_none_iff he]
  exact exists_congr fun a => and_congr_left fun _ => h a

/-- What iteration yields differs in layout only. -/
theorem value (h : SameAlternatives d e) (hv : d.valueType? = some v)
    (hw : e.valueType? = some w) : SameAlternatives v w := by
  intro c
  rw [mem_alternatives_valueType? hv, mem_alternatives_valueType? hw]
  exact exists_congr fun a => and_congr_left fun _ => h a

end SameAlternatives

/-! ## Flags of named types -/

mutual

/-- The named types anywhere in a descriptor, also inside iterables. -/
def namedTypes : Descriptor → List NamedType
  | named t => [t]
  | union members | intersection members => namedTypesList members
  | iterable value => namedTypes value
  | keyed key value => namedTypes key ++ namedTypes value
  | null | scalar _ => []

/-- The named types anywhere in several descriptors. -/
def namedTypesList : List Descriptor → List NamedType
  | [] => []
  | d :: ds => namedTypes d ++ namedTypesList ds

end

/-- A name belongs to the runtime wherever it stands in the descriptor, or nowhere. -/
def FlagsAgree (d : Descriptor) : Prop :=
  ∀ s ∈ d.namedTypes, ∀ t ∈ d.namedTypes, s.name = t.name → s = t

theorem namedTypesList_eq (ds : List Descriptor) : namedTypesList ds = ds.flatMap namedTypes := by
  induction ds with
  | nil => rfl
  | cons d ds ih => rw [namedTypesList, ih, List.flatMap_cons]

mutual

theorem leaves_subset : (d : Descriptor) → d.leaves ⊆ d.namedTypes
  | named _ => List.Subset.refl _
  | union members | intersection members => leavesList_subset members
  | iterable _ | keyed _ _ | null | scalar _ => List.nil_subset _

/-- Leaves of several descriptors are named types of them. -/
theorem leavesList_subset : (ds : List Descriptor) → leavesList ds ⊆ namedTypesList ds
  | [] => List.nil_subset _
  | d :: ds => by
    rw [leavesList, namedTypesList]
    exact List.append_subset.2 ⟨List.subset_append_of_subset_left _ (leaves_subset d),
      List.subset_append_of_subset_right _ (leavesList_subset ds)⟩

end

/-- Named types of a choice are named types of what may be chosen. -/
theorem namedTypes_ofChoice {ds : List Descriptor} {v : Descriptor} (h : ofChoice ds = some v) :
    v.namedTypes = namedTypesList ds := by
  match ds with
  | [] => exact nomatch h
  | [d] =>
    obtain rfl := Option.some.inj h
    rw [namedTypesList, namedTypesList, List.append_nil]
  | d :: e :: ds =>
    obtain rfl := Option.some.inj h
    rw [namedTypes]

mutual

/-- What iteration yields names no further types. -/
theorem namedTypes_valueType? : {d v : Descriptor} → d.valueType? = some v →
    v.namedTypes ⊆ d.namedTypes
  | iterable value, _, h => by
    obtain rfl := Option.some.inj h
    exact List.Subset.refl _
  | keyed key value, _, h => by
    obtain rfl := Option.some.inj h
    exact List.subset_append_right _ _
  | union members, v, h => by
    rw [valueType?] at h
    obtain ⟨vs, hvs, hv⟩ := Option.bind_eq_some_iff.1 h
    rw [namedTypes_ofChoice hv, namedTypes]
    intro t ht
    obtain ⟨w, hw, ht⟩ := List.mem_flatMap.1 (namedTypesList_eq vs.eraseDups ▸ ht)
    exact namedTypes_allValueTypes? hvs w (List.mem_eraseDups.1 hw) ht
  | intersection members, v, h => by
    rw [valueType?] at h
    exact namedTypes_firstValueType? h

/-- What iteration yields for one of several descriptors names no further types. -/
theorem namedTypes_allValueTypes? : {ds vs : List Descriptor} → allValueTypes? ds = some vs →
    ∀ v ∈ vs, v.namedTypes ⊆ namedTypesList ds
  | [], vs, h => by
    obtain rfl := Option.some.inj h
    exact fun v hv => nomatch hv
  | d :: ds, vs, h => by
    rw [allValueTypes?] at h
    cases hv : valueType? d with
    | none => simp [hv] at h
    | some v =>
      rw [hv] at h
      obtain ⟨ws, hws, rfl⟩ := Option.map_eq_some_iff.1 h
      intro u hu
      rw [namedTypesList]
      rcases List.mem_cons.1 hu with rfl | hu
      · exact List.subset_append_of_subset_left _ (namedTypes_valueType? hv)
      · exact List.subset_append_of_subset_right _ (namedTypes_allValueTypes? hws u hu)

/-- What iteration yields for the first iterable one names no further types. -/
theorem namedTypes_firstValueType? : {ds : List Descriptor} → {v : Descriptor} →
    firstValueType? ds = some v → v.namedTypes ⊆ namedTypesList ds
  | d :: ds, v, h => by
    rw [firstValueType?] at h
    rw [namedTypesList]
    cases hv : valueType? d with
    | some w =>
      rw [hv] at h
      obtain rfl := Option.some.inj h
      exact List.subset_append_of_subset_left _ (namedTypes_valueType? hv)
    | none =>
      rw [hv] at h
      exact List.subset_append_of_subset_right _ (namedTypes_firstValueType? h)

end

/-- Named types are those of the alternatives. -/
theorem namedTypes_subset_of_alternative {d a : Descriptor} (ha : a ∈ d.alternatives) :
    a.namedTypes ⊆ d.namedTypes := by
  intro t ht
  have hcollected := flatMap_alternatives (f := namedTypes)
    (fun ds => by rw [namedTypes, namedTypesList_eq]) d
  exact hcollected ▸ List.mem_flatMap.2 ⟨a, ha, ht⟩

namespace FlagsAgree

variable {d e v : Descriptor}

/-- Flags agree in what names no further types. -/
theorem of_subset (h : d.FlagsAgree) (hsub : e.namedTypes ⊆ d.namedTypes) : e.FlagsAgree :=
  fun s hs t ht => h s (hsub hs) t (hsub ht)

/-- Each leaf is a member then, whether its name comes first or not. -/
theorem mem_namedMembers {t : NamedType} (h : d.FlagsAgree) :
    t ∈ d.namedMembers ↔ t ∈ d.leaves := by
  refine ⟨mem_of_mem_distinctBy, fun ht => (mem_distinctBy fun s hs hname => ?_).2 ht⟩
  exact h s (d.leaves_subset hs) t (d.leaves_subset ht) hname

/-- Flags agree in what iteration yields. -/
theorem value (h : d.FlagsAgree) (hv : d.valueType? = some v) : v.FlagsAgree :=
  h.of_subset (namedTypes_valueType? hv)

/-- Flags agree in any layout. -/
theorem congr (h : d.FlagsAgree) (hde : SameAlternatives d e) : e.FlagsAgree := by
  have hmem : ∀ t, t ∈ d.namedTypes ↔ t ∈ e.namedTypes :=
    hde.mem_iff fun ds => by rw [namedTypes, namedTypesList_eq]
  exact fun s hs t ht => h s ((hmem s).2 hs) t ((hmem t).2 ht)

end FlagsAgree

end Eponym.Descriptor
