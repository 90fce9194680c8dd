/-
# Candidates of a union

What a union suggests is what its members suggest, one after the other, and so is what an
intersection suggests.  Members that name no type add nothing, and null is one of them.  The
same holds of what iteration over a union yields: it drops repeated value types on every level,
and stands for a single one itself, but suggests what the value types suggest in the order in
which they stand.

* `suggest_eq_offered` : a descriptor suggests what its leaves have as candidates;
* `suggest_compound` : what a union or an intersection suggests;
* `suggest_value` : what the values of a union of iterables suggest;
* `suggested_by_members` : both, whatever was asked before.
-/
import Mathlib.Data.List.Forall2
import Eponym.Proofs.Candidates.Memoization
import Eponym.Proofs.TypeExpression.Alternatives

open List (Forall₂)

namespace Eponym

/-- What stands in the first of two lists that correspond has a counterpart in the second. -/
theorem exists_of_mem_of_forall₂ {α β : Type} {R : α → β → Prop} {xs : List α} {ys : List β}
    (h : Forall₂ R xs ys) {x : α} (hx : x ∈ xs) : ∃ y ∈ ys, R x y := by
  induction h with
  | nil => exact nomatch hx
  | cons hxy _ ih =>
    rcases List.mem_cons.1 hx with rfl | hx
    · exact ⟨_, List.mem_cons_self, hxy⟩
    · obtain ⟨y, hy, hxy⟩ := ih hx
      exact ⟨y, List.mem_cons_of_mem _ hy, hxy⟩

namespace Descriptor

/-! ## Iterables and atoms -/

/-- The descriptor is an iterable of the given values, with or without a type for its keys. -/
inductive IsIterableOf : Descriptor → Descriptor → Prop
  | iterable (value : Descriptor) : IsIterableOf (iterable value) value
  | keyed (key value : Descriptor) : IsIterableOf (keyed key value) value

/-- The descriptor is a leaf that is no iterable: a named type, null or a scalar. -/
inductive IsAtom : Descriptor → Prop
  | named (t : NamedType) : IsAtom (named t)
  | null : IsAtom null
  | scalar (name : String) : IsAtom (scalar name)

variable {d a value : Descriptor} {values : List Descriptor}

theorem IsIterableOf.valueType?_eq (h : IsIterableOf d value) : d.valueType? = some value := by
  cases h with
  | iterable => exact valueType?_iterable value
  | keyed key => exact valueType?_keyed key value

theorem IsIterableOf.namedTypes_subset (h : IsIterableOf d value) :
    value.namedTypes ⊆ d.namedTypes :=
  namedTypes_valueType? h.valueType?_eq

/-- Of an atom it is not known that iteration yields anything. -/
theorem IsAtom.valueType?_eq (h : IsAtom a) : a.valueType? = none := by
  cases h with
  | named t => exact valueType?_named t
  | null => exact valueType?_null
  | scalar name => exact valueType?_scalar name

/-- From what iteration over iterables yields, one after the other, is collected what is
collected from their values. -/
theorem flatMap_valueType? {α : Type} (f : Descriptor → List α) {ds : List Descriptor}
    (h : Forall₂ IsIterableOf ds values) :
    (ds.flatMap fun a => a.valueType?.toList.flatMap f) = values.flatMap f := by
  induction h with
  | nil => rfl
  | cons ha _ ih =>
    rw [List.flatMap_cons, List.flatMap_cons, ih, ha.valueType?_eq, Option.toList_some,
      List.flatMap_singleton]

/-- If nonempty unions have iterables as their alternatives, iteration yields something. -/
theorem exists_valueType? (hd : d.NoEmptyUnion)
    (h : Forall₂ IsIterableOf d.alternatives values) : ∃ v, d.valueType? = some v := by
  refine Option.ne_none_iff_exists'.1 fun hnone => ?_
  obtain ⟨a, ha, hnone⟩ := (valueType?_eq_none_iff hd).1 hnone
  obtain ⟨value, -, hvalue⟩ := exists_of_mem_of_forall₂ h ha
  exact nomatch hnone.symm.trans hvalue.valueType?_eq

/-- Flags that agree in unions of iterables agree in the values of each. -/
theorem FlagsAgree.of_mem_values (hflags : d.FlagsAgree)
    (h : Forall₂ IsIterableOf d.alternatives values) (hvalue : value ∈ values) :
    value.FlagsAgree := by
  have hflip : Forall₂ (fun v a => IsIterableOf a v) values d.alternatives := h.flip
  obtain ⟨a, ha, hvalue⟩ := exists_of_mem_of_forall₂ hflip hvalue
  exact hflags.of_subset fun t ht =>
    namedTypes_subset_of_alternative ha (hvalue.namedTypes_subset ht)

end Descriptor

namespace Suggester

variable {r : Suggester} {d v : Descriptor} {members values : List Descriptor}

/-! ## Leaves -/

/-- The candidates of the leaves that may constrain an identifier, one leaf after the other. -/
def offered (r : Suggester) (d : Descriptor) : List String :=
  (d.leaves.filter fun t => !r.excludes t).flatMap fun t => r.candidatesOf t.name

theorem offered_union (r : Suggester) (members : List Descriptor) :
    r.offered (.union members) = members.flatMap r.offered := by
  unfold offered
  rw [Descriptor.leaves, Descriptor.leavesList_eq, List.filter_flatMap, List.flatMap_assoc]

theorem offered_intersection (r : Suggester) (members : List Descriptor) :
    r.offered (.intersection members) = members.flatMap r.offered :=
  r.offered_union members

/-- A descriptor suggests what its leaves have as candidates, if flags agree: a name that comes
again adds nothing then. -/
theorem suggest_eq_offered (h : d.FlagsAgree) : r.suggest d = (r.offered d).eraseDups := by
  have hmembers : d.namedMembers = d.leaves.eraseDups :=
    distinctBy_eq_eraseDups fun s hs t ht => h s (d.leaves_subset hs) t (d.leaves_subset ht)
  rw [suggest, constraining, hmembers, ← eraseDups_filter, eraseDups_flatMap_eraseDups]
  rfl

theorem eraseDups_flatMap_offered (h : ∀ e ∈ values, e.FlagsAgree) :
    (values.flatMap r.offered).eraseDups = (values.flatMap r.suggest).eraseDups := by
  refine eraseDups_flatMap_congr fun e he => ?_
  rw [suggest_eq_offered (h e he), eraseDups_eraseDups]

/-! ## Unions and intersections -/

/-- A union or an intersection suggests what its members suggest, one after the other. -/
theorem suggest_compound (hflags : d.FlagsAgree)
    (hd : d = .union members ∨ d = .intersection members) :
    r.suggest d = (members.flatMap r.suggest).eraseDups := by
  have hnamed : d.namedTypes = members.flatMap Descriptor.namedTypes := by
    rcases hd with rfl | rfl <;> rw [Descriptor.namedTypes, Descriptor.namedTypesList_eq]
  have hoffered : r.offered d = members.flatMap r.offered := by
    rcases hd with rfl | rfl
    · exact r.offered_union members
    · exact r.offered_intersection members
  have hmembers : ∀ e ∈ members, e.FlagsAgree := fun e he =>
    hflags.of_subset fun t ht => hnamed ▸ List.mem_flatMap.2 ⟨e, he, ht⟩
  rw [suggest_eq_offered hflags, hoffered, eraseDups_flatMap_offered hmembers]

theorem suggest_of_no_member (h : d.namedMembers = []) : r.suggest d = [] := by
  rw [suggest, constraining, h]
  rfl

/-- That a value may be null adds nothing. -/
theorem suggest_nullable (r : Suggester) (d : Descriptor) :
    r.suggest (.union [d, .null]) = r.suggest d := by
  have hleaves : (Descriptor.union [d, .null]).leaves = d.leaves := by
    simp only [Descriptor.leaves, Descriptor.leavesList, List.append_nil]
  rw [suggest, suggest, constraining, constraining, Descriptor.namedMembers,
    Descriptor.namedMembers, hleaves]

/-! ## Values -/

/-- The values of nonempty unions of iterables suggest what the values of each suggest, from
left to right. -/
theorem suggest_value (hflags : d.FlagsAgree)
    (h : Forall₂ Descriptor.IsIterableOf d.alternatives values) (hv : d.valueType? = some v) :
    r.suggest v = (values.flatMap r.suggest).eraseDups := by
  calc r.suggest v = (r.offered v).eraseDups := suggest_eq_offered (hflags.value hv)
    _ = (d.alternatives.flatMap fun a => a.valueType?.toList.flatMap r.offered).eraseDups :=
      Descriptor.eraseDups_valueType? r.offered_union hv
    _ = (values.flatMap r.offered).eraseDups := by rw [Descriptor.flatMap_valueType? _ h]
    _ = (values.flatMap r.suggest).eraseDups :=
      eraseDups_flatMap_offered fun _ he => hflags.of_mem_values h he

end Suggester

/-! ## Whatever was asked before -/

/-- A descriptor is gone through member by member.  Let no name belong to the runtime at one
place of it and not at another.  Whatever was asked before, a union or an intersection suggests
what its members suggest, one after the other and without repetitions, to which null, scalars
and iterables contribute nothing.  If nonempty unions, of whatever depth, have iterables as their
alternatives, iteration yields something, which suggests what the values of these suggest, from
left to right and without repetitions; if a named type, null or a scalar is among the
alternatives, iteration is not known to yield anything. -/
theorem suggested_by_members (r : Suggester) {d : Descriptor} (hflags : d.FlagsAgree)
    (names : List TypeName) (qs : List Question) :
    let s := Session.after r names qs
    let suggested (e : Descriptor) : List String := ((Session.suggest r e).run s).1
    (∀ members, d = .union members ∨ d = .intersection members →
        suggested d = (members.flatMap suggested).eraseDups) ∧
      (∀ e, e = .null ∨ (∃ name, e = .scalar name) ∨ (∃ value, e.IsIterableOf value) →
        suggested e = []) ∧
      suggested (.union [d, .null]) = suggested d ∧
      (∀ values, d.NoEmptyUnion → Forall₂ Descriptor.IsIterableOf d.alternatives values →
        ∃ v, d.valueType? = some v ∧ suggested v = (values.flatMap suggested).eraseDups) ∧
      ∀ a ∈ d.alternatives, a.IsAtom → d.valueType? = none := by
  intro s suggested
  have hsuggested : suggested = r.suggest := by
    funext e
    exact (Session.answers_suggest e).run_after names qs
  rw [hsuggested]
  refine ⟨?_, ?_, ?_, ?_, ?_⟩
  · intro members hd
    exact Suggester.suggest_compound hflags hd
  · rintro e (rfl | ⟨name, rfl⟩ | ⟨value, he⟩)
    · exact Suggester.suggest_of_no_member rfl
    · exact Suggester.suggest_of_no_member rfl
    · exact Suggester.suggest_of_no_member (by cases he <;> rfl)
  · exact r.suggest_nullable d
  · intro values hd h
    obtain ⟨v, hv⟩ := Descriptor.exists_valueType? hd h
    exact ⟨v, hv, Suggester.suggest_value hflags h hv⟩
  · intro a ha hatom
    exact Descriptor.valueType?_eq_none_of_alternative hatom.valueType?_eq ha

/-- Pages in two places of a union, and rows that may be missing in a third. -/
theorem suggested_by_members_pages :
    let r : Suggester := ⟨.nothing, .ofEntries ["App\\Hidden"] []⟩
    let page : Descriptor := .ofName "App\\Page"
    let row : Descriptor := .union [.ofName "App\\RowDto", .ofName "App\\Hidden", .null]
    let members : List Descriptor :=
      [.iterable page, .union [.keyed (.scalar "int") row, .iterable page]]
    let s := Session.after r [] [.suggest page]
    let suggested (e : Descriptor) : List String := ((Session.suggest r e).run s).1
    ((Descriptor.union members).FlagsAgree ∧ (Descriptor.union members).NoEmptyUnion ∧
        Forall₂ Descriptor.IsIterableOf (Descriptor.union members).alternatives
          [page, row, page]) ∧
      suggested (.union members) = (members.flatMap suggested).eraseDups ∧
      ∃ v, (Descriptor.union members).valueType? = some v ∧
        suggested v = ([page, row, page].flatMap suggested).eraseDups := by
  intro r page row members s suggested
  have hflags : (Descriptor.union members).FlagsAgree := by
    unfold Descriptor.FlagsAgree
    decide +kernel
  have hne : (Descriptor.union members).NoEmptyUnion :=
    ⟨nofun, trivial, ⟨nofun, trivial, trivial, trivial⟩, trivial⟩
  have h : Forall₂ Descriptor.IsIterableOf (Descriptor.union members).alternatives
      [page, row, page] :=
    .cons (.iterable page) (.cons (.keyed _ row) (.cons (.iterable page) .nil))
  obtain ⟨hmembers, -, -, hvalue, -⟩ :=
    suggested_by_members r hflags [] [.suggest page]
  exact ⟨⟨hflags, hne, h⟩, hmembers members (.inl rfl), hvalue [page, row, page] hne h⟩

end Eponym
