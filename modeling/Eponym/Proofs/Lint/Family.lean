/-
# One family of problems at a time

The name of something assigned is checked against the type of the value and, if that is
iterable, against what it yields.  Only an intersection can name a type and be iterable at once:
a union that has a named type among its members is not known to be iterable.  So where no
intersection is involved, one of the two conventions has nothing to say, whatever the name.

* `leaves_eq_nil_or_not_iterable` : such a type names nothing, or is not iterable;
* `TypedName.found_of_no_member` : the convention about types is silent where none is named;
* `found_of_no_intersection` : one of the two conventions is silent;
* `one_family_of_problems` : the problems of the two are never reported together.
-/
import Eponym.Proofs.Candidates.Union
import Eponym.Proofs.Lint.Toggles

namespace Eponym

namespace Descriptor

/-! ## Types without intersections -/

mutual

/-- No intersection stands outside iterables. -/
def NoIntersection : Descriptor → Prop
  | union members => NoIntersectionList members
  | intersection _ => False
  | named _ | iterable _ | keyed _ _ | null | scalar _ => True

/-- No intersection stands outside iterables in any of several descriptors. -/
def NoIntersectionList : List Descriptor → Prop
  | [] => True
  | d :: ds => NoIntersection d ∧ NoIntersectionList ds

end

mutual

/-- Without intersections, what is iterable has no leaf that is a named type. -/
theorem leaves_eq_nil_or_not_iterable : {d : Descriptor} → d.NoIntersection →
    d.leaves = [] ∨ d.valueType? = none
  | union members, h => by
    rw [NoIntersection] at h
    rw [leaves, valueType?]
    rcases leavesList_eq_nil_or_not_iterable h with hleaves | hnone
    · exact .inl hleaves
    · exact .inr (by rw [hnone, Option.bind_none])
  | named t, _ => .inr (valueType?_named t)
  | iterable _, _ | keyed _ _, _ | null, _ | scalar _, _ => .inl rfl

/-- If several descriptors are all iterable, none of them has such a leaf. -/
theorem leavesList_eq_nil_or_not_iterable : {ds : List Descriptor} → NoIntersectionList ds →
    leavesList ds = [] ∨ allValueTypes? ds = none
  | [], _ => .inl rfl
  | d :: ds, h => by
    rw [NoIntersectionList] at h
    rw [leavesList, allValueTypes?]
    rcases leaves_eq_nil_or_not_iterable h.1 with hd | hd
    · rcases leavesList_eq_nil_or_not_iterable h.2 with hds | hds
      · exact .inl (by rw [hd, hds, List.append_nil])
      · -- `d` may be iterable, but what follows is not
        right
        rw [hds]
        cases valueType? d <;> rfl
    · exact .inr (by rw [hd])

end

/-- Without intersections, what names a type is not iterable. -/
theorem namedMembers_eq_nil_or_not_iterable {d : Descriptor} (h : d.NoIntersection) :
    d.namedMembers = [] ∨ d.valueType? = none := by
  rcases leaves_eq_nil_or_not_iterable h with hleaves | hnone
  · exact .inl (by rw [namedMembers, hleaves, distinctBy_nil])
  · exact .inr hnone

end Descriptor

/-! ## Silent conventions -/

/-- Of a name whose type names nothing, the convention about types finds nothing. -/
theorem TypedName.found_of_no_member {r : Suggester} {bareCheck : Bool} {name : String}
    {d : Descriptor} {line : Option UInt64} (h : d.namedMembers = []) :
    found r bareCheck name d line = [] := by
  have hno : r.suggest d = [] := Suggester.suggest_of_no_member h
  rw [found_eq, if_pos hno]

namespace Linter

/-- Of a name whose type involves no intersection, one of the two conventions finds nothing. -/
theorem found_of_no_intersection (e : Linter) (place : Place) (name : String) {d : Descriptor}
    (line : Option UInt64) (h : d.NoIntersection) :
    foundOfType e.suggester e.config.bareNameCheck (.typed place name d line) = [] ∨
      foundOfIterable e.suggester (.typed place name d line) = [] := by
  rcases Descriptor.namedMembers_eq_nil_or_not_iterable h with hno | hnone
  · exact .inl (TypedName.found_of_no_member hno)
  · right
    cases place
    · exact CollectionName.found_of_not_iterable hnone
    · rfl
    · exact CollectionName.found_of_not_iterable hnone

/-! ## Linters -/

/-- An assigned name is never asked to follow both conventions.  If no intersection stands in its
type outside iterables, the type names nothing or is not known to be iterable.  So whatever a
linter switches on, knows and was asked before, all that it reports of the name belongs to the
convention about types, or all of it to the convention about iterables. -/
theorem one_family_of_problems {d : Descriptor} (h : d.NoIntersection) :
    (d.namedMembers = [] ∨ d.valueType? = none) ∧
      ∀ (e : Linter) (requests : List Request) (place : Place) (name : String)
        (line : Option UInt64),
        let reported := ((e.check (.typed place name d line)).run (e.after requests)).1
        (∀ v ∈ reported, v.problem = .typeSuffixMismatch ∨ v.problem = .interfaceBareName) ∨
          ∀ v ∈ reported, v.problem = .mapForbidden ∨ v.problem = .iterablePluralMismatch := by
  refine ⟨Descriptor.namedMembers_eq_nil_or_not_iterable h, ?_⟩
  intro e requests place name line reported
  -- what elements are checked for does not concern an assigned name
  have hreported : ∀ v ∈ reported,
      v ∈ foundOfType e.suggester e.config.bareNameCheck (.typed place name d line) ∨
        v ∈ foundOfIterable e.suggester (.typed place name d line) := by
    intro v hv
    have hfound : reported = e.found (.typed place name d line) :=
      e.run_check_after requests (.typed place name d line)
    rw [hfound, found_eq, foundOfElement, ite_self, List.append_nil, List.mem_append,
      List.mem_ite_nil_right, List.mem_ite_nil_right] at hv
    exact hv.imp And.right And.right
  rcases found_of_no_intersection e place name line h with htype | hiterable
  · right
    intro v hv
    rcases hreported v hv with hmem | hmem
    · exact absurd (htype ▸ hmem) List.not_mem_nil
    · exact problem_of_mem_foundOfIterable hmem
  · left
    intro v hv
    rcases hreported v hv with hmem | hmem
    · exact problem_of_mem_foundOfType hmem
    · exact absurd (hiterable ▸ hmem) List.not_mem_nil

/-- Pages in a union of iterables, under a name with a `Map` segment. -/
theorem one_family_of_problems_pages :
    let page : Descriptor := .ofName "App\\Page"
    let d : Descriptor := .union [.iterable (.intersection [page, .ofName "Countable"]),
      .union [.keyed (.scalar "int") page]]
    let e : Linter := ⟨.default, .nothing⟩
    let reported := ((e.check (.typed .variable "map" d none)).run (e.after [.candidates d])).1
    d.NoIntersection ∧ (d.namedMembers = [] ∨ d.valueType? = none) ∧
      ((∀ v ∈ reported, v.problem = .typeSuffixMismatch ∨ v.problem = .interfaceBareName) ∨
        ∀ v ∈ reported, v.problem = .mapForbidden ∨ v.problem = .iterablePluralMismatch) := by
  intro page d e reported
  have h : d.NoIntersection := ⟨trivial, ⟨trivial, trivial⟩, trivial⟩
  obtain ⟨hsilent, hreported⟩ := one_family_of_problems h
  exact ⟨h, hsilent, hreported e [.candidates d] .variable "map" none⟩

-- An intersection may name a type and be iterable at once.
example :
    let pages : Descriptor := .intersection [.ofName "App\\Pages", .iterable (.ofName "App\\Page")]
    (found ⟨.default, .nothing⟩ (.typed .variable "map" pages none)).map Violation.problem =
      [.typeSuffixMismatch, .mapForbidden, .iterablePluralMismatch] := by
  decide +kernel

end Linter

end Eponym
