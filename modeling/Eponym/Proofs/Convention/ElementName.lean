/-
# Denied base names

What a type suggests is never a denied base name, and neither is the base name of one of its
interfaces.  The singular of an iterable's name comes from no type: it is allowed for an element
even if it is denied, and no other denied name is.

* `Suggester.filter_denied_suggest`, `Suggester.filter_denied_interfaces` : no suggestion is
  denied;
* `answers_check` : what was asked before does not matter;
* `denied_names_allowed` : the denied names that are allowed for an element.
-/
import Eponym.Convention.ElementName
import Eponym.Proofs.Candidates.InterfaceNames
import Eponym.Proofs.Candidates.Memoization

namespace Eponym

/-! ## Suggestions -/

namespace Suggester

variable {r : Suggester} {d : Descriptor} {b : String}

theorem deniesBase_of_mem_suggest (h : b ∈ r.suggest d) : r.denied.deniesBase b = false := by
  obtain ⟨t, -, hb⟩ := mem_suggest.1 h
  exact (mem_candidatesOf.1 hb).1

theorem filter_denied_suggest (r : Suggester) (d : Descriptor) :
    (r.suggest d).filter r.denied.deniesBase = [] := by
  apply List.filter_eq_nil_iff.2
  intro b hb
  rw [deniesBase_of_mem_suggest hb]
  exact Bool.false_ne_true

/-- No base name of an interface is denied. -/
theorem filter_denied_interfaces (r : Suggester) (d : Descriptor) :
    ((r.interfaceBaseNames d).map Prod.fst).filter r.denied.deniesBase = [] := by
  apply List.filter_eq_nil_iff.2
  intro b hb
  obtain ⟨t, -, i, hi⟩ := exists_mem_bareNames hb
  obtain ⟨-, -, -, -, hden⟩ := of_mem_bareNames hi
  rw [hden]
  exact Bool.false_ne_true

end Suggester

/-- If at most one of some names is picked, it does not matter in which order they stand. -/
theorem filter_sorted_of_length_le_one {p : String → Bool} {names : List String}
    (h : (names.filter p).length ≤ 1) : (sorted names).filter p = names.filter p := by
  have hperm : ((sorted names).filter p).Perm (names.filter p) :=
    (List.mergeSort_perm names _).filter p
  cases hn : names.filter p with
  | nil =>
    rw [hn] at hperm
    exact hperm.eq_nil
  | cons x xs =>
    obtain rfl : xs = [] := by
      rw [hn, List.length_cons] at h
      exact List.length_eq_zero_iff.1 (by omega)
    rw [hn] at hperm
    exact List.perm_singleton.1 hperm

namespace ElementName

/-! ## What is found -/

/-- The violations of the name of an element, worked out afresh. -/
def found (r : Suggester) (name : String) (iterable : Option String) (d : Descriptor)
    (line : Option UInt64) : List Violation :=
  (check r.source name iterable d line).run

section Afresh

variable {r : Suggester}

/-- A session finds the base names of what iteration yields that are found afresh. -/
theorem answers_elementBases (d : Descriptor) :
    Session.Answers r (elementBases (Session.source r) d) (elementBases r.source d).run := by
  cases hv : d.valueType? with
  | none =>
    rw [elementBases, elementBases, hv]
    exact Session.answers_pure []
  | some v =>
    rw [elementBases, elementBases, hv]
    exact Session.answers_suggest v

/-- A session finds the violations of a name that are found afresh. -/
theorem answers_check (name : String) (iterable : Option String) (d : Descriptor)
    (line : Option UInt64) :
    Session.Answers r (check (Session.source r) name iterable d line)
      (found r name iterable d line) :=
  (answers_elementBases d).map fun bases =>
    violations name iterable d (sorted (allowedBases iterable bases)) line

/-! ## What is allowed -/

/-- What iteration yields suggests no denied base name either. -/
theorem filter_denied_elementBases (r : Suggester) (d : Descriptor) :
    (elementBases r.source d).run.filter r.denied.deniesBase = [] := by
  rw [elementBases]
  cases d.valueType? with
  | none => rfl
  | some v => exact r.filter_denied_suggest v

/-- Of names from which nothing is picked, the singular of the iterable's name is all that may
be picked once it is allowed too. -/
theorem filter_allowedBases {p : String → Bool} {bases : List String} (h : bases.filter p = [])
    (iterable : Option String) :
    (allowedBases iterable bases).filter p =
      (iterable.map elementName).toList.filter fun b => b ≠ "" && p b := by
  unfold allowedBases
  split
  · next hno =>
    rw [hno, h]
    rfl
  · next hempty =>
    rw [hempty, h]
    rfl
  · next base hne hbase =>
    have hrest : (bases.filter fun b => b ≠ base).filter p = [] := by
      rw [List.filter_filter]
      apply List.filter_eq_nil_iff.2
      intro b hb
      have := List.filter_eq_nil_iff.1 h b hb
      simp [this]
    have hbase' : base ≠ "" := hne
    rw [hbase, List.filter_cons, hrest]
    simp [List.filter_cons, hbase']

end Afresh

/-! ## Denied names -/

/-- Whatever was asked before, no type suggests a denied base name, for itself or as the bare
name of an interface; the denied names that are allowed for an element are the singular of the
iterable's name, if that is denied. -/
theorem denied_names_allowed (r : Suggester) (names : List TypeName) (qs : List Question)
    (name : String) (iterable : Option String) (d : Descriptor) (line : Option UInt64) :
    let s := Session.after r names qs
    let suggested (e : Descriptor) : List String := ((Session.suggest r e).run s).1
    let interfaces (e : Descriptor) : List String :=
      ((Session.interfaceBaseNames r e).run s).1.map Prod.fst
    let allowed := sorted (allowedBases iterable ((elementBases (Session.source r) d).run s).1)
    (∀ e, (suggested e).filter r.denied.deniesBase = []) ∧
      (∀ e, (interfaces e).filter r.denied.deniesBase = []) ∧
      ((check (Session.source r) name iterable d line).run s).1 =
        violations name iterable d allowed line ∧
      allowed.filter r.denied.deniesBase =
        (iterable.map elementName).toList.filter fun b => b ≠ "" && r.denied.deniesBase b := by
  intro s suggested interfaces allowed
  have hsuggested : ∀ e, suggested e = r.suggest e := fun e =>
    (Session.answers_suggest e).run_after names qs
  have hinterfaces : ∀ e, interfaces e = (r.interfaceBaseNames e).map Prod.fst := fun e =>
    congrArg (List.map Prod.fst) ((Session.answers_interfaceBaseNames e).run_after names qs)
  have hallowed : allowed = sorted (allowedBases iterable (elementBases r.source d).run) :=
    congrArg (fun bases => sorted (allowedBases iterable bases))
      ((answers_elementBases d).run_after names qs)
  refine ⟨fun e => ?_, fun e => ?_, ?_, ?_⟩
  · rw [hsuggested, r.filter_denied_suggest]
  · rw [hinterfaces, r.filter_denied_interfaces]
  · rw [hallowed]
    exact (answers_check name iterable d line).run_after names qs
  · have hpicked := filter_allowedBases (filter_denied_elementBases r d) iterable
    rw [hallowed, filter_sorted_of_length_le_one, hpicked]
    rw [hpicked]
    exact Nat.le_trans (List.length_filter_le _ _) (by cases iterable <;> simp)

/-- Where `node` is denied, it is allowed for an element of `nodes` all the same. -/
theorem denied_node_allowed :
    let r : Suggester := ⟨.nothing, .ofEntries [] ["Node"]⟩
    let d : Descriptor := .iterable (.ofName "App\\ChildNode")
    r.denied.deniesBase "node" = true ∧
      "node" ∈ sorted (allowedBases (some "nodes")
        ((elementBases (Session.source r) d).run Session.new).1) := by
  intro r d
  rw [mem_sorted]
  decide +kernel

end ElementName

end Eponym
