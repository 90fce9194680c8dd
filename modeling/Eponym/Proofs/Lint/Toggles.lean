/-
# Switches

Each problem belongs to one of the three conventions that can be switched off.  To switch a
convention off takes its problems out of what is found with all conventions on, and to switch
off the look at bare names takes out these; neither changes anything else.

* `found_eq_filter` : a switched off convention leaves out its own violations;
* `found_withoutBareNames` : a switched off look at bare names leaves out these;
* `switches_are_filters` : both, for the linters of any configuration, whatever was asked before.
-/
import Eponym.Proofs.Lint.History

namespace Eponym

/-- Whether the convention that a problem belongs to is switched on. -/
def Toggles.covers (t : Toggles) : Problem → Bool
  | .typeSuffixMismatch | .interfaceBareName => t.typeSuffix
  | .iterablePluralMismatch | .mapForbidden => t.iterablePlural
  | .foreachValueMismatch => t.foreachValue

/-! ## Problems of a convention -/

section Problems

variable {r : Suggester} {bareCheck : Bool} {name : String} {d : Descriptor}
  {line : Option UInt64} {v : Violation}

/-- What is left of a name's violations is among those that were found. -/
theorem TypedName.mem_found_of_mem_left {declared : Option Descriptor}
    (h : v ∈ left r bareCheck name d declared line) : v ∈ found r bareCheck name d line := by
  cases declared with
  | none => rwa [left_none] at h
  | some e => exact (mem_left_some.1 h).1

/-- The name of an iterable is found to have a `Map` segment or to be a mismatch. -/
theorem CollectionName.problem_of_mem_violations {bases : List String}
    (h : v ∈ violations name d bases line) :
    v.problem = .mapForbidden ∨ v.problem = .iterablePluralMismatch := by
  rw [violations, List.mem_append, List.mem_ite_nil_right, List.mem_ite_nil_left,
    List.mem_singleton, List.mem_singleton] at h
  rcases h with ⟨-, rfl⟩ | ⟨-, rfl⟩
  · exact .inl rfl
  · exact .inr rfl

/-- The same holds of all that is found of an iterable. -/
theorem CollectionName.problem_of_mem_found (h : v ∈ found r name d line) :
    v.problem = .mapForbidden ∨ v.problem = .iterablePluralMismatch := by
  cases hv : d.valueType? with
  | none =>
    rw [found_of_not_iterable hv] at h
    exact absurd h List.not_mem_nil
  | some value =>
    rw [found_of_iterable hv, List.mem_ite_nil_left] at h
    exact problem_of_mem_violations h.2

theorem ElementName.problem_of_mem_found {iterable : Option String}
    (h : v ∈ found r name iterable d line) : v.problem = .foreachValueMismatch := by
  have hviolations : v ∈ violations name iterable d
      (sorted (allowedBases iterable (elementBases r.source d).run)) line := h
  rw [violations, List.mem_ite_nil_left, List.mem_singleton] at hviolations
  rw [hviolations.2]

end Problems

namespace Linter

section Found

variable {r : Suggester} {bareCheck : Bool} {s : Subject} {v : Violation}

/-- The convention about types finds mismatches and bare names. -/
theorem problem_of_mem_foundOfType (h : v ∈ foundOfType r bareCheck s) :
    v.problem = .typeSuffixMismatch ∨ v.problem = .interfaceBareName := by
  cases s with
  | typed place name d line => exact TypedName.problem_of_mem_found h
  | promotedProperty name d declared line =>
    exact TypedName.problem_of_mem_found (TypedName.mem_found_of_mem_left h)
  | foreachValue name iterable d line => exact absurd h List.not_mem_nil

/-- The convention about iterables finds `Map` segments and mismatches of its own. -/
theorem problem_of_mem_foundOfIterable (h : v ∈ foundOfIterable r s) :
    v.problem = .mapForbidden ∨ v.problem = .iterablePluralMismatch := by
  cases s with
  | typed place name d line =>
    cases place
    · exact CollectionName.problem_of_mem_found h
    · exact absurd h List.not_mem_nil
    · exact CollectionName.problem_of_mem_found h
  | promotedProperty name d declared line => exact absurd h List.not_mem_nil
  | foreachValue name iterable d line => exact absurd h List.not_mem_nil

theorem problem_of_mem_foundOfElement (h : v ∈ foundOfElement r s) :
    v.problem = .foreachValueMismatch := by
  cases s with
  | typed place name d line => exact absurd h List.not_mem_nil
  | promotedProperty name d declared line => exact absurd h List.not_mem_nil
  | foreachValue name iterable d line => exact ElementName.problem_of_mem_found h

end Found

/-! ## Switched off conventions -/

section Switches

variable (c : NamingConfig) (k : Knowledge) (s : Subject)

/-- What the switched on conventions find is, of all that is found with each convention on, what
belongs to them. -/
theorem found_eq_filter :
    found ⟨c, k⟩ s =
      (found ⟨{ c with toggles := .all }, k⟩ s).filter fun v => c.toggles.covers v.problem := by
  have hall : found ⟨{ c with toggles := .all }, k⟩ s =
      foundOfType ⟨k, c.denied⟩ c.bareNameCheck s ++ foundOfIterable ⟨k, c.denied⟩ s ++
        foundOfElement ⟨k, c.denied⟩ s := found_eq _ s
  have htype : ∀ v ∈ foundOfType ⟨k, c.denied⟩ c.bareNameCheck s,
      c.toggles.covers v.problem = c.toggles.typeSuffix := fun v hv => by
    rcases problem_of_mem_foundOfType hv with hp | hp <;> rw [hp] <;> rfl
  have hiterable : ∀ v ∈ foundOfIterable ⟨k, c.denied⟩ s,
      c.toggles.covers v.problem = c.toggles.iterablePlural := fun v hv => by
    rcases problem_of_mem_foundOfIterable hv with hp | hp <;> rw [hp] <;> rfl
  have helement : ∀ v ∈ foundOfElement ⟨k, c.denied⟩ s,
      c.toggles.covers v.problem = c.toggles.foreachValue := fun v hv => by
    rw [problem_of_mem_foundOfElement hv]
    rfl
  rw [hall, List.filter_append, List.filter_append, filter_of_constant htype,
    filter_of_constant hiterable, filter_of_constant helement]
  exact found_eq ⟨c, k⟩ s

/-! ## Bare names -/

/-- Without a look at bare names, the convention about types finds all else that it finds. -/
theorem foundOfType_false (r : Suggester) :
    foundOfType r false s =
      (foundOfType r true s).filter fun v => v.problem ≠ .interfaceBareName := by
  cases s with
  | typed place name d line => exact TypedName.found_false_eq_filter
  | promotedProperty name d declared line => exact TypedName.left_false_eq_filter
  | foreachValue name iterable d line => rfl

/-- Without a look at bare names, all else that is found with one is found. -/
theorem found_withoutBareNames :
    found ⟨{ c with bareNameCheck := false }, k⟩ s =
      (found ⟨{ c with bareNameCheck := true }, k⟩ s).filter
        fun v => v.problem ≠ .interfaceBareName := by
  have hfound : ∀ bareCheck, found ⟨{ c with bareNameCheck := bareCheck }, k⟩ s =
      (if c.toggles.typeSuffix then foundOfType ⟨k, c.denied⟩ bareCheck s else []) ++
      (if c.toggles.iterablePlural then foundOfIterable ⟨k, c.denied⟩ s else []) ++
      (if c.toggles.foreachValue then foundOfElement ⟨k, c.denied⟩ s else []) :=
    fun bareCheck => found_eq _ s
  have hif : ∀ (b : Bool) (p : Violation → Bool) (vs : List Violation),
      (if b then vs else []).filter p = if b then vs.filter p else [] := by
    intro b p vs
    cases b <;> rfl
  -- the other conventions know no bare names
  have hiterable : (foundOfIterable ⟨k, c.denied⟩ s).filter
      (fun v => v.problem ≠ .interfaceBareName) = foundOfIterable ⟨k, c.denied⟩ s :=
    filter_of_constant (b := true) fun v hv => by
      rcases problem_of_mem_foundOfIterable hv with hp | hp <;> rw [hp] <;> rfl
  have helement : (foundOfElement ⟨k, c.denied⟩ s).filter
      (fun v => v.problem ≠ .interfaceBareName) = foundOfElement ⟨k, c.denied⟩ s :=
    filter_of_constant (b := true) fun v hv => by
      rw [problem_of_mem_foundOfElement hv]
      rfl
  rw [hfound, hfound, List.filter_append, List.filter_append, hif, hif, hif, hiterable, helement,
    foundOfType_false]

/-! ## Linters of a configuration -/

/-- A linter that differs in its switches is built from a configuration that is valid or
invalid alike. -/
theorem map_ofConfig {c' : NamingConfig} (h : c'.fault? = c.fault?) (requests : List Request) :
    ((ofConfig c' k).map fun e => ((e.check s).run (e.after requests)).1) =
      match c.fault? with
      | some fault => .error fault
      | none => .ok (found ⟨c', k⟩ s) := by
  rw [ofConfig, NamingConfig.validated, h]
  cases c.fault? with
  | some fault => rfl
  | none => exact congrArg Except.ok (run_check_after ⟨c', k⟩ requests s)

end Switches

/-- Whatever was asked before, the linter of a configuration finds what one with all conventions
switched on finds, as far as it belongs to the conventions that are on; and a linter that does
not look at bare names finds what one that does finds, bare names left out.  A configuration is
valid or not whatever it switches on. -/
theorem switches_are_filters (c : NamingConfig) (k : Knowledge) (s : Subject)
    (requests requests' : List Request) :
    let reported (c : NamingConfig) (requests : List Request) : Except Fault (List Violation) :=
      (ofConfig c k).map fun e => ((e.check s).run (e.after requests)).1
    reported c requests = ((reported { c with toggles := .all } requests').map fun vs =>
        vs.filter fun v => c.toggles.covers v.problem) ∧
      reported { c with bareNameCheck := false } requests =
        ((reported { c with bareNameCheck := true } requests').map fun vs =>
          vs.filter fun v => v.problem ≠ .interfaceBareName) := by
  intro reported
  have hreported : ∀ (c' : NamingConfig) (requests : List Request), c'.fault? = c.fault? →
      reported c' requests = match c.fault? with
        | some fault => .error fault
        | none => .ok (found ⟨c', k⟩ s) := fun c' requests h => map_ofConfig c k s h requests
  rw [hreported c requests rfl, hreported { c with toggles := .all } requests' rfl,
    hreported { c with bareNameCheck := false } requests rfl,
    hreported { c with bareNameCheck := true } requests' rfl]
  cases c.fault? with
  | some fault => exact ⟨rfl, rfl⟩
  | none =>
    exact ⟨congrArg Except.ok (found_eq_filter c k s),
      congrArg Except.ok (found_withoutBareNames c k s)⟩

/-- Each of the problems is reported where all conventions are on: of a collection that is an
object too, of an element of a loop, and of a channel whose type was narrowed to an interface. -/
theorem switches_are_filters_each :
    let k : Knowledge := ⟨fun name => if name = "App\\ChannelInterface" then
      some ⟨"\\App\\ChannelInterface", .interface, false, [], []⟩ else none, fun _ => []⟩
    let c : NamingConfig := ⟨["App\\Hidden"], ["entry"], true, ⟨false, true, false⟩⟩
    let all : NamingConfig := { c with toggles := .all }
    let pages : Subject := .typed .variable "map"
      (.intersection [.ofName "App\\Pages", .iterable (.ofName "App\\Page")]) none
    let page : Subject := .foreachValue "item" none (.iterable (.ofName "App\\Page")) none
    let channel : Subject := .promotedProperty "channel" (.ofName "App\\ChannelInterface")
      (some (.ofName "App\\Duct")) none
    let requests : List Request := [.candidates (.ofName "App\\Page"), .check channel]
    let reported (c : NamingConfig) (s : Subject) : Except Fault (List Violation) :=
      (ofConfig c k).map fun e => ((e.check s).run (e.after requests)).1
    let problems (s : Subject) : Except Fault (List Problem) :=
      (reported all s).map fun vs => vs.map Violation.problem
    problems pages = .ok [.typeSuffixMismatch, .mapForbidden, .iterablePluralMismatch] ∧
      problems page = .ok [.foreachValueMismatch] ∧
      problems channel = .ok [.interfaceBareName] ∧
      reported c pages = ((reported all pages).map fun vs =>
        vs.filter fun v => c.toggles.covers v.problem) ∧
      reported c page = ((reported all page).map fun vs =>
        vs.filter fun v => c.toggles.covers v.problem) ∧
      reported { all with bareNameCheck := false } channel =
        ((reported { all with bareNameCheck := true } channel).map fun vs =>
          vs.filter fun v => v.problem ≠ .interfaceBareName) := by
  intro k c all pages page channel requests reported problems
  have hfault : all.fault? = none := by decide +kernel
  have hreported : ∀ s, reported all s = .ok (found ⟨all, k⟩ s) := fun s =>
    (map_ofConfig all k s rfl requests).trans (by rw [hfault])
  have hproblems : ∀ s, problems s = .ok ((found ⟨all, k⟩ s).map Violation.problem) := fun s =>
    congrArg (Except.map _) (hreported s)
  refine ⟨?_, ?_, ?_, (switches_are_filters c k pages requests requests).1,
    (switches_are_filters c k page requests requests).1,
    (switches_are_filters all k channel requests requests).2⟩
  · rw [hproblems]
    exact congrArg Except.ok (by decide +kernel)
  · rw [hproblems]
    exact congrArg Except.ok (by decide +kernel)
  · rw [hproblems]
    exact congrArg Except.ok (by decide +kernel)

end Linter

end Eponym
