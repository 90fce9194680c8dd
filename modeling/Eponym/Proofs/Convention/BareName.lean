/-
# Bare names among the violations

What a check finds without a look at bare names is what it finds with one, bare names left out.
Where knowledge is faithful, the base name of an interface is always a candidate; so a name that
is one is no mismatch, and nothing else is reported of it.

* `filter_found` : what a test of problems keeps;
* `found_false_eq_filter`, `left_false_eq_filter` : what is found without a look at bare names;
* `filter_bare_found` : the bare names that are found are those of the interfaces alone;
* `length_found_le_one` : no two violations are found together;
* `bare_name_is_candidate` : the last two, whatever was asked before.
-/
import Eponym.Proofs.Convention.TypedName

namespace Eponym

/-- A test with one outcome for all entries keeps all of them or none. -/
theorem filter_of_constant {α : Type} {p : α → Bool} {b : Bool} {xs : List α}
    (h : ∀ x ∈ xs, p x = b) : xs.filter p = if b then xs else [] := by
  cases b with
  | true => exact List.filter_eq_self.2 h
  | false => exact List.filter_eq_nil_iff.2 fun x hx => by simp [h x hx]

namespace TypedName

section Afresh

variable {r : Suggester} {bareCheck : Bool} {name : String} {d : Descriptor}
  {declared : Option Descriptor} {line : Option UInt64} {v : Violation}

/-! ## Problems -/

theorem problem_of_mem_mismatches {bases : List String} (h : v ∈ mismatches name d bases line) :
    v.problem = .typeSuffixMismatch := by
  rw [mismatches, List.mem_ite_nil_left, List.mem_singleton] at h
  rw [h.2]

theorem problem_of_mem_bareNames {interfaces : List (String × String)}
    (h : v ∈ bareNames name interfaces line) : v.problem = .interfaceBareName := by
  rw [bareNames] at h
  split at h
  · rw [List.mem_singleton.1 h]
  · exact absurd h List.not_mem_nil

theorem problem_of_mem_found_false (h : v ∈ found r false name d line) :
    v.problem = .typeSuffixMismatch := by
  rw [found_false, List.mem_ite_nil_left] at h
  exact problem_of_mem_mismatches h.2

/-- The bare names that are found are reported as such. -/
theorem problem_of_mem_foundBare (h : v ∈ foundBare r bareCheck name d line) :
    v.problem = .interfaceBareName := by
  rw [foundBare, List.mem_ite_nil_right] at h
  exact problem_of_mem_bareNames h.2

/-- A name is found to be a mismatch or bare. -/
theorem problem_of_mem_found (h : v ∈ found r bareCheck name d line) :
    v.problem = .typeSuffixMismatch ∨ v.problem = .interfaceBareName := by
  rw [found_eq_append, List.mem_append] at h
  exact h.imp problem_of_mem_found_false problem_of_mem_foundBare

/-! ## Bare names and other violations -/

/-- A test of problems keeps the mismatch that is found or drops it, and so it does with the bare
names. -/
theorem filter_found (p : Problem → Bool) :
    (found r bareCheck name d line).filter (fun v => p v.problem) =
      (if p .typeSuffixMismatch then found r false name d line else []) ++
        if p .interfaceBareName then foundBare r bareCheck name d line else [] := by
  have hmismatch : ∀ v ∈ found r false name d line, p v.problem = p .typeSuffixMismatch :=
    fun v hv => congrArg p (problem_of_mem_found_false hv)
  have hbare : ∀ v ∈ foundBare r bareCheck name d line, p v.problem = p .interfaceBareName :=
    fun v hv => congrArg p (problem_of_mem_foundBare hv)
  rw [found_eq_append, List.filter_append, filter_of_constant hmismatch,
    filter_of_constant hbare]

/-- The bare names that are found are those that the interfaces alone give rise to. -/
theorem filter_bare_found (hk : r.knowledge.Faithful) :
    (found r bareCheck name d line).filter (fun v => v.problem = .interfaceBareName) =
      if bareCheck then bareNames name (r.interfaceBaseNames d) line else [] := by
  rw [← foundBare_of_faithful hk]
  exact filter_found fun p => p = .interfaceBareName

/-- The mismatches among the violations are what is found without a look at bare names. -/
theorem filter_mismatches_found :
    (found r bareCheck name d line).filter (fun v => v.problem = .typeSuffixMismatch) =
      found r false name d line :=
  (filter_found fun p => p = .typeSuffixMismatch).trans (List.append_nil _)

/-- Without a look at bare names, all that a check finds with one is found but these. -/
theorem found_false_eq_filter :
    found r false name d line =
      (found r bareCheck name d line).filter fun v => v.problem ≠ .interfaceBareName :=
  ((filter_found fun p => p ≠ .interfaceBareName).trans (List.append_nil _)).symm

theorem left_none : left r bareCheck name d none line = found r bareCheck name d line :=
  ite_self _

/-- The same holds of what is left of a type that was narrowed: a declared type forgives all
violations or none. -/
theorem left_false_eq_filter :
    left r false name d declared line =
      (left r bareCheck name d declared line).filter fun v => v.problem ≠ .interfaceBareName := by
  cases declared with
  | none =>
    rw [left_none, left_none]
    exact found_false_eq_filter
  | some e =>
    rw [left_some, left_some]
    split
    · rfl
    · exact found_false_eq_filter

/-- One violation at most is found: a mismatch, if the name conforms to no candidate, or else a
bare name. -/
theorem length_found_le_one (hk : r.knowledge.Faithful) :
    (found r bareCheck name d line).length ≤ 1 := by
  by_cases h : conformsToAny name (r.suggest d) = true
  · rw [found_eq_append, found_of_conforms h, List.nil_append, foundBare_of_faithful hk]
    split
    · rw [bareNames]
      split <;> simp
    · exact Nat.zero_le 1
  · rw [found_of_not_conforms hk h, found_false]
    split
    · exact Nat.zero_le 1
    · rw [mismatches]
      split <;> simp

end Afresh

/-! ## Bare names of candidates -/

/-- Whatever was asked before, the base name of an interface is a candidate if knowledge is
faithful, as that of each catalogue is.  So the bare names that a check finds are those that the
interfaces alone give rise to, though it looks at none where there is no candidate, and it never
finds two violations. -/
theorem bare_name_is_candidate (r : Suggester) (hk : r.knowledge.Faithful)
    (names : List TypeName) (qs : List Question) (bareCheck : Bool) (name : String)
    (d : Descriptor) (line : Option UInt64) :
    let s := Session.after r names qs
    let interfaces := ((Session.interfaceBaseNames r d).run s).1
    let checked := ((check (Session.source r) bareCheck name d line).run s).1
    interfaces.map Prod.fst ⊆ ((Session.suggest r d).run s).1 ∧
      checked.filter (fun v => v.problem = .interfaceBareName) =
        (if bareCheck then bareNames name interfaces line else []) ∧
      checked.length ≤ 1 := by
  intro s interfaces checked
  have hinterfaces : interfaces = r.interfaceBaseNames d :=
    (Session.answers_interfaceBaseNames d).run_after names qs
  have hchecked : checked = found r bareCheck name d line :=
    (answers_check bareCheck name d line).run_after names qs
  refine ⟨?_, ?_, ?_⟩
  · rw [hinterfaces, (Session.answers_suggest d).run_after names qs]
    intro b hb
    exact Suggester.mem_suggest_of_interface hk hb
  · rw [hchecked, hinterfaces]
    exact filter_bare_found hk
  · rw [hchecked]
    exact length_found_le_one hk

/-- A channel under another spelling of its interface: its base name is a candidate. -/
theorem bare_name_is_candidate_channel :
    let r : Suggester := ⟨.catalogue (Catalogue.empty.register
      ⟨.ofString "App\\ChannelInterface", .interface, [], [], false⟩), .ofEntries ["App\\User"] []⟩
    let d : Descriptor := .union [.ofName "\\APP\\channelInterface", .ofName "App\\User", .null]
    let s := Session.after r [] [.suggest d]
    let interfaces := ((Session.interfaceBaseNames r d).run s).1
    let checked := ((check (Session.source r) true "channel" d none).run s).1
    r.knowledge.Faithful ∧ interfaces = [("channel", "ChannelInterface")] ∧
      interfaces.map Prod.fst ⊆ ((Session.suggest r d).run s).1 ∧
      checked.filter (fun v => v.problem = .interfaceBareName) =
        bareNames "channel" interfaces none ∧
      checked.length ≤ 1 := by
  intro r d s interfaces checked
  have hk : r.knowledge.Faithful := Knowledge.faithful_catalogue _
  have hinterfaces : interfaces = [("channel", "ChannelInterface")] := by
    show ((Session.interfaceBaseNames r d).run s).1 = _
    rw [(Session.answers_interfaceBaseNames d).run_after [] [.suggest d]]
    decide +kernel
  obtain ⟨hcandidates, hbare, hone⟩ :=
    bare_name_is_candidate r hk [] [.suggest d] true "channel" d none
  exact ⟨hk, hinterfaces, hcandidates, hbare.trans (if_pos rfl), hone⟩

end TypedName

end Eponym
