/-
# Types that were narrowed

A name whose type was narrowed is forgiven all that is found against the narrowed type, if it
conforms to a base name of the declared type.  A bare name that conforms to a candidate is
forgiven with the rest.  Where knowledge is faithful each bare name conforms, being a candidate;
so if the declared type is not narrowed at all, what is left of the violations is what a check
without bare names finds.

* `answers_check`, `answers_checkNarrowed` : what was asked before does not matter;
* `found_eq_append` : what is found, bare names last;
* `left_itself_eq_found_iff` : when a type narrowed to itself changes nothing;
* `left_itself` : what is left then, if knowledge is faithful;
* `narrowed_to_itself` : both, and what is left otherwise.
-/
import Eponym.Convention.TypedName
import Eponym.Proofs.Candidates.InterfaceNames
import Eponym.Proofs.Candidates.Memoization

namespace Eponym.TypedName

/-- The violations of a name, worked out afresh. -/
def found (r : Suggester) (bareCheck : Bool) (name : String) (d : Descriptor)
    (line : Option UInt64) : List Violation :=
  (check r.source bareCheck name d line).run

/-- The bare names among them: none is looked for where the type has no candidate. -/
def foundBare (r : Suggester) (bareCheck : Bool) (name : String) (d : Descriptor)
    (line : Option UInt64) : List Violation :=
  if r.suggest d ≠ [] ∧ bareCheck = true then bareNames name (r.interfaceBaseNames d) line
  else []

/-- The violations of a name whose declared type was narrowed, worked out afresh. -/
def left (r : Suggester) (bareCheck : Bool) (name : String) (narrowed : Descriptor)
    (declared : Option Descriptor) (line : Option UInt64) : List Violation :=
  (checkNarrowed r.source bareCheck name narrowed declared line).run

section Afresh

variable {r : Suggester} {bareCheck : Bool} {name : String} {d e : Descriptor}
  {line : Option UInt64}

/-! ## Sessions -/

/-- A session finds the violations of a name that are found afresh. -/
theorem answers_check (bareCheck : Bool) (name : String) (d : Descriptor)
    (line : Option UInt64) :
    Session.Answers r (check (Session.source r) bareCheck name d line)
      (found r bareCheck name d line) := by
  have hfound := (Session.answers_interfaceBaseNames (r := r) d).map fun interfaces =>
    mismatches name d (sorted (r.suggest d)) line ++ bareNames name interfaces line
  exact (Session.answers_suggest d).bind
    (.ite (Session.answers_pure _) (.ite (Session.answers_pure _) hfound))

/-- A session forgives the violations that are forgiven afresh. -/
theorem answers_checkNarrowed (bareCheck : Bool) (name : String) (d : Descriptor)
    (declared : Option Descriptor) (line : Option UInt64) :
    Session.Answers r (checkNarrowed (Session.source r) bareCheck name d declared line)
      (left r bareCheck name d declared line) := by
  refine (answers_check bareCheck name d line).bind (.ite (Session.answers_pure _) ?_)
  cases declared with
  | none => exact Session.answers_pure _
  | some e =>
    exact (Session.answers_suggest e).map fun bases =>
      if conformsToAny name bases then [] else found r bareCheck name d line

/-! ## What is found -/

/-- A bare name is found if the name is the base name of an interface. -/
theorem bareNames_eq_nil {interfaces : List (String × String)} :
    bareNames name interfaces line = [] ↔ name ∉ interfaces.map Prod.fst := by
  rw [bareNames]
  split
  · next i hi =>
    have hname : name = i.1 := by simpa [isBare] using List.find?_some hi
    have hmem : i.1 ∈ interfaces.map Prod.fst :=
      List.mem_map_of_mem (List.mem_of_find?_eq_some hi)
    rw [hname]
    exact ⟨nofun, fun hno => absurd hmem hno⟩
  · next hno =>
    simp only [true_iff, List.mem_map, not_exists, not_and]
    intro i hi heq
    have := List.find?_eq_none.1 hno i hi
    simp [isBare, heq] at this

theorem mismatches_eq_nil {bases : List String} :
    mismatches name d bases line = [] ↔ conformsToAny name bases = true := by
  rw [mismatches]
  split <;> simp_all

theorem conformsToAny_sorted (name : String) (bases : List String) :
    conformsToAny name (sorted bases) = conformsToAny name bases := by
  rw [Bool.eq_iff_iff]
  simp only [conformsToAny_iff, mem_sorted]

/-- What is found: a mismatch first, and bare names last.  Neither is looked for where the type
has no candidate. -/
theorem found_eq :
    found r bareCheck name d line =
      if r.suggest d = [] then []
      else mismatches name d (sorted (r.suggest d)) line ++
        if bareCheck then bareNames name (r.interfaceBaseNames d) line else [] := by
  cases bareCheck with
  | true =>
    show (if (sorted (r.suggest d)).isEmpty then [] else _) = _
    simp only [List.isEmpty_iff, sorted_eq_nil]
    rfl
  | false =>
    show (if (sorted (r.suggest d)).isEmpty then [] else _) = _
    simp only [List.isEmpty_iff, sorted_eq_nil]
    rw [if_neg Bool.false_ne_true, List.append_nil]
    rfl

theorem found_false :
    found r false name d line =
      if r.suggest d = [] then [] else mismatches name d (sorted (r.suggest d)) line := by
  rw [found_eq, if_neg Bool.false_ne_true, List.append_nil]

/-- A look at bare names only adds to what is found. -/
theorem found_eq_append :
    found r bareCheck name d line =
      found r false name d line ++ foundBare r bareCheck name d line := by
  rw [found_eq, found_false, foundBare]
  by_cases hno : r.suggest d = []
  · simp [hno]
  · simp [hno]

theorem found_of_conforms (h : conformsToAny name (r.suggest d) = true) :
    found r false name d line = [] := by
  rw [found_false, mismatches_eq_nil.2 (by rw [conformsToAny_sorted, h]), ite_self]

theorem suggest_ne_nil_of_conforms (h : conformsToAny name (r.suggest d) = true) :
    r.suggest d ≠ [] := by
  intro hno
  rw [hno] at h
  exact Bool.false_ne_true h

/-- Of a name that conforms to a candidate nothing is found, unless the check looks at bare names
and the name is one. -/
theorem found_eq_nil_iff (h : conformsToAny name (r.suggest d) = true) :
    found r bareCheck name d line = [] ↔
      ¬ (bareCheck = true ∧ name ∈ (r.interfaceBaseNames d).map Prod.fst) := by
  rw [found_eq_append, found_of_conforms h, List.nil_append, foundBare]
  cases bareCheck with
  | false => simp
  | true => simp [suggest_ne_nil_of_conforms h, bareNames_eq_nil]

/-! ## Faithful knowledge -/

theorem conforms_of_interface (hk : r.knowledge.Faithful)
    (h : name ∈ (r.interfaceBaseNames d).map Prod.fst) :
    conformsToAny name (r.suggest d) = true :=
  conformsToAny_iff.2 ⟨name, Suggester.mem_suggest_of_interface hk h, conforms_self name⟩

/-- A name that conforms to no candidate is not bare. -/
theorem bareNames_of_not_conforms (hk : r.knowledge.Faithful)
    (h : ¬ conformsToAny name (r.suggest d) = true) :
    bareNames name (r.interfaceBaseNames d) line = [] :=
  bareNames_eq_nil.2 fun hmem => h (conforms_of_interface hk hmem)

/-- Of a name that conforms to no candidate a mismatch is all that is found. -/
theorem found_of_not_conforms (hk : r.knowledge.Faithful)
    (h : ¬ conformsToAny name (r.suggest d) = true) :
    found r bareCheck name d line = found r false name d line := by
  rw [found_eq_append, foundBare, bareNames_of_not_conforms hk h, ite_self, List.append_nil]

/-- That a type has no candidate hides no bare name: it has no base name of an interface then. -/
theorem foundBare_of_faithful (hk : r.knowledge.Faithful) :
    foundBare r bareCheck name d line =
      if bareCheck then bareNames name (r.interfaceBaseNames d) line else [] := by
  rw [foundBare]
  by_cases hno : r.suggest d = []
  · have hbare : bareNames name (r.interfaceBaseNames d) line = [] := by
      apply bareNames_of_not_conforms hk
      intro hconforms
      exact suggest_ne_nil_of_conforms hconforms hno
    rw [hbare, ite_self, ite_self]
  · simp [hno]

/-! ## What is left -/

/-- All violations are forgiven if the name conforms to a base name of the declared type. -/
theorem left_some :
    left r bareCheck name d (some e) line =
      if conformsToAny name (r.suggest e) then [] else found r bareCheck name d line := by
  show (if (found r bareCheck name d line).isEmpty then found r bareCheck name d line else _) = _
  split
  · next h =>
    rw [List.isEmpty_iff.1 h, ite_self]
  · rfl

/-- A violation is left, whatever its problem, if the declared type rules the name out. -/
theorem mem_left_some {v : Violation} :
    v ∈ left r bareCheck name d (some e) line ↔
      v ∈ found r bareCheck name d line ∧ ∀ b ∈ r.suggest e, conforms name b = false := by
  rw [left_some, ← conformsToAny_eq_false]
  cases conformsToAny name (r.suggest e) with
  | true => simp
  | false => simp

/-- A type that was not narrowed forgives nothing, unless bare names are looked at and the name
is one that conforms to a candidate. -/
theorem left_itself_eq_found_iff :
    left r bareCheck name d (some d) line = found r bareCheck name d line ↔
      ¬ (bareCheck = true ∧ name ∈ (r.interfaceBaseNames d).map Prod.fst ∧
        conformsToAny name (r.suggest d) = true) := by
  rw [left_some]
  split
  · next h => rw [eq_comm, found_eq_nil_iff h, h, eq_self, and_true]
  · next h => simp [h]

/-- Of a type that was not narrowed, what a check without bare names finds is left. -/
theorem left_itself (hk : r.knowledge.Faithful) :
    left r bareCheck name d (some d) line = found r false name d line := by
  rw [left_some]
  split
  · next h => exact (found_of_conforms h).symm
  · next h => exact found_of_not_conforms hk h

end Afresh

/-! ## Types narrowed to themselves -/

/-- A declared type that is the type itself may change what is reported, whatever was asked
before.  It changes nothing unless bare names are asked for and the name is one that conforms to
a candidate, for a declared type that accepts the name takes away each violation, whatever its
problem.  Where knowledge is faithful each bare name conforms, and what is left is what a check
without bare names finds. -/
theorem narrowed_to_itself (r : Suggester) (names : List TypeName) (qs : List Question)
    (bareCheck : Bool) (name : String) (d : Descriptor) (line : Option UInt64) :
    let s := Session.after r names qs
    let bare : Prop := bareCheck = true ∧ name ∈ (r.interfaceBaseNames d).map Prod.fst
    let checked (bareCheck : Bool) : List Violation :=
      ((check (Session.source r) bareCheck name d line).run s).1
    let narrowed (declared : Descriptor) : List Violation :=
      ((checkNarrowed (Session.source r) bareCheck name d (some declared) line).run s).1
    (narrowed d = checked bareCheck ↔
        ¬ (bare ∧ ∃ b ∈ r.suggest d, conforms name b = true)) ∧
      (r.knowledge.Faithful →
        narrowed d = checked false ∧ (narrowed d = checked bareCheck ↔ ¬ bare)) ∧
      ∀ declared v, v ∈ narrowed declared ↔
        v ∈ checked bareCheck ∧ ∀ b ∈ r.suggest declared, conforms name b = false := by
  intro s bare checked narrowed
  have hchecked : ∀ b, checked b = found r b name d line := fun b =>
    (answers_check b name d line).run_after names qs
  have hnarrowed : ∀ e, narrowed e = left r bareCheck name d (some e) line := fun e =>
    (answers_checkNarrowed bareCheck name d (some e) line).run_after names qs
  have hexact : narrowed d = checked bareCheck ↔
      ¬ (bare ∧ ∃ b ∈ r.suggest d, conforms name b = true) := by
    rw [hnarrowed, hchecked, left_itself_eq_found_iff, conformsToAny_iff, and_assoc]
  refine ⟨hexact, fun hk => ⟨?_, ?_⟩, fun e v => ?_⟩
  · rw [hnarrowed, hchecked, left_itself hk]
  · -- a bare name is a candidate, so it conforms to one
    rw [hexact]
    exact not_congr (and_iff_left_of_imp fun hbare =>
      conformsToAny_iff.1 (conforms_of_interface hk hbare.2))
  · rw [hnarrowed, hchecked, mem_left_some]

/-- A bare name that goes unreported where the interface is declared and not narrowed. -/
theorem narrowed_channel_unreported :
    let r : Suggester := ⟨.catalogue (Catalogue.empty.register
      ⟨.ofString "App\\ChannelInterface", .interface, [], [], false⟩), .ofEntries [] []⟩
    let d : Descriptor := .ofName "App\\ChannelInterface"
    ((check (Session.source r) true "channel" d none).run Session.new).1.map
        Violation.problem = [.interfaceBareName] ∧
      ((checkNarrowed (Session.source r) true "channel" d (some d) none).run
        Session.new).1 = [] := by
  intro r d
  have hbare : "channel" ∈ (r.interfaceBaseNames d).map Prod.fst := by decide +kernel
  have hconforms : conformsToAny "channel" (r.suggest d) = true :=
    conforms_of_interface (Knowledge.faithful_catalogue _) hbare
  have hchecked : ((check (Session.source r) true "channel" d none).run Session.new).1 =
      found r true "channel" d none := (answers_check true "channel" d none).run_after [] []
  have hnarrowed : ((checkNarrowed (Session.source r) true "channel" d (some d) none).run
      Session.new).1 = left r true "channel" d (some d) none :=
    (answers_checkNarrowed true "channel" d (some d) none).run_after [] []
  constructor
  · rw [hchecked, found_eq_append, found_of_conforms hconforms, foundBare,
      if_pos ⟨suggest_ne_nil_of_conforms hconforms, rfl⟩]
    decide +kernel
  · rw [hnarrowed, left_some, if_pos hconforms]

end Eponym.TypedName
