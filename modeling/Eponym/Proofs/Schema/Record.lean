/-
# Records that are stored again

Type models, configurations, reflections, violations and reports are read back from their data
forms as they were.  An entry that is left out when it says nothing stands for just that when it
is missing: no types extended or implemented, no line.  The entries of a violation are found
among those of its finding.  The numbers in a report have to be machine words.

* `decodeEntries_append` : a violation is read back from entries that hold more;
* `Report.decode_encode_iff` : a report is read back exactly if its numbers are machine words;
* `stored_reread` : what is stored is read back as it was.
-/
import Eponym.Proofs.Schema.Descriptor
import Eponym.Schema.Configuration
import Eponym.Schema.Report
import Eponym.Schema.TypeModel

namespace Eponym

open Data

/-! ## Type models -/

theorem TypeName.decode_list (names : List TypeName) :
    list decode (.list (names.map encode)) = .ok names :=
  list_map_eq_ok_iff.2 fun n _ => decode_encode n

namespace Declaration

/-- A list of names that is left out if it is empty is read back. -/
theorem decode_names {key : String} {names : List TypeName} {es : Entries}
    (h : es.lookup key = if names = [] then none else some (.list (names.map TypeName.encode))) :
    optional (list TypeName.decode) [] key es = .ok names := by
  by_cases hn : names = []
  · rw [if_pos hn] at h
    rw [optional_of_lookup_none h, hn]
  · rw [if_neg hn] at h
    rw [optional_of_lookup h, TypeName.decode_list]

/-- A list of names has a value if it is not left out. -/
theorem hasValue_namesEntry {known : List (String × Decoder Unit)} {key : String}
    (h : known.lookup key = some (check (list TypeName.decode))) (names : List TypeName) :
    ∀ e ∈ namesEntry key names, HasValue known e := by
  unfold namesEntry
  split
  · exact List.forall_mem_nil _
  · exact List.forall_mem_singleton.2 (.of_lookup h (TypeName.decode_list names))

/-- A declaration is read back as it was. -/
theorem decode_encode (d : Declaration) : decode d.encode = .ok d := by
  obtain ⟨name, kind, extended, implemented, builtin⟩ := d
  have hname : TypeName.decode name.encode = .ok name := TypeName.decode_encode name
  have hkind : Kind.decode kind.encode = .ok kind := Kind.decode_encode kind
  have hbuiltin : Data.bool (.bool builtin) = .ok builtin := rfl
  refine Except.bind_eq_ok_iff.2 ⟨_, rfl, ?_⟩
  refine Except.bind_eq_ok_iff.2 ⟨(), inspect_eq_ok_iff.2 ⟨?_, ?_⟩, ?_⟩
  · cases extended <;> cases implemented <;> rfl
  · refine List.forall_mem_append.2 ⟨List.forall_mem_append.2 ⟨List.forall_mem_append.2
      ⟨?_, hasValue_namesEntry rfl extended⟩, hasValue_namesEntry rfl implemented⟩, ?_⟩
    · exact List.forall_mem_cons.2 ⟨.of_lookup rfl hname,
        List.forall_mem_singleton.2 (.of_lookup rfl hkind)⟩
    · exact List.forall_mem_singleton.2 (.of_lookup rfl hbuiltin)
  · refine Except.bind_eq_ok_iff.2 ⟨name, hname, Except.bind_eq_ok_iff.2 ⟨kind, hkind, ?_⟩⟩
    refine Except.bind_eq_ok_iff.2 ⟨extended, decode_names ?_, ?_⟩
    · cases extended <;> cases implemented <;> rfl
    refine Except.bind_eq_ok_iff.2 ⟨implemented, decode_names ?_, ?_⟩
    · cases extended <;> cases implemented <;> rfl
    refine Except.bind_eq_ok_iff.2 ⟨builtin, ?_, rfl⟩
    cases extended <;> cases implemented <;> rfl

theorem decodeModel_encodeModel (ds : List Declaration) :
    decodeModel (encodeModel ds) = .ok ds := by
  have hds := list_map_eq_ok_iff.2 fun d (_ : d ∈ ds) => decode_encode d
  refine Except.bind_eq_ok_iff.2 ⟨_, rfl, Except.bind_eq_ok_iff.2 ⟨(), ?_, hds⟩⟩
  exact inspect_eq_ok_iff.2 ⟨rfl, List.forall_mem_singleton.2 (.of_lookup rfl hds)⟩

end Declaration

/-! ## Reflections -/

theorem ReflectedType.decode_encode (t : ReflectedType) : decode t.encode = .ok t := by
  have hname : Data.text (.text t.name) = .ok t.name := rfl
  have hbuiltin : Data.bool (.bool t.builtin) = .ok t.builtin := rfl
  refine Except.bind_eq_ok_iff.2 ⟨_, rfl, Except.bind_eq_ok_iff.2 ⟨(), ?_, rfl⟩⟩
  exact inspect_eq_ok_iff.2 ⟨rfl, List.forall_mem_cons.2
    ⟨.of_lookup rfl hname, List.forall_mem_singleton.2 (.of_lookup rfl hbuiltin)⟩⟩

/-- A reflection is read back as it was. -/
theorem Reflection.decode_encode (r : Reflection) : decode r.encode = .ok r := by
  have hname : Data.text (.text r.name) = .ok r.name := rfl
  have hkind : Kind.decode r.kind.encode = .ok r.kind := Kind.decode_encode r.kind
  have hbuiltin : Data.bool (.bool r.builtin) = .ok r.builtin := rfl
  have htypes : ∀ ts : List ReflectedType,
      list ReflectedType.decode (.list (ts.map ReflectedType.encode)) = .ok ts :=
    fun ts => list_map_eq_ok_iff.2 fun t _ => t.decode_encode
  refine Except.bind_eq_ok_iff.2 ⟨_, rfl, ?_⟩
  refine Except.bind_eq_ok_iff.2 ⟨(), inspect_eq_ok_iff.2 ⟨rfl, ?_⟩, ?_⟩
  · refine List.forall_mem_cons.2 ⟨.of_lookup rfl hname, ?_⟩
    refine List.forall_mem_cons.2 ⟨.of_lookup rfl hkind, ?_⟩
    refine List.forall_mem_cons.2 ⟨.of_lookup rfl hbuiltin, ?_⟩
    refine List.forall_mem_cons.2 ⟨.of_lookup rfl (htypes r.parents), ?_⟩
    exact List.forall_mem_singleton.2 (.of_lookup rfl (htypes r.interfaces))
  · refine Except.bind_eq_ok_iff.2 ⟨r.name, hname, ?_⟩
    refine Except.bind_eq_ok_iff.2 ⟨r.kind, hkind, ?_⟩
    refine Except.bind_eq_ok_iff.2 ⟨r.builtin, hbuiltin, ?_⟩
    refine Except.bind_eq_ok_iff.2 ⟨r.parents, htypes r.parents, ?_⟩
    exact Except.bind_eq_ok_iff.2 ⟨r.interfaces, htypes r.interfaces, rfl⟩

/-! ## Configurations -/

theorem Toggles.decode_encode (t : Toggles) : decode t.encode = .ok t := by
  have hbool : ∀ b : Bool, Data.bool (.bool b) = .ok b := fun _ => rfl
  refine Except.bind_eq_ok_iff.2 ⟨_, rfl, Except.bind_eq_ok_iff.2 ⟨(), ?_, rfl⟩⟩
  refine inspect_eq_ok_iff.2 ⟨rfl, List.forall_mem_cons.2 ⟨.of_lookup rfl (hbool _), ?_⟩⟩
  exact List.forall_mem_cons.2 ⟨.of_lookup rfl (hbool _),
    List.forall_mem_singleton.2 (.of_lookup rfl (hbool _))⟩

/-- What concerns naming is read back. -/
theorem NamingConfig.decode_encode (c : NamingConfig) : decode c.encode = .ok c := by
  have htexts : ∀ ss : List String, list Data.text (.list (ss.map Value.text)) = .ok ss :=
    fun ss => list_map_eq_ok_iff.2 fun _ _ => rfl
  have hbool : Data.bool (.bool c.bareNameCheck) = .ok c.bareNameCheck := rfl
  have htoggles : Toggles.decode c.toggles.encode = .ok c.toggles := c.toggles.decode_encode
  refine Except.bind_eq_ok_iff.2 ⟨_, rfl, ?_⟩
  refine Except.bind_eq_ok_iff.2 ⟨(), inspect_eq_ok_iff.2 ⟨rfl, ?_⟩, ?_⟩
  · refine List.forall_mem_cons.2 ⟨.of_lookup rfl (htexts c.deniedTypes), ?_⟩
    refine List.forall_mem_cons.2 ⟨.of_lookup rfl (htexts c.deniedBases), ?_⟩
    exact List.forall_mem_cons.2 ⟨.of_lookup rfl hbool,
      List.forall_mem_singleton.2 (.of_lookup rfl htoggles)⟩
  · refine Except.bind_eq_ok_iff.2 ⟨c.deniedTypes, htexts c.deniedTypes, ?_⟩
    refine Except.bind_eq_ok_iff.2 ⟨c.deniedBases, htexts c.deniedBases, ?_⟩
    refine Except.bind_eq_ok_iff.2 ⟨c.bareNameCheck, hbool, ?_⟩
    exact Except.bind_eq_ok_iff.2 ⟨c.toggles, htoggles, rfl⟩

theorem Configuration.decode_encode (c : Configuration) : decode c.encode = .ok c := by
  have hnaming : NamingConfig.decode c.naming.encode = .ok c.naming := c.naming.decode_encode
  refine Except.bind_eq_ok_iff.2 ⟨_, rfl, Except.bind_eq_ok_iff.2 ⟨(), ?_, ?_⟩⟩
  · exact inspect_eq_ok_iff.2 ⟨rfl, List.forall_mem_singleton.2 (.of_lookup rfl hnaming)⟩
  · exact Except.bind_eq_ok_iff.2 ⟨c.naming, hnaming, rfl⟩

/-! ## Violations -/

namespace Violation

/-- The entries of a violation have a value. -/
theorem hasValue_entries {problem : Decoder Problem} {v : Violation}
    (hproblem : problem v.problem.encode = .ok v.problem) :
    ∀ e ∈ v.entries, HasValue [("identifier", check problem), ("message", check Data.text),
      ("line", check (nullable word))] e := by
  have hmessage : Data.text (.text v.message) = .ok v.message := rfl
  refine List.forall_mem_append.2 ⟨List.forall_mem_cons.2 ⟨.of_lookup rfl hproblem,
    List.forall_mem_singleton.2 (.of_lookup rfl hmessage)⟩, ?_⟩
  cases v.line with
  | none => exact List.forall_mem_nil _
  | some n => exact List.forall_mem_singleton.2 (.of_lookup rfl (nullable_word_natural n))

/-- A violation is read back from its entries, also behind others of other names. -/
theorem decodeEntries_append {problem : Decoder Problem} {v : Violation} {own : Entries}
    (hproblem : problem v.problem.encode = .ok v.problem)
    (hown : ∀ e ∈ own, e.1 ∉ ["identifier", "message", "line"]) :
    decodeEntries problem (own ++ v.entries) = .ok v := by
  have hlookup : ∀ name ∈ ["identifier", "message", "line"],
      (own ++ v.entries).lookup name = v.entries.lookup name := by
    intro name hname
    refine lookup_append_of_ne fun e he hsame => hown e he ?_
    rw [hsame]
    exact hname
  obtain ⟨p, message, line⟩ := v
  refine Except.bind_eq_ok_iff.2 ⟨(), inspect_eq_ok_iff.2 ⟨?_, ?_⟩, ?_⟩
  · show repeats ["identifier", "message", "line"] _ = false
    rw [repeats_append_of_notMem hown]
    cases line <;> rfl
  · refine List.forall_mem_append.2 ⟨fun e he => .of_notMem (hown e he), ?_⟩
    exact hasValue_entries hproblem
  · refine Except.bind_eq_ok_iff.2 ⟨p, ?_, Except.bind_eq_ok_iff.2 ⟨message, ?_, ?_⟩⟩
    · rw [required_of_lookup ((hlookup _ (by decide)).trans rfl)]
      exact hproblem
    · rw [required_of_lookup ((hlookup _ (by decide)).trans rfl)]
      rfl
    · refine Except.bind_eq_ok_iff.2 ⟨line, ?_, rfl⟩
      cases line with
      | none => exact optional_of_lookup_none ((hlookup _ (by decide)).trans rfl)
      | some n =>
        rw [optional_of_lookup ((hlookup _ (by decide)).trans rfl)]
        exact nullable_word_natural n

theorem decode_encode (v : Violation) : decode v.encode = .ok v :=
  Except.bind_eq_ok_iff.2 ⟨v.entries, rfl,
    @decodeEntries_append Problem.decode v [] v.problem.decode_encode (List.forall_mem_nil _)⟩

end Violation

/-! ## Reports -/

namespace Finding

/-- The entries of a finding that are not those of its violation. -/
def ownEntries (f : Finding) : Entries :=
  [("subject_index", .natural f.index), ("subject_name", .text f.name)]

/-- The violation of a finding is read back from the entries of the finding. -/
theorem decodeEntries_violation (f : Finding) :
    Violation.decodeEntries Problem.decodeInside (f.ownEntries ++ f.violation.entries) =
      .ok f.violation := by
  refine Violation.decodeEntries_append f.violation.problem.decodeInside_encode ?_
  exact List.forall_mem_cons.2 ⟨by simp, List.forall_mem_singleton.2 (by simp)⟩

theorem notMem_of_mem_entries {v : Violation} :
    ∀ e ∈ v.entries, e.1 ∉ ["subject_index", "subject_name"] := by
  unfold Violation.entries
  cases v.line <;> simp

/-- A finding is read back exactly if its place is a machine word. -/
theorem decode_encode_iff {f : Finding} : decode f.encode = .ok f ↔ f.index < wordLimit := by
  have hname : Data.text (.text f.name) = .ok f.name := rfl
  rw [← natural_eq_ok_iff]
  constructor
  · intro h
    obtain ⟨es, hes, h⟩ := Except.bind_eq_ok_iff.1 h
    cases hes
    obtain ⟨_, -, h⟩ := Except.bind_eq_ok_iff.1 h
    obtain ⟨index, hindex, h⟩ := Except.bind_eq_ok_iff.1 h
    obtain ⟨name, -, h⟩ := Except.bind_eq_ok_iff.1 h
    obtain ⟨violation, -, h⟩ := Except.bind_eq_ok_iff.1 h
    cases h
    exact hindex
  · intro hindex
    refine Except.bind_eq_ok_iff.2 ⟨f.ownEntries ++ f.violation.entries, rfl, ?_⟩
    refine Except.bind_eq_ok_iff.2 ⟨(), inspect_eq_ok_iff.2 ⟨?_, ?_⟩, ?_⟩
    · unfold Violation.entries
      cases f.violation.line <;> rfl
    · refine List.forall_mem_append.2 ⟨List.forall_mem_cons.2 ⟨.of_lookup rfl hindex,
        List.forall_mem_singleton.2 (.of_lookup rfl hname)⟩, ?_⟩
      exact fun e he => .of_notMem (notMem_of_mem_entries e he)
    · refine Except.bind_eq_ok_iff.2 ⟨f.index, hindex, ?_⟩
      refine Except.bind_eq_ok_iff.2 ⟨f.name, hname, ?_⟩
      exact Except.bind_eq_ok_iff.2 ⟨f.violation, decodeEntries_violation f, rfl⟩

end Finding

/-- A report is read back exactly if its numbers are machine words. -/
theorem Report.decode_encode_iff {r : Report} :
    decode r.encode = .ok r ↔
      r.checked < wordLimit ∧ ∀ f ∈ r.findings, f.index < wordLimit := by
  have hfindings : list Finding.decode (.list (r.findings.map Finding.encode)) = .ok r.findings ↔
      ∀ f ∈ r.findings, f.index < wordLimit := by
    rw [list_map_eq_ok_iff]
    exact forall₂_congr fun f _ => Finding.decode_encode_iff
  rw [← natural_eq_ok_iff, ← hfindings]
  constructor
  · intro h
    obtain ⟨es, hes, h⟩ := Except.bind_eq_ok_iff.1 h
    cases hes
    obtain ⟨_, -, h⟩ := Except.bind_eq_ok_iff.1 h
    obtain ⟨checked, hchecked, h⟩ := Except.bind_eq_ok_iff.1 h
    obtain ⟨findings, hfound, h⟩ := Except.bind_eq_ok_iff.1 h
    cases h
    exact ⟨hchecked, hfound⟩
  · rintro ⟨hchecked, hfound⟩
    refine Except.bind_eq_ok_iff.2 ⟨_, rfl, ?_⟩
    refine Except.bind_eq_ok_iff.2 ⟨(), inspect_eq_ok_iff.2 ⟨rfl, ?_⟩, ?_⟩
    · exact List.forall_mem_cons.2 ⟨.of_lookup rfl hchecked,
        List.forall_mem_singleton.2 (.of_lookup rfl hfound)⟩
    · refine Except.bind_eq_ok_iff.2 ⟨r.checked, hchecked, ?_⟩
      exact Except.bind_eq_ok_iff.2 ⟨r.findings, hfound, rfl⟩

/-! ## Everything that is stored -/

/-- What is stored is read back as it was: descriptors of any depth, declarations and models
of them, configurations, reflections, violations, and the reports whose numbers are machine
words. -/
theorem stored_reread :
    (∀ d : Descriptor, Descriptor.decode d.encode = .ok d) ∧
      (∀ d : Declaration, Declaration.decode d.encode = .ok d) ∧
      (∀ ds : List Declaration,
        Declaration.decodeModel (Declaration.encodeModel ds) = .ok ds) ∧
      (∀ c : Configuration, Configuration.decode c.encode = .ok c) ∧
      (∀ r : Reflection, Reflection.decode r.encode = .ok r) ∧
      (∀ v : Violation, Violation.decode v.encode = .ok v) ∧
      ∀ r : Report, Report.decode r.encode = .ok r ↔
        r.checked < wordLimit ∧ ∀ f ∈ r.findings, f.index < wordLimit :=
  ⟨Descriptor.decode_encode, Declaration.decode_encode, Declaration.decodeModel_encodeModel,
    Configuration.decode_encode, Reflection.decode_encode, Violation.decode_encode,
    fun _ => Report.decode_encode_iff⟩

end Eponym
