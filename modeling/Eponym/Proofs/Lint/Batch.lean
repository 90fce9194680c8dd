/-
# Batches

A batch is the sum of its subjects: the report on it holds, subject after subject, what each is
reported for alone by a linter that has been asked nothing.  So neither the order of the
subjects nor the division into batches matters to what is reported on one of them.

* `about_findings` : what is reported on the subject at a place;
* `affected_findings` : how many subjects are reported on;
* `batch_is_sum` : the report on a batch, whatever was asked before.
-/
import Eponym.Proofs.Lint.History
import Eponym.Proofs.Lint.Report

namespace Eponym

/-- The violations that are reported on the subject at a place of the batch. -/
def Report.about (r : Report) (index : Nat) : List Violation :=
  (r.findings.filter fun f => f.index = index).map Finding.violation

namespace Linter

variable {e : Linter}

/-! ## Places -/

/-- The findings on the first subject stand in front of those on the others. -/
theorem findings_cons (index : Nat) (s : Subject) (subjects : List Subject) :
    e.findings index (s :: subjects) =
      (e.found s).map (fun v => ⟨index, s.name, v⟩) ++ e.findings (index + 1) subjects := rfl

/-- No finding has a place in front of the first subject. -/
theorem le_index_of_mem_findings {index : Nat} {subjects : List Subject} {f : Finding}
    (h : f ∈ e.findings index subjects) : index ≤ f.index := by
  obtain ⟨p, hp, hf⟩ := List.mem_flatMap.1 h
  obtain ⟨v, -, rfl⟩ := List.mem_map.1 hf
  exact List.le_snd_of_mem_zipIdx hp

/-- The findings with the place of a subject are the violations of that subject. -/
theorem about_findings (index i : Nat) (subjects : List Subject) :
    ((e.findings index subjects).filter fun f => f.index = index + i).map Finding.violation =
      (subjects[i]?.map e.found).getD [] := by
  induction subjects generalizing index i with
  | nil => rfl
  | cons s ss ih =>
    rw [findings_cons, List.filter_append, List.map_append]
    cases i with
    | zero =>
      have hhead : ((e.found s).map fun v => (⟨index, s.name, v⟩ : Finding)).filter
          (fun f => f.index = index + 0) = (e.found s).map fun v => ⟨index, s.name, v⟩ :=
        filter_of_constant (b := true) fun f hf => by
          obtain ⟨v, -, rfl⟩ := List.mem_map.1 hf
          exact decide_eq_true rfl
      have htail : (e.findings (index + 1) ss).filter (fun f => f.index = index + 0) = [] :=
        filter_of_constant (b := false) fun f hf => by
          have hle := le_index_of_mem_findings hf
          exact decide_eq_false (by omega)
      rw [hhead, htail, List.map_map, List.map_nil, List.append_nil]
      exact List.map_id _
    | succ i =>
      have hhead : ((e.found s).map fun v => (⟨index, s.name, v⟩ : Finding)).filter
          (fun f => f.index = index + (i + 1)) = [] :=
        filter_of_constant (b := false) fun f hf => by
          obtain ⟨v, -, rfl⟩ := List.mem_map.1 hf
          have hne : index ≠ index + (i + 1) := by omega
          exact decide_eq_false hne
      rw [hhead, List.map_nil, List.nil_append, ← Nat.succ_add_eq_add_succ, ih]
      rfl

/-! ## Numbers of subjects -/

/-- The places of the findings come in blocks, one for each subject. -/
theorem map_index_findings (index : Nat) (subjects : List Subject) :
    (e.findings index subjects).map Finding.index =
      (subjects.zipIdx index).flatMap fun p => List.replicate (e.found p.1).length p.2 := by
  rw [findings, List.map_flatMap]
  congr 1
  funext p
  rw [List.map_map]
  exact List.map_const'

/-- The subjects that are counted as reported on are those that have a violation. -/
theorem affected_findings (checked : Nat) (subjects : List Subject) :
    (⟨checked, e.findings 0 subjects⟩ : Report).affected =
      subjects.countP fun s => e.found s ≠ [] := by
  rw [Report.affected, map_index_findings,
    Report.length_withoutRepeats_blocks fun s => (e.found s).length]
  congr 1
  funext s
  simp only [ne_eq, List.length_eq_zero_iff]

/-! ## Batches of subjects -/

/-- Whatever was asked before, the report on a batch puts together what a linter that was asked
nothing finds of each subject alone, and gives each subject its own.  The subjects that have a
violation are counted once each, and so is each violation, under its problem; problems are
listed in the order of first report. -/
theorem batch_is_sum (e : Linter) (requests : List Request) (subjects : List Subject) :
    let report := ((e.checkAll subjects).run (e.after requests)).1
    let alone (s : Subject) : List Violation := ((e.check s).run Session.new).1
    report.checked = subjects.length ∧
      report.findings = (subjects.zipIdx.flatMap fun p =>
        (alone p.1).map fun v => ⟨p.2, p.1.name, v⟩) ∧
      (∀ i, report.about i = (subjects[i]?.map alone).getD []) ∧
      report.affected = subjects.countP (fun s => alone s ≠ []) ∧
      (report.counts.map Prod.snd).sum = report.total ∧
      (∀ p, p ∈ report.counts.map Prod.fst ↔ p ∈ report.problems) ∧
      (report.counts.map Prod.fst).Pairwise fun p q =>
        report.problems.idxOf p < report.problems.idxOf q := by
  intro report alone
  have hreport : report = ⟨subjects.length, e.findings 0 subjects⟩ :=
    e.run_checkAll_after requests subjects
  have halone : alone = e.found := funext fun s => e.run_check_after [] s
  refine ⟨?_, ?_, fun i => ?_, ?_, report.sum_counts, fun p => Report.mem_map_fst_counts,
    report.pairwise_counts⟩
  · rw [hreport]
  · rw [hreport, halone]
    rfl
  · rw [hreport, halone, ← about_findings 0 i subjects, Nat.zero_add]
    rfl
  · rw [hreport, halone]
    exact affected_findings _ _

end Linter

end Eponym
