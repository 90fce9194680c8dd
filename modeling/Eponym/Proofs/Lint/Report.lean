/-
# Laws of reports

A report counts its findings in two ways: by subject, as neighbours with one place, and by
problem, in the order in which the problems come up.  The first is right as long as the findings
on a subject stand together, the second always.

* `length_withoutRepeats_blocks` : blocks of equal entries are counted by their places;
* `sum_counts` : the numbers of violations of each problem add up to all violations;
* `pairwise_counts` : the problems are listed in the order of first report.
-/
import Mathlib
import Eponym.Lint.Report

namespace Eponym

/-! ## First occurrences -/

section Repetitions

variable {α : Type} [DecidableEq α]

/-- What is kept stands in the order in which it came up first. -/
theorem pairwise_idxOf_eraseDups (xs : List α) :
    xs.eraseDups.Pairwise fun a b => xs.idxOf a < xs.idxOf b := by
  induction xs with
  | nil => exact List.Pairwise.nil
  | cons x xs ih =>
    have hlater : ∀ a ∈ xs.eraseDups.filter (fun y => y ≠ x),
        (x :: xs).idxOf a = xs.idxOf a + 1 := by
      intro a ha
      have hne : a ≠ x := by simpa using (List.mem_filter.1 ha).2
      exact List.idxOf_cons_ne xs (Ne.symm hne)
    rw [eraseDups_cons_filter]
    refine List.pairwise_cons.2 ⟨fun a ha => ?_, ?_⟩
    · rw [List.idxOf_cons_self, hlater a ha]
      exact Nat.succ_pos _
    · refine (ih.filter _).imp_of_mem fun {a b} ha hb hab => ?_
      rw [hlater a ha, hlater b hb]
      exact Nat.succ_lt_succ hab

/-- The numbers of times that the entries of a list occur add up to its length. -/
theorem sum_map_count_eraseDups (xs : List α) :
    (xs.eraseDups.map fun x => xs.count x).sum = xs.length := by
  have hperm : xs.eraseDups.Perm xs.dedup := by
    refine (List.perm_ext_iff_of_nodup (nodup_eraseDups xs) xs.nodup_dedup).2 fun x => ?_
    rw [List.mem_eraseDups, List.mem_dedup]
  rw [(hperm.map fun x => xs.count x).sum_eq, List.sum_map_count_dedup_eq_length]

end Repetitions

namespace Report

/-! ## Subjects -/

/-- A block of equal entries counts once, if the next entry is another. -/
theorem withoutRepeats_replicate_append {i : Nat} {is : List Nat} (h : i ∉ is) (n : Nat) :
    withoutRepeats (List.replicate (n + 1) i ++ is) = i :: withoutRepeats is := by
  induction n with
  | zero =>
    cases is with
    | nil => rfl
    | cons j is =>
      have hij : i ≠ j := fun heq => h (heq ▸ List.mem_cons_self)
      exact if_neg hij
  | succ n ih =>
    rw [← ih, List.replicate_succ, List.replicate_succ]
    exact if_pos rfl

/-- Of blocks of places, the first of which has the given place, those that are not empty are
counted. -/
theorem length_withoutRepeats_blocks {α : Type} (size : α → Nat) (xs : List α) (index : Nat) :
    (withoutRepeats ((xs.zipIdx index).flatMap fun p => List.replicate (size p.1) p.2)).length =
      xs.countP fun x => size x ≠ 0 := by
  induction xs generalizing index with
  | nil => rfl
  | cons x xs ih =>
    rw [List.zipIdx_cons, List.flatMap_cons, List.countP_cons, ← ih (index + 1)]
    cases hsize : size x with
    | zero => rfl
    | succ n =>
      -- later blocks have later places
      have hlater : index ∉ (xs.zipIdx (index + 1)).flatMap fun p =>
          List.replicate (size p.1) p.2 := by
        intro hmem
        obtain ⟨p, hp, hindex⟩ := List.mem_flatMap.1 hmem
        have hle := List.le_snd_of_mem_zipIdx hp
        have heq := List.eq_of_mem_replicate hindex
        omega
      rw [withoutRepeats_replicate_append hlater]
      rfl

/-! ## Problems -/

/-- The problems of a report, in the order of the findings. -/
def problems (r : Report) : List Problem := r.findings.map fun f => f.violation.problem

theorem map_fst_counts (r : Report) : r.counts.map Prod.fst = r.problems.eraseDups := by
  rw [counts, List.map_map]
  exact List.map_id _

theorem mem_map_fst_counts {r : Report} {p : Problem} :
    p ∈ r.counts.map Prod.fst ↔ p ∈ r.problems := by
  rw [map_fst_counts, List.mem_eraseDups]

/-- The problems are listed in the order of first report. -/
theorem pairwise_counts (r : Report) :
    (r.counts.map Prod.fst).Pairwise fun p q => r.problems.idxOf p < r.problems.idxOf q := by
  rw [map_fst_counts]
  exact pairwise_idxOf_eraseDups r.problems

theorem sum_counts (r : Report) : (r.counts.map Prod.snd).sum = r.total := by
  have hsum := sum_map_count_eraseDups r.problems
  rw [problems, List.length_map] at hsum
  rw [counts, List.map_map]
  exact hsum

end Report

end Eponym
