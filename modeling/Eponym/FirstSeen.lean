/-
# First occurrences

Every list of names this library answers with is free of repetitions and keeps
the order in which the names were met.  `distinctBy key` keeps, of the entries
that share a key, the one that comes first; `List.eraseDups` compares whole entries.

* `distinctBy_append` : a later list adds only what the earlier one lacks;
* `nodup_map_distinctBy` : no key is left twice;
* `mem_map_distinctBy` : no key is lost;
* `distinctBy_id` : entries that are their own keys.
-/

namespace Eponym

/-! ## Keeping the first entry of each key -/

section Distinct

variable {α β : Type} [DecidableEq β]

/-- The entries of a list whose key no earlier entry has, in order. -/
def distinctBy (key : α → β) : List α → List α
  | [] => []
  | x :: xs => x :: (distinctBy key xs).filter fun y => key y ≠ key x

@[simp] theorem distinctBy_nil (key : α → β) : distinctBy key [] = [] := rfl

/-- What is kept was there before. -/
theorem mem_of_mem_distinctBy {key : α → β} {x : α} {xs : List α}
    (h : x ∈ distinctBy key xs) : x ∈ xs := by
  induction xs with
  | nil => simp at h
  | cons y ys ih =>
    rcases List.mem_cons.1 h with rfl | h
    · simp
    · exact List.mem_cons_of_mem _ (ih (List.mem_filter.1 h).1)

/-- Every key of the list is the key of an entry that is kept, and no other is. -/
theorem mem_map_distinctBy {key : α → β} {k : β} {xs : List α} :
    k ∈ (distinctBy key xs).map key ↔ k ∈ xs.map key := by
  induction xs with
  | nil => simp
  | cons y ys ih =>
    by_cases hk : k = key y
    · simp [distinctBy, hk]
    · simp only [List.mem_map] at ih
      simp only [distinctBy, List.map_cons, List.mem_cons, hk, false_or, List.mem_map,
        List.mem_filter, decide_eq_true_eq]
      constructor
      · rintro ⟨a, ⟨ha, -⟩, rfl⟩
        exact ih.1 ⟨a, ha, rfl⟩
      · intro h
        obtain ⟨a, ha, rfl⟩ := ih.2 h
        exact ⟨a, ⟨ha, hk⟩, rfl⟩

/-- No two entries that are kept share a key. -/
theorem nodup_map_distinctBy (key : α → β) (xs : List α) :
    ((distinctBy key xs).map key).Nodup := by
  induction xs with
  | nil => simp
  | cons y ys ih =>
    simp only [distinctBy, List.map_cons, List.nodup_cons]
    constructor
    · simp
    · exact ih.sublist (List.filter_sublist.map key)

/-- Filtering by a property of the key and keeping first entries commute. -/
theorem distinctBy_filter (key : α → β) (p : β → Bool) (xs : List α) :
    distinctBy key (xs.filter fun x => p (key x)) =
      (distinctBy key xs).filter fun x => p (key x) := by
  induction xs with
  | nil => rfl
  | cons y ys ih =>
    by_cases hy : p (key y)
    · simp only [List.filter_cons, hy, if_true, distinctBy, ih, List.filter_filter, Bool.and_comm]
    · simp only [List.filter_cons, hy, Bool.false_eq_true, if_false, distinctBy, ih,
        List.filter_filter]
      refine List.filter_congr fun x _ => ?_
      by_cases hx : key x = key y <;> simp [hx, hy]

/-- Of two lists end to end, the second contributes the entries with new keys. -/
theorem distinctBy_append (key : α → β) (xs ys : List α) :
    distinctBy key (xs ++ ys) =
      distinctBy key xs ++ (distinctBy key ys).filter fun y => key y ∉ xs.map key := by
  induction xs with
  | nil => simp [List.filter_eq_self.2]
  | cons x xs ih =>
    simp only [List.cons_append, distinctBy, ih, List.filter_append, List.filter_filter,
      List.map_cons, List.mem_cons, not_or]
    congr 2
    refine List.filter_congr fun y _ => ?_
    simp

end Distinct

/-! ## Keeping the first of equal entries -/

section Equal

variable {α : Type} [DecidableEq α]

/-- Where entries are their own keys, the first of equal entries is kept. -/
theorem distinctBy_id : (xs : List α) → distinctBy id xs = xs.eraseDups
  | [] => rfl
  | x :: xs => by
    have hfilter : distinctBy id (xs.filter fun y => !y == x) =
        (distinctBy id xs).filter fun y => !y == x := distinctBy_filter id (fun y => !y == x) xs
    rw [List.eraseDups_cons, ← distinctBy_id, hfilter, distinctBy]
    congr 1
    refine List.filter_congr fun y _ => ?_
    by_cases h : y = x <;> simp [h]
termination_by xs => xs.length
decreasing_by exact Nat.lt_succ_of_le (List.length_filter_le _ _)

theorem nodup_eraseDups (xs : List α) : xs.eraseDups.Nodup := by
  rw [← distinctBy_id]
  simpa using nodup_map_distinctBy id xs

theorem eraseDups_filter (p : α → Bool) (xs : List α) :
    (xs.filter p).eraseDups = xs.eraseDups.filter p := by
  rw [← distinctBy_id, ← distinctBy_id]
  exact distinctBy_filter id p xs

theorem eraseDups_cons_filter (x : α) (xs : List α) :
    (x :: xs).eraseDups = x :: xs.eraseDups.filter fun y => y ≠ x := by
  rw [← distinctBy_id, ← distinctBy_id]
  rfl

end Equal

end Eponym
